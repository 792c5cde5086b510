import TrialLoop.Proofs.Condition.Pieces

namespace TrialLoop

theorem magnitude_toInt {ds : List Char} (h : digitsValue ds < 2 ^ 63) :
    (Operand.magnitude ds).toInt = digitsValue ds := by
  rw [Operand.magnitude, Int64.toInt_ofInt_of_le] <;> omega

theorem readNumber?_integer {negative : Bool} {ds : List Char} (hne : ds ≠ [])
    (h : ∀ d ∈ ds, d.isDigit = true) (hv : digitsValue ds < 2 ^ 63) :
    (Value.readNumber? (String.ofList (signedDigits negative ds))).isSome = true := by
  have hn : (Int64.ofInt (signed negative (digitsValue ds))).toInt =
      signed negative (digitsValue ds) := by
    cases negative <;> rw [Int64.toInt_ofInt_of_le] <;> simp only [signed] <;> simp <;> omega
  rw [readNumber?_signedDigits hne h hn]
  rfl

/-- An operand is beside a comparison, where words are quoted. -/
theorem source_operand (o : Operand) : o.piece.source true = o.source := by
  cases o with
  | name | quoted | bracketed => rfl
  | integer negative ds h =>
    have hr : Piece.isReserved (signedDigits negative ds) = true := by
      rw [Piece.isReserved, readNumber?_integer h.1 h.2.1 h.2.2, Bool.or_true]
    simp [Operand.piece, Piece.source, hr, Operand.source]
  | word w h =>
    have hr : Piece.isReserved w = false := by
      rw [Piece.isReserved, h.not_number, Option.isSome_none, Bool.or_false, Bool.eq_false_iff,
        Ne, List.contains_iff_mem]
      exact h.not_operator
    simp [Operand.piece, Piece.source, hr, Operand.source]

theorem sources_operand (o : Operand) {after : Bool} {ps : List Piece}
    (h : (after || Piece.comparisonFollows ps) = true) :
    Piece.sources after (o.piece :: ps) = o.source ++ Piece.sources false ps := by
  rw [← source_operand]
  cases o <;> simp only [Operand.piece, Piece.sources, h] <;> rfl

/-- What stands before a part or after it does not matter for it. -/
theorem sources_part (p : Part) (ps : List Piece) :
    Piece.sources false (p.pieces ++ ps) = p.source ++ Piece.sources false ps := by
  cases p with
  | comparison left sign right =>
    rw [Part.pieces, List.cons_append, sources_operand left rfl]
    simp only [List.cons_append, List.nil_append, Piece.sources, Piece.isComparison, Piece.source]
    rw [sources_operand right rfl]
    simp [Part.source]
  | not | and | or =>
    simp [Part.pieces, Piece.sources, Piece.source, Piece.isReserved, Piece.isComparison,
      Part.source, Part.text]
  | openParen | closeParen => rfl

theorem sources_spaced (p : Part) (ps : List Part) :
    Piece.sources false (spacedPieces (p :: ps)) = spaced ((p :: ps).map Part.source) := by
  induction ps generalizing p with
  | nil =>
    have h := sources_part p []
    rw [List.append_nil] at h
    rw [spacedPieces_single, List.map_singleton, spaced_single, h, Piece.sources, List.append_nil]
  | cons q qs ih =>
    rw [spacedPieces_cons, sources_part, Piece.sources, ih, List.map_cons, List.map_cons,
      List.map_cons, spaced_cons]
    rfl

theorem balanced_space (n : Nat) (s : List Char) (ps : List Piece) :
    Piece.balanced n (.space s :: ps) = Piece.balanced n ps := by
  cases n <;> rfl

theorem balanced_operand (n : Nat) (o : Operand) (ps : List Piece) :
    Piece.balanced n (o.piece :: ps) = Piece.balanced n ps := by
  cases o <;> cases n <;> rfl

/-- Only the parentheses among the parts count, whatever spaces stand between them. -/
theorem balanced_spaced (n : Nat) (p : Part) (ps : List Part) :
    Piece.balanced n (spacedPieces (p :: ps)) = Piece.balanced n (p.pieces ++ spacedPieces ps) := by
  cases ps with
  | nil =>
    rw [spacedPieces_single, spacedPieces, List.map_nil, List.intercalate_nil, List.append_nil]
  | cons q qs =>
    rw [spacedPieces_cons]
    cases p with
    | comparison left sign right =>
      simp only [Part.pieces, List.cons_append, List.nil_append, balanced_operand, balanced_space]
      cases n <;> simp only [Piece.balanced, balanced_operand]
    | not | and | or | openParen | closeParen => cases n <;> rfl

theorem balanced_written {l : Level} (c : Written l) (n : Nat) (ps : List Part) :
    Piece.balanced n (spacedPieces (c.parts ++ ps)) = Piece.balanced n (spacedPieces ps) := by
  induction c generalizing n ps with
  | comparison left sign right =>
    rw [Written.parts, List.singleton_append, balanced_spaced]
    simp only [Part.pieces, List.cons_append, List.nil_append, balanced_operand, balanced_space]
    cases n <;> simp only [Piece.balanced, balanced_operand]
  | group c ih =>
    rw [Written.parts, List.append_assoc, List.cons_append, balanced_spaced]
    refine (ih (n + 1) (.closeParen :: ps)).trans ?_
    rw [balanced_spaced]
    rfl
  | not c ih =>
    rw [Written.parts, List.cons_append, balanced_spaced, ← ih n ps]
    cases n <;> rfl
  | single c ih => exact ih n ps
  | and left right ihl ihr =>
    rw [Written.parts, List.append_assoc, List.cons_append, ihl, balanced_spaced, ← ihr n ps]
    cases n <;> rfl
  | clause c ih => exact ih n ps
  | or left right ihl ihr =>
    rw [Written.parts, List.append_assoc, List.cons_append, ihl, balanced_spaced, ← ihr n ps]
    cases n <;> rfl

theorem parts_ne_nil {l : Level} (c : Written l) : ∃ p ps, c.parts = p :: ps := by
  induction c with
  | comparison left sign right => exact ⟨_, _, rfl⟩
  | group c | not c => exact ⟨_, _, rfl⟩
  | single c ih | clause c ih => exact ih
  | and left right ih _ | or left right ih _ =>
    obtain ⟨p, ps, h⟩ := ih
    exact ⟨p, _, by rw [Written.parts, h]; rfl⟩

namespace Written

/-- The expression text of the condition. -/
def source {l : Level} (c : Written l) : List Char :=
  spaced (c.parts.map Part.source)

end Written

theorem operand_last (o : Operand) : ∀ c, o.text.getLast? = some c → isBlank c = false := by
  intro c hc
  cases o with
  | name n _ | bracketed s _ =>
    rw [Operand.text, List.getLast?_concat] at hc
    cases hc
    decide
  | integer negative ds hd =>
    obtain ⟨d, w, hw, hplain⟩ := signedDigits_word negative hd.1 hd.2.1
    rw [Operand.text, hw] at hc
    exact (word_head (hplain c (List.mem_of_getLast? hc))).1
  | word w hw => exact (word_head (hw.plain c (List.mem_of_getLast? hc)).1).1
  | quoted mark hm cs =>
    rw [Operand.text, List.getLast?_concat] at hc
    cases hc
    exact (mark_plain hm).1

theorem part_last (p : Part) : ∀ c, p.text.getLast? = some c → isBlank c = false := by
  intro c hc
  cases p with
  | comparison left sign right =>
    obtain ⟨d, ds, hd, -⟩ := operand_head right
    rw [Part.text, hd] at hc
    refine operand_last right c ?_
    rw [hd]
    simpa [List.getLast?_append, List.getLast?_cons] using hc
  | not | and | or | openParen | closeParen =>
    cases hc
    decide

theorem spaced_last (p : Part) (ps : List Part) :
    ∀ c, (spaced ((p :: ps).map Part.text)).getLast? = some c → isBlank c = false := by
  induction ps generalizing p with
  | nil =>
    rw [List.map_singleton, spaced_single]
    exact part_last p
  | cons q qs ih =>
    intro c hc
    obtain ⟨d, ds, hd, -⟩ := spaced_head q qs
    refine ih q c ?_
    rw [List.map_cons, List.map_cons, spaced_cons, ← List.map_cons, hd] at hc
    rw [hd]
    simpa [List.getLast?_append, List.getLast?_cons] using hc

/-- There is a comparison in each condition, with spaces around its sign. -/
theorem space_mem_text {l : Level} (c : Written l) : ∃ p ∈ c.parts, ' ' ∈ p.text := by
  induction c with
  | comparison left sign right => exact ⟨_, List.mem_singleton_self _, by simp [Part.text]⟩
  | group c ih | not c ih =>
    obtain ⟨p, hp, hs⟩ := ih
    exact ⟨p, by simp [Written.parts, hp], hs⟩
  | single c ih | clause c ih => exact ih
  | and left right ih _ | or left right ih _ =>
    obtain ⟨p, hp, hs⟩ := ih
    exact ⟨p, by simp [Written.parts, hp], hs⟩

theorem mem_spaced {w : List Char} {c : Char} (hc : c ∈ w) {ws : List (List Char)} (h : w ∈ ws) :
    c ∈ spaced ws := by
  induction ws with
  | nil => cases h
  | cons v ws ih =>
    cases ws with
    | nil =>
      rw [spaced_single]
      rwa [List.mem_singleton.mp h] at hc
    | cons u us =>
      rw [spaced_cons, List.mem_append]
      rcases List.mem_cons.mp h with rfl | h
      · exact .inl hc
      · exact .inr (List.mem_cons_of_mem _ (ih h))

theorem plain?_text {l : Level} (c : Written l) : Condition.plain? c.text = none := by
  obtain ⟨p, hp, hs⟩ := space_mem_text c
  have hlower : ' ' ∈ c.text.map Char.toLower :=
    List.mem_map.mpr ⟨' ', mem_spaced hs (List.mem_map_of_mem hp), by decide⟩
  have hne : ∀ w : List Char, ' ' ∉ w → c.text.map Char.toLower ≠ w := by
    rintro w hw rfl
    exact hw hlower
  obtain ⟨q, qs, hq⟩ := parts_ne_nil c
  obtain ⟨d, ds, hd, -, heq⟩ := spaced_head q qs
  have htext : c.text = d :: ds := by rw [Written.text, hq, hd]
  rw [Condition.plain?, if_neg (hne _ (by decide)), if_neg (hne _ (by decide))]
  intro rest he
  cases htext.symm.trans he
  exact heq rfl

theorem ofText_of_pieces {cs : List Char} {ps : List Piece} (htrim : trim cs = cs)
    (hplain : Condition.plain? cs = none) (hpieces : pieces cs = some (ps, true))
    (hbalanced : Piece.balanced 0 ps = true) :
    Condition.ofText (String.ofList cs) =
      .ok (.formula (String.ofList (Piece.sources false ps))) := by
  simp only [Condition.ofText, String.toList_ofList, htrim, hplain, hpieces, hbalanced, if_true]

/-- The condition that a text of comparisons stands for. -/
theorem ofText_text {l : Level} (c : Written l) :
    Condition.ofText (String.ofList c.text) = .ok (.formula (String.ofList c.source)) := by
  obtain ⟨p, ps, hp⟩ := parts_ne_nil c
  have htrim : trim c.text = c.text := by
    rw [Written.text, hp]
    obtain ⟨d, ds, hd, hblank, -⟩ := spaced_head p ps
    refine trim_eq_self ?_ (spaced_last p ps)
    rw [hd]
    rintro e ⟨⟩
    exact hblank
  have hpieces : pieces c.text = some (spacedPieces c.parts, true) := by
    rw [Written.text, hp]
    exact pieces_spaced p ps
  have hbalanced : Piece.balanced 0 (spacedPieces c.parts) = true := by
    have h := balanced_written c 0 []
    rw [List.append_nil] at h
    exact h
  have hsource : Piece.sources false (spacedPieces c.parts) = c.source := by
    rw [Written.source, hp]
    exact sources_spaced p ps
  rw [ofText_of_pieces htrim (plain?_text c) hpieces hbalanced, hsource]

end TrialLoop
