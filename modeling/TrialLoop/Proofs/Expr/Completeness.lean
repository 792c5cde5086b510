import TrialLoop.Proofs.Expr.Soundness
import Mathlib

namespace TrialLoop

/-- The rank of the tightest level that the token can begin. -/
def Token.opens : Token → Nat
  | int _ | float _ | str _ | name _ | openParen | openBracket => Level.primary.rank
  | minus | plus => Level.unary.rank
  | not => Level.not.rank
  | _ => Level.or.rank + 1

/-- The rank of the tightest level whose phrases can go on with the token. -/
def Token.continues : Token → Nat
  | openParen => Level.primary.rank
  | dot | openBracket => Level.suffixed.rank
  | starStar => Level.power.rank
  | star | slash | slashSlash | percent => Level.product.rank
  | plus | minus => Level.sum.rank
  | eq | ne | lt | le | gt | ge => Level.comparison.rank
  | and => Level.and.rank
  | or => Level.or.rank
  | _ => Level.or.rank + 1

/-- A phrase of the level ends before the tokens. -/
def Stops (l : Level) (ts : List Token) : Prop :=
  ∀ t ∈ ts.head?, l.rank < t.continues

theorem Stops.mono {l k : Level} {ts : List Token} (h : Stops l ts) (hk : k.rank ≤ l.rank) :
    Stops k ts :=
  fun t ht => Nat.lt_of_le_of_lt hk (h t ht)

theorem stops_nil (l : Level) : Stops l [] := by
  intro t ht
  cases ht

theorem stops_cons {l : Level} {t : Token} {ts : List Token} (h : l.rank < t.continues) :
    Stops l (t :: ts) := by
  intro u hu
  cases hu
  exact h

/-- No token goes on with a phrase of the unary level and not with one of a power. -/
theorem Stops.unary {ts : List Token} (h : Stops .power ts) : Stops .unary ts := by
  intro t ht
  have hlt := h t ht
  cases t <;> simp only [Token.continues, Level.rank] at hlt ⊢ <;> omega

theorem opens_applied {l : Level} {t : Token} {op : UnaryOperator} (h : (t, op) ∈ l.prefixes) :
    t.opens = l.rank := by
  cases l <;> cases t <;> first | rfl | simp [Level.prefixes] at h

theorem continues_of_operator {l : Level} {t : Token} {f : Expr → Expr → Expr}
    (h : (t, f) ∈ l.operators) : t.continues = l.rank := by
  rw [← joining?_eq_some] at h
  cases l <;> cases t <;> first | rfl | simp [Token.joining?] at h

theorem continues_of_comparison {t : Token} {op : Comparison} (h : (t, op) ∈ comparisonTokens) :
    t.continues = Level.comparison.rank := by
  rw [← comparison?_eq_some] at h
  cases t <;> first | rfl | simp [Token.comparison?] at h

theorem Derives.opens {us : List Token} {p : Phrase} (h : Derives us p) :
    ∀ {l e}, p = .level l e → ∃ t vs, us = t :: vs ∧ t.opens ≤ l.rank := by
  induction h with
  | operands hlk _ _ ih _ =>
    rintro _ _ ⟨⟩
    obtain ⟨t, vs, rfl, ht⟩ := ih rfl
    exact ⟨t, _, rfl, by have := hlk.rank_lt; omega⟩
  | compare _ _ ih _ | raised _ _ ih _ | primary _ _ ih _ =>
    rintro _ _ ⟨⟩
    obtain ⟨t, vs, rfl, ht⟩ := ih rfl
    exact ⟨t, _, rfl, by simp only [Level.rank] at *; omega⟩
  | comparison _ ih | sum _ ih | power _ ih | suffixed _ ih =>
    rintro _ _ ⟨⟩
    obtain ⟨t, vs, rfl, ht⟩ := ih rfl
    exact ⟨t, vs, rfl, by simp only [Level.rank] at *; omega⟩
  | applied ht =>
    rintro _ _ ⟨⟩
    exact ⟨_, _, rfl, Nat.le_of_eq (opens_applied ht)⟩
  | int | float | str | word | name | call | group | list =>
    rintro _ _ ⟨⟩
    exact ⟨_, _, rfl, Nat.le_refl _⟩
  | joinedEnd | join | linksEnd | link | suffixesEnd | member | index | noItems | lastItem | item =>
    rintro _ _ ⟨⟩

theorem Derives.joined_stops {us rest : List Token} {l k : Level} {first e : Expr}
    (h : Derives us (.joined l first e)) (hlk : l.Joins k) (hr : Stops l rest) :
    Stops k (us ++ rest) := by
  have hlt := hlk.rank_lt
  cases h with
  | joinedEnd => exact hr.mono (Nat.le_of_lt hlt)
  | join _ ht => exact stops_cons (by rwa [continues_of_operator ht])

theorem Derives.links_stop {us rest : List Token} {links : List (Comparison × Expr)}
    (h : Derives us (.links links)) (hr : Stops .comparison rest) : Stops .sum (us ++ rest) := by
  cases h with
  | linksEnd => exact hr.mono (by decide)
  | link ht => exact stops_cons (by rw [continues_of_comparison ht]; decide)

theorem Derives.suffixes_stop {us rest : List Token} {base e : Expr}
    (h : Derives us (.suffixes base e)) (hr : Stops .suffixed rest) :
    Stops .primary (us ++ rest) := by
  cases h with
  | suffixesEnd => exact hr.mono (by decide)
  | member => exact stops_cons (by decide)
  | index => exact stops_cons (by decide)

/-- The result is this one, or the nesting is too deep for the room and takes more tokens. -/
def Gives {α : Type} (room size : Nat) (x : Except GrammarError α) (a : α) : Prop :=
  x = .ok a ∨ x = .error .nesting ∧ room < size

section

variable {α β : Type} {x : Except GrammarError α} {f : α → Except GrammarError β} {a : α} {b : β}
  {room size : Nat}

theorem gives_ok (a : α) : Gives room size (.ok a) a :=
  .inl rfl

theorem gives_nesting (h : 0 < size) (a : α) : Gives 0 size (.error .nesting) a :=
  .inr ⟨rfl, h⟩

theorem Gives.deeper (h : Gives room (size - 1) x a) (hs : 0 < size) :
    Gives (room + 1) size x a := by
  rcases h with h | ⟨h, hlt⟩
  · exact .inl h
  · exact .inr ⟨h, by omega⟩

theorem Gives.bind (h : Gives room size x a) (hf : Gives room size (f a) b) :
    Gives room size (x >>= f) b := by
  rcases h with rfl | ⟨rfl, hlt⟩
  · exact hf
  · exact .inr ⟨rfl, hlt⟩

end

/--
The reader finds the phrase at the front of the tokens, when what comes after cannot belong to it.
A room of as many levels as it has tokens suffices.
-/
def Phrase.Read (us : List Token) : Phrase → Prop
  | level l e => ∀ room size rest, us.length ≤ size → Stops l rest →
      Gives room size (readLevel room l (us ++ rest)) (e, rest)
  | joined l first e => ∀ room size rest, us.length ≤ size → Stops l rest →
      Gives room size (readJoined room l first (us ++ rest)) (e, rest)
  | links ls => ∀ room size bound rest, us.length ≤ size → us.length ≤ bound.length →
      Stops .comparison rest →
      Gives room size (readLinks (fun ts => readLevel room .sum ts) bound (us ++ rest)) (ls, rest)
  | suffixes base e => ∀ room size rest, us.length ≤ size → Stops .suffixed rest →
      Gives room size (readSuffixes room base (us ++ rest)) (e, rest)
  -- the bound has a token for each item and one more for the bracket
  | items es => ∀ room size closing bound t rest, us.length < size → closing t = true →
      (∀ u, closing u = true → u = .closeParen ∨ u = .closeBracket) → us.length < bound.length →
      Gives room size (readItems (fun ts => readLevel room .whole ts) closing bound
        (us ++ t :: rest)) (es, rest)

theorem readLevel_whole {us : List Token} {e : Expr} (h : (Phrase.level .or e).Read us)
    (room : Nat) {size : Nat} {rest : List Token} (hs : us.length < size) (hr : Stops .or rest) :
    Gives room size (readLevel room .whole (us ++ rest)) (e, rest) := by
  rw [readLevel.eq_def]
  cases room with
  | zero => exact gives_nesting (by omega) _
  | succ room => exact (h room (size - 1) rest (by omega) hr).deeper (by omega)

theorem readJoined_end {l : Level} (room : Nat) (e : Expr) {ts : List Token} (h : Stops l ts) :
    readJoined room l e ts = .ok (e, ts) := by
  cases ts with
  | nil => rw [readJoined]
  | cons t ts =>
    have hj : t.joining? l = none := by
      cases hj : t.joining? l with
      | none => rfl
      | some f =>
        have := continues_of_operator (joining?_eq_some.mp hj)
        have := h t rfl
        omega
    rw [readJoined]
    simp only [hj]

theorem join_read {us vs : List Token} {l k : Level} {t : Token} {f : Expr → Expr → Expr}
    {left right e : Expr} (hlk : l.Joins k) (ht : (t, f) ∈ l.operators)
    (hvs : Derives vs (.joined l (f left right) e)) (hr : (Phrase.level k right).Read us)
    (hj : (Phrase.joined l (f left right) e).Read vs) :
    (Phrase.joined l left e).Read (t :: us ++ vs) := by
  intro room size rest hs hrest
  simp only [List.length_append, List.length_cons] at hs
  rw [List.cons_append, List.cons_append, List.append_assoc, readJoined]
  simp only [joining?_eq_some.mpr ht]
  cases room with
  | zero => exact gives_nesting (by omega) _
  | succ room =>
    rw [hlk.operand_eq]
    have hright := hr room (size - 1) _ (by omega) (hvs.joined_stops hlk hrest)
    have hrow := hj room (size - 1) rest (by omega) hrest
    exact (hright.bind hrow).deeper (by omega)

theorem readLinks_end {operand : List Token → Except GrammarError (Expr × List Token)}
    (bound : List Token) {ts : List Token} (h : Stops .comparison ts) :
    readLinks operand bound ts = .ok ([], ts) := by
  cases bound with
  | nil => cases ts <;> rfl
  | cons _ bound =>
    cases ts with
    | nil => rfl
    | cons t ts =>
      have hc : t.comparison? = none := by
        cases hc : t.comparison? with
        | none => rfl
        | some op =>
          have := continues_of_comparison (comparison?_eq_some.mp hc)
          have := h t rfl
          omega
      rw [readLinks]
      simp only [hc]

theorem link_read {us vs : List Token} {t : Token} {op : Comparison} {e : Expr}
    {links : List (Comparison × Expr)} (ht : (t, op) ∈ comparisonTokens)
    (hvs : Derives vs (.links links)) (he : (Phrase.level .sum e).Read us)
    (hl : (Phrase.links links).Read vs) :
    (Phrase.links ((op, e) :: links)).Read (t :: us ++ vs) := by
  intro room size bound rest hs hb hrest
  simp only [List.length_append, List.length_cons] at hs hb
  cases bound with
  | nil => simp at hb
  | cons _ bound =>
    rw [List.length_cons] at hb
    rw [List.cons_append, List.cons_append, List.append_assoc, readLinks]
    simp only [comparison?_eq_some.mpr ht]
    refine (he room size _ (by omega) (hvs.links_stop hrest)).bind ?_
    exact (hl room size bound rest (by omega) (by omega) hrest).bind (gives_ok _)

theorem readSuffixes_end (room : Nat) (e : Expr) {ts : List Token} (h : Stops .suffixed ts) :
    readSuffixes room e ts = .ok (e, ts) := by
  rw [readSuffixes.eq_def]
  split
  next => exact absurd (h .dot rfl) (by decide)
  next => exact absurd (h .openBracket rfl) (by decide)
  next => rfl

theorem member_read {us : List Token} {base e : Expr} {s : String}
    (h : (Phrase.suffixes (.member base s) e).Read us) :
    (Phrase.suffixes base e).Read (.dot :: .name s :: us) := by
  intro room size rest hs hrest
  simp only [List.length_cons] at hs
  rw [readSuffixes.eq_def]
  cases room with
  | zero => exact gives_nesting (by omega) _
  | succ room => exact (h room (size - 1) rest (by omega) hrest).deeper (by omega)

theorem index_read {us vs : List Token} {base i e : Expr} (hi : (Phrase.level .or i).Read us)
    (h : (Phrase.suffixes (.index base i) e).Read vs) :
    (Phrase.suffixes base e).Read (.openBracket :: us ++ .closeBracket :: vs) := by
  intro room size rest hs hrest
  simp only [List.length_append, List.length_cons] at hs
  rw [List.append_assoc, List.cons_append, readSuffixes.eq_def]
  cases room with
  | zero => exact gives_nesting (by omega) _
  | succ room =>
    refine Gives.deeper ?_ (by omega)
    refine (readLevel_whole hi room (by omega) (stops_cons (by decide))).bind ?_
    exact h room (size - 1) rest (by omega) hrest

theorem Derives.not_closing {us : List Token} {e : Expr} {closing : Token → Bool}
    (h : Derives us (.level .or e))
    (hc : ∀ u, closing u = true → u = .closeParen ∨ u = .closeBracket) :
    ∃ u vs, us = u :: vs ∧ closing u = false := by
  obtain ⟨u, vs, rfl, hu⟩ := h.opens rfl
  refine ⟨u, vs, rfl, Bool.eq_false_iff.mpr fun hcu => ?_⟩
  rcases hc u hcu with rfl | rfl <;> revert hu <;> decide

theorem readItems_item {us ts bound : List Token} {e : Expr} {closing : Token → Bool}
    (h : Derives us (.level .or e))
    (hc : ∀ u, closing u = true → u = .closeParen ∨ u = .closeBracket) (b : Token)
    (item : List Token → Except GrammarError (Expr × List Token)) :
    readItems item closing (b :: bound) (us ++ ts) =
      readItems.more item closing bound (item (us ++ ts)) := by
  obtain ⟨u, vs, rfl, hu⟩ := h.not_closing hc
  rw [List.cons_append, readItems]
  simp [hu]

theorem stops_closing {t : Token} {ts : List Token} (h : t = .closeParen ∨ t = .closeBracket) :
    Stops .or (t :: ts) := by
  rcases h with rfl | rfl <;> exact stops_cons (by decide)

theorem noItems_read : (Phrase.items []).Read [] := by
  intro room size closing bound t rest _ ht _ hb
  cases bound with
  | nil => simp at hb
  | cons b bound =>
    rw [List.nil_append, readItems]
    simp only [ht]
    exact gives_ok _

theorem lastItem_read {us : List Token} {e : Expr} (hus : Derives us (.level .or e))
    (h : (Phrase.level .or e).Read us) : (Phrase.items [e]).Read us := by
  intro room size closing bound t rest hs ht hc hb
  cases bound with
  | nil => simp at hb
  | cons b bound =>
    rw [readItems_item hus hc, readItems.more]
    refine (readLevel_whole h room hs (stops_closing (hc t ht))).bind ?_
    simp only [ht]
    exact gives_ok _

theorem item_read {us vs : List Token} {e : Expr} {es : List Expr}
    (hus : Derives us (.level .or e)) (h : (Phrase.level .or e).Read us)
    (hes : (Phrase.items es).Read vs) : (Phrase.items (e :: es)).Read (us ++ .comma :: vs) := by
  intro room size closing bound t rest hs ht hc hb
  cases bound with
  | nil => simp at hb
  | cons b bound =>
    simp only [List.length_append, List.length_cons] at hs hb
    have hcomma : closing .comma = false :=
      Bool.eq_false_iff.mpr fun h => by rcases hc _ h with h | h <;> cases h
    rw [List.append_assoc, readItems_item hus hc, readItems.more]
    refine (readLevel_whole h room (by omega) (stops_cons (by decide))).bind ?_
    simp only [hcomma]
    exact (hes room size closing bound t rest (by omega) ht hc (by omega)).bind (gives_ok _)

theorem word_read {s : String} {v : Value} (h : (s, v) ∈ wordValues) :
    (Phrase.level .primary (.literal v)).Read [.name s] := by
  intro room size rest _ _
  rw [readLevel.eq_def]
  simp only [wordValues, List.mem_cons, Prod.mk.injEq, List.not_mem_nil, or_false] at h
  obtain ⟨rfl, rfl⟩ | ⟨rfl, rfl⟩ | ⟨rfl, rfl⟩ | ⟨rfl, rfl⟩ | ⟨rfl, rfl⟩ := h <;> exact gives_ok _

theorem name_read {s : String} (hs : s ∉ wordValues.map Prod.fst) :
    (Phrase.level .primary (.name s)).Read [.name s] := by
  intro room size rest _ hrest
  simp only [wordValues, List.map_cons, List.map_nil, List.mem_cons, List.not_mem_nil,
    not_or, not_false_eq_true, and_true] at hs
  rw [List.singleton_append, readLevel.eq_def]
  simp only [hs, or_self, if_false]
  split
  next => exact absurd (hrest .openParen rfl) (by decide)
  next => exact gives_ok _

theorem call_read {us : List Token} {s : String} {es : List Expr}
    (hs : s ∉ wordValues.map Prod.fst) (h : (Phrase.items es).Read us) :
    (Phrase.level .primary (.call s es)).Read (.name s :: .openParen :: us ++ [.closeParen]) := by
  intro room size rest hsize _
  simp only [List.length_append, List.length_cons] at hsize
  simp only [wordValues, List.map_cons, List.map_nil, List.mem_cons, List.not_mem_nil,
    not_or, not_false_eq_true, and_true] at hs
  rw [List.append_assoc, List.cons_append, List.cons_append, readLevel.eq_def]
  simp only [hs, or_self, if_false]
  refine (h room size _ _ .closeParen rest (by omega) rfl
    (fun u hu => .inl (isCloseParen_iff.mp hu)) ?_).bind (gives_ok _)
  simp only [List.length_append, List.length_cons]
  omega

theorem group_read {us : List Token} {e : Expr} (h : (Phrase.level .or e).Read us) :
    (Phrase.level .primary e).Read (.openParen :: us ++ [.closeParen]) := by
  intro room size rest hs _
  simp only [List.length_append, List.length_cons] at hs
  rw [List.append_assoc, List.cons_append, readLevel.eq_def]
  refine (readLevel_whole h room (by omega) (stops_cons (by decide))).bind ?_
  exact gives_ok _

theorem list_read {us : List Token} {es : List Expr} (h : (Phrase.items es).Read us) :
    (Phrase.level .primary (.list es)).Read (.openBracket :: us ++ [.closeBracket]) := by
  intro room size rest hs _
  simp only [List.length_append, List.length_cons] at hs
  rw [List.append_assoc, List.cons_append, readLevel.eq_def]
  refine (h room size _ _ .closeBracket rest (by omega) rfl
    (fun u hu => .inr (isCloseBracket_iff.mp hu)) ?_).bind (gives_ok _)
  simp only [List.length_append, List.length_cons]
  omega

theorem operands_read {us vs : List Token} {l k : Level} {first e : Expr} (hlk : l.Joins k)
    (hvs : Derives vs (.joined l first e)) (hf : (Phrase.level k first).Read us)
    (hj : (Phrase.joined l first e).Read vs) : (Phrase.level l e).Read (us ++ vs) := by
  intro room size rest hs hrest
  rw [List.length_append] at hs
  rw [List.append_assoc, readLevel_operands hlk]
  exact (hf room size _ (by omega) (hvs.joined_stops hlk hrest)).bind
    (hj room size rest (by omega) hrest)

theorem applied_read {us : List Token} {l : Level} {t : Token} {op : UnaryOperator} {e : Expr}
    (ht : (t, op) ∈ l.prefixes) (h : (Phrase.level l e).Read us) :
    (Phrase.level l (.unary op e)).Read (t :: us) := by
  intro room size rest hs hrest
  rw [List.length_cons] at hs
  rw [List.cons_append, readLevel_applied ht]
  cases room with
  | zero => exact gives_nesting (by omega) _
  | succ room =>
    have hoperand := (h room (size - 1) rest (by omega) hrest).deeper (by omega)
    exact hoperand.bind (gives_ok _)

theorem comparison_read {us : List Token} {e : Expr} (hus : Derives us (.level .comparison e))
    (h : (Phrase.level .comparison e).Read us) : (Phrase.level .not e).Read us := by
  intro room size rest hs hrest
  -- a comparison begins with an operand, which takes the reader past its first branch
  obtain ⟨t, vs, rfl, ht⟩ := hus.opens rfl
  rw [List.cons_append, readLevel.eq_def]
  simp only
  split
  next heq =>
    cases heq
    exact absurd ht (by decide)
  next => exact h room size rest hs (hrest.mono (by decide))

theorem compare_read {us vs : List Token} {first : Expr} {links : List (Comparison × Expr)}
    (hvs : Derives vs (.links links)) (hf : (Phrase.level .sum first).Read us)
    (hl : (Phrase.links links).Read vs) :
    (Phrase.level .comparison (if links.isEmpty then first else .compare first links)).Read
      (us ++ vs) := by
  intro room size rest hs hrest
  rw [List.length_append] at hs
  rw [List.append_assoc, readLevel.eq_def]
  refine (hf room size _ (by omega) (hvs.links_stop hrest)).bind ?_
  exact (hl room size _ rest (by omega) (by simp) hrest).bind (gives_ok _)

theorem power_read {us : List Token} {e : Expr} (hus : Derives us (.level .power e))
    (h : (Phrase.level .power e).Read us) : (Phrase.level .unary e).Read us := by
  intro room size rest hs hrest
  obtain ⟨t, vs, rfl, ht⟩ := hus.opens rfl
  rw [List.cons_append, readLevel.eq_def]
  simp only
  split
  next heq =>
    cases heq
    exact absurd ht (by decide)
  next heq =>
    cases heq
    exact absurd ht (by decide)
  next => exact h room size rest hs (hrest.mono (by decide))

theorem raised_read {us vs : List Token} {base e : Expr}
    (hb : (Phrase.level .suffixed base).Read us) (h : (Phrase.level .unary e).Read vs) :
    (Phrase.level .power (.binary .pow base e)).Read (us ++ .starStar :: vs) := by
  intro room size rest hs hrest
  rw [List.length_append, List.length_cons] at hs
  rw [List.append_assoc, readLevel.eq_def]
  refine (hb room size _ (by omega) (stops_cons (by decide))).bind ?_
  cases room with
  | zero => exact gives_nesting (by omega) _
  | succ room =>
    have hexponent := (h room (size - 1) rest (by omega) hrest.unary).deeper (by omega)
    exact hexponent.bind (gives_ok _)

theorem suffixed_read {us : List Token} {e : Expr} (h : (Phrase.level .suffixed e).Read us) :
    (Phrase.level .power e).Read us := by
  intro room size rest hs hrest
  rw [readLevel.eq_def]
  refine (h room size rest hs (hrest.mono (by decide))).bind ?_
  simp only
  split
  next => exact absurd (hrest .starStar rfl) (by decide)
  next => exact gives_ok _

theorem primary_read {us vs : List Token} {base e : Expr} (hvs : Derives vs (.suffixes base e))
    (hb : (Phrase.level .primary base).Read us) (hs : (Phrase.suffixes base e).Read vs) :
    (Phrase.level .suffixed e).Read (us ++ vs) := by
  intro room size rest hsize hrest
  rw [List.length_append] at hsize
  rw [List.append_assoc, readLevel.eq_def]
  exact (hb room size _ (by omega) (hvs.suffixes_stop hrest)).bind
    (hs room size rest (by omega) hrest)

/-- One case for each rule of the grammar. -/
theorem Derives.read {us : List Token} {p : Phrase} (h : Derives us p) : p.Read us := by
  induction h with
  | operands hlk _ hvs hf hj => exact operands_read hlk hvs hf hj
  | joinedEnd => exact fun room _ rest _ hrest => .inl (readJoined_end room _ hrest)
  | join hlk ht _ hvs hr hj => exact join_read hlk ht hvs hr hj
  | applied ht _ ih => exact applied_read ht ih
  | comparison hus ih => exact comparison_read hus ih
  | compare _ hvs hf hl => exact compare_read hvs hf hl
  | sum _ ih =>
    have h := compare_read .linksEnd ih fun _ _ bound _ _ _ hrest =>
      .inl (readLinks_end bound hrest)
    rwa [List.append_nil] at h
  | linksEnd => exact fun _ _ bound _ _ _ hrest => .inl (readLinks_end bound hrest)
  | link ht _ hvs he hl => exact link_read ht hvs he hl
  | power hus ih => exact power_read hus ih
  | raised _ _ hb ih => exact raised_read hb ih
  | suffixed _ ih => exact suffixed_read ih
  | primary _ hvs hb hs => exact primary_read hvs hb hs
  | suffixesEnd => exact fun room _ rest _ hrest => .inl (readSuffixes_end room _ hrest)
  | member _ ih => exact member_read ih
  | index _ _ hi ih => exact index_read hi ih
  | int | float | str =>
    intro room size rest _ _
    rw [readLevel.eq_def]
    exact gives_ok _
  | word hv => exact word_read hv
  | name hs => exact name_read hs
  | call hs _ ih => exact call_read hs ih
  | group _ ih => exact group_read ih
  | list _ ih => exact list_read ih
  | noItems => exact noItems_read
  | lastItem hus ih => exact lastItem_read hus ih
  | item hus _ ih hes => exact item_read hus ih hes

theorem ofTokens_of_derives {ts : List Token} {e : Expr} (h : Derives ts (.level .or e)) :
    Gives maxNesting (ts.length + 1) (Expr.ofTokens ts) e := by
  have hr := readLevel_whole h.read maxNesting (Nat.lt_succ_self _) (stops_nil .or)
  rw [List.append_nil] at hr
  exact hr.bind (gives_ok _)

/-- What cannot go on with an expression must not come after it. -/
theorem ofTokens_trailing {us rest : List Token} {t : Token} {e : Expr}
    (h : Derives us (.level .or e)) (hlen : us.length < maxNesting)
    (ht : Level.or.rank < t.continues) :
    Expr.ofTokens (us ++ t :: rest) = .error (.trailing t.shown) := by
  have hstops : Stops .or (t :: rest) := stops_cons ht
  have hr := (readLevel_whole h.read maxNesting (Nat.lt_succ_self _) hstops).resolve_right
    (by omega)
  rw [Expr.ofTokens, hr]
  rfl

theorem read_of_derives {source : String} {ts : List Token} {e : Expr}
    (ht : tokens source.toList = .ok ts) (h : Derives ts (.level .or e)) :
    Gives maxNesting (ts.length + 1) (Expr.read source) e := by
  rw [Expr.read, ht]
  exact ofTokens_of_derives h

theorem derives_of_read {source : String} {e : Expr} (h : Expr.read source = .ok e) :
    ∃ ts, tokens source.toList = .ok ts ∧ Derives ts (.level .or e) := by
  rw [Expr.read] at h
  obtain ⟨ts, ht, ho⟩ := bind_eq_ok h
  exact ⟨ts, ht, ofTokens_sound ho⟩

/--
The grammar is what is read: what is read from a text is derived from its tokens, and what is
derived from them is read, if it is not nested too deep. It cannot be in fewer tokens than levels.
-/
theorem read_exactly_the_grammar (source : String) (e : Expr) :
    (Expr.read source = .ok e →
      ∃ ts, tokens source.toList = .ok ts ∧ Derives ts (.level .or e)) ∧
    (∀ ts, tokens source.toList = .ok ts → Derives ts (.level .or e) →
      Expr.read source = .ok e ∨
        Expr.read source = .error .nesting ∧ maxNesting ≤ ts.length) :=
  ⟨derives_of_read, fun _ ht h => (read_of_derives ht h).imp_right (.imp_right Nat.le_of_lt_succ)⟩

set_option maxRecDepth 4000 in
theorem read_exactly_the_grammar_negatedPower :
    let tree := Expr.compare (.unary .neg (.binary .pow (.name "x") (.literal (.int 2))))
      [(.lt, .call "f" [.name "a"])]
    Expr.read "-x ** 2 < f(a,)" = .ok tree ∧
      Derives [.minus, .name "x", .starStar, .int 2, .lt, .name "f", .openParen, .name "a", .comma,
        .closeParen] (.level .or tree) := by
  intro tree
  have hread : Expr.read "-x ** 2 < f(a,)" = .ok tree := by cbv
  have htokens : tokens "-x ** 2 < f(a,)".toList = .ok [.minus, .name "x", .starStar, .int 2, .lt,
      .name "f", .openParen, .name "a", .comma, .closeParen] := by cbv
  obtain ⟨ts, ht, hd⟩ := (read_exactly_the_grammar _ _).1 hread
  cases htokens.symm.trans ht
  exact ⟨((read_exactly_the_grammar _ _).2 _ htokens hd).resolve_right (by simp [hread]), hd⟩

end TrialLoop
