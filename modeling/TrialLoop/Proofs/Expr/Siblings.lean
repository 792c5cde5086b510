import TrialLoop.Proofs.Expr.DepthTracking

namespace TrialLoop

/-- The counter is as it was, and tokens were taken, but no mark of the end. -/
def Cursor.Advances (c c' : Cursor) : Prop :=
  c'.depth = c.depth ∧ ∃ us : List Token, us ≠ [] ∧ c.rest = us.map some ++ c'.rest

theorem Cursor.Advances.length_lt {c c' : Cursor} (h : c.Advances c') :
    c'.rest.length < c.rest.length := by
  obtain ⟨-, us, hne, hrest⟩ := h
  have := List.length_pos_iff.mpr hne
  rw [hrest, List.length_append, List.length_map]
  omega

namespace Counting

/--
A run comes to an end and is never stuck. What is said of a result and its cursor holds; so does
what is said of a failure for the nesting. The counter is beyond the limit exactly after such a
failure.
-/
inductive Ends {α : Type} (Result : α → Cursor → Prop) (Nesting : Prop) :
    Option (Except GrammarError α × Cursor) → Prop
  | ok {a c} : Result a c → Ends Result Nesting (some (.ok a, c))
  | nesting {c} : c.depth = maxNesting + 1 → Nesting →
      Ends Result Nesting (some (.error .nesting, c))
  | refused {e c} : e ≠ .nesting → c.depth ≤ maxNesting →
      Ends Result Nesting (some (.error e, c))

def Balanced {α : Type} (c : Cursor) (run : Option (Except GrammarError α × Cursor)) : Prop :=
  Ends (fun _ c' => c.Advances c') True run

/-- What a run gives, with the tokens that follow, up to the first mark of the end. -/
def outcome {α : Type} : Except GrammarError α × Cursor → Except GrammarError (α × List Token)
  | (r, c) => r.map (·, ahead c.rest)

/-- A level fails for the nesting. -/
def Refused (l : Level) (c : Cursor) : Prop :=
  ∃ c', read l c = some (.error .nesting, c')

/--
Expressions of a level that are read one after the other with single tokens between them. Each such
token takes its cost from the depth that is left; the expressions take nothing from it.
-/
inductive Siblings (k : Level) (between : Token → Bool) (cost : Nat) :
    Cursor → List Expr → List (Option Token) → Prop
  | last {c e after} : read k c = some (.ok e, ⟨after, c.depth⟩) →
      Siblings k between cost c [e] after
  | next {c e t mid es after} : read k c = some (.ok e, ⟨some t :: mid, c.depth⟩) → between t →
      Siblings k between cost ⟨mid, c.depth + cost⟩ es after →
      Siblings k between cost c (e :: es) after

/-- One of such expressions fails for the nesting, or a token between them is beyond the limit. -/
inductive Exhausted (k : Level) (between : Token → Bool) (cost : Nat) : Cursor → Prop
  | sibling {c} : Refused k c → Exhausted k between cost c
  | token {c e t mid} : read k c = some (.ok e, ⟨some t :: mid, c.depth⟩) → between t →
      maxNesting < c.depth + cost → Exhausted k between cost c
  | next {c e t mid} : read k c = some (.ok e, ⟨some t :: mid, c.depth⟩) → between t →
      Exhausted k between cost ⟨mid, c.depth + cost⟩ → Exhausted k between cost c

/-- The commas between the items of a list or of a call cost nothing. -/
def ReadsItems {α : Type} (c : Cursor) (build : List Expr → α)
    (run : Option (Except GrammarError α × Cursor)) : Prop :=
  Ends
    (fun a _ => ∃ es, a = build es ∧
      (es = [] ∨ ∃ after, Siblings .whole Token.isComma 0 c es after))
    (Exhausted .whole Token.isComma 0 c) run

/-- The operators of a comparison cost nothing. -/
def ReadsLinks {α : Type} (c : Cursor) (build : Expr → List (Comparison × Expr) → α)
    (run : Option (Except GrammarError α × Cursor)) : Prop :=
  Ends
    (fun a c' => ∃ first ls, a = build first ls ∧
      Siblings .sum (·.comparison?.isSome) 0 c (first :: ls.map Prod.snd) c'.rest)
    (Exhausted .sum (·.comparison?.isSome) 0 c) run

/-- Each operator that joins operands from left to right costs a level, and there is no refund. -/
def ReadsChain (l k : Level) (c : Cursor) (run : Option (Except GrammarError Expr × Cursor)) :
    Prop :=
  Ends
    (fun e c' => ∃ first, ∃ steps : List ((Expr → Expr → Expr) × Expr),
      e = steps.foldl (fun left s => s.1 left s.2) first ∧
      Siblings k (fun t => (t.joining? l).isSome) 1 c (first :: steps.map Prod.snd) c'.rest)
    (Exhausted k (fun t => (t.joining? l).isSome) 1 c) run

/-- The operator before an exponent costs a level. -/
def ReadsPower (c : Cursor) (run : Option (Except GrammarError Expr × Cursor)) : Prop :=
  Ends
    (fun e c' => read .suffixed c = some (.ok e, c') ∨
      ∃ base power mid, e = .binary .pow base power ∧
        read .suffixed c = some (.ok base, ⟨some .starStar :: mid, c.depth⟩) ∧
        read .unary ⟨mid, c.depth + 1⟩ = some (.ok power, ⟨c'.rest, c.depth + 1⟩))
    (Refused .suffixed c ∨
      ∃ base mid, read .suffixed c = some (.ok base, ⟨some .starStar :: mid, c.depth⟩) ∧
        (maxNesting < c.depth + 1 ∨ Refused .unary ⟨mid, c.depth + 1⟩))
    run

section Rules

variable {α β : Type} {P : α → Cursor → Prop} {Q : β → Cursor → Prop} {N M : Prop}
  {m : Counting α} {c : Cursor} {rest : List (Option Token)} {d : Nat}

theorem Ends.mono {R : α → Cursor → Prop} {o : Option (Except GrammarError α × Cursor)}
    (h : Ends P N o) (hR : ∀ a c', P a c' → R a c') (hM : N → M) : Ends R M o := by
  cases h with
  | ok hP => exact .ok (hR _ _ hP)
  | nesting hd h => exact .nesting hd (hM h)
  | refused he hd => exact .refused he hd

theorem Ends.bind {g : α → Counting β} (h : Ends P N (m c)) (hM : N → M)
    (hg : ∀ a c', P a c' → Ends Q M (g a c')) : Ends Q M ((m >>= g) c) := by
  show Ends Q M ((m c).bind _)
  generalize m c = o at h
  cases h with
  | ok hP => exact hg _ _ hP
  | nesting hd h => exact .nesting hd (hM h)
  | refused he hd => exact .refused he hd

theorem Ends.marked (hP : ∀ a c' d, P a c' → P a ⟨c'.rest, d⟩) (h : Ends P N (m c)) :
    Ends P N (Counting.marked m c) := by
  rw [Counting.marked, depth_bind]
  exact h.bind id fun a c' ha => .ok (hP a c' c.depth ha)

theorem Ends.nested {R : α → List (Option Token) → Prop} (hd : d + 1 ≤ maxNesting)
    (h : Ends (fun a c' => c'.depth = d + 1 ∧ R a c'.rest) N (m ⟨rest, d + 1⟩)) :
    Ends (fun a c' => R a c'.rest) N (Counting.nested m ⟨rest, d⟩) := by
  rw [Counting.nested, descend_bind hd]
  refine h.bind id fun a c' hR => ?_
  obtain ⟨after, d'⟩ := c'
  obtain ⟨rfl, hR⟩ := hR
  exact .ok hR

theorem Ends.nested_beyond (hd : d = maxNesting) (hM : M) (g : α → Counting β) :
    Ends Q M ((Counting.nested m >>= g) ⟨rest, d⟩) := by
  rw [bind_error (Counting.nested_beyond hd m)]
  exact .nesting (congrArg (· + 1) hd) hM

theorem Ends.require {wanted : Token → Bool} {what : String} {g : Unit → Counting β}
    (hd : d ≤ maxNesting)
    (h : ∀ t after, rest = some t :: after → wanted t → Ends Q M (g () ⟨after, d⟩)) :
    Ends Q M ((Counting.require wanted what >>= g) ⟨rest, d⟩) := by
  rcases rest with _ | ⟨_ | t, after⟩
  · exact .refused (by simp) hd
  · exact .refused (by simp) hd
  by_cases ht : wanted t
  · rw [bind_ok (require_run what ht)]
    exact h t after rfl ht
  · rw [bind_error (require_refused (c := ⟨some t :: after, d⟩) what ht)]
    exact .refused (by simp) hd

theorem Tracks.outcome_eq {R : List Token → Nat → Prop} {x : Except GrammarError (α × List Token)}
    {o : Option (Except GrammarError α × Cursor)} (h : Tracks R rest x o) :
    o.map outcome = some x := by
  cases h <;> rfl

theorem Tracks.ends {x : Except GrammarError (α × List Token)}
    {o : Option (Except GrammarError α × Cursor)} (h : Tracks (Kept c.depth) c.rest x o) :
    Ends (fun a c' => o = some (.ok a, c') ∧ c.Advances c') (∃ c', o = some (.error .nesting, c'))
      o := by
  cases h with
  | ok hrest hkept => exact .ok ⟨rfl, hkept.depth, _, hkept.taken, hrest⟩
  | nesting hd => exact .nesting hd ⟨_, rfl⟩
  | refused he hd => exact .refused he hd

end Rules

section Runs

variable {l k : Level} {c : Cursor} {room : Nat}

theorem read_eq (l : Level) (hroom : c.depth + room = maxNesting) : read l c = level room l c := by
  rw [read, depth_bind, show maxNesting - c.depth = room by omega]

theorem read_tracks (l : Level) (hd : c.depth ≤ maxNesting) :
    Tracks (Kept c.depth) c.rest (readLevel (maxNesting - c.depth) l (ahead c.rest)) (read l c) :=
  level_follows _ l c.rest c.depth (Nat.add_sub_cancel' hd)

theorem read_outcome (l : Level) (hd : c.depth ≤ maxNesting) :
    (read l c).map outcome = some (readLevel (maxNesting - c.depth) l (ahead c.rest)) :=
  (read_tracks l hd).outcome_eq

theorem read_balanced (l : Level) (hd : c.depth ≤ maxNesting) : Balanced c (read l c) :=
  (read_tracks l hd).ends.mono (fun _ _ h => h.2) fun _ => trivial

theorem readList_balanced (closing : Token → Bool) (hd : c.depth ≤ maxNesting) :
    Balanced c (readList closing c) := by
  have htracks := itemList_follows (level_follows (maxNesting - c.depth) .whole) closing
    (.comma :: ahead c.rest) c.rest c.depth (Nat.lt_succ_self _) (Nat.add_sub_cancel' hd)
  rw [readList, depth_bind]
  exact htracks.ends.mono (fun _ _ h => h.2) fun _ => trivial

theorem level_ends (l : Level) (hroom : c.depth + room = maxNesting) :
    Ends (fun e c' => read l c = some (.ok e, c') ∧ c.Advances c') (Refused l c)
      (level room l c) := by
  rw [← read_eq l hroom]
  exact (read_tracks l (by omega)).ends

/-- The rest of a run after an expression of a level. -/
theorem level_bind {α : Type} {l : Level} {Q : α → Cursor → Prop} {M : Prop} {g : Expr → Counting α}
    (hroom : c.depth + room = maxNesting) (hM : Refused l c → M)
    (hg : ∀ e after, read l c = some (.ok e, ⟨after, c.depth⟩) → after.length < c.rest.length →
      Ends Q M (g e ⟨after, c.depth⟩)) :
    Ends Q M ((level room l >>= g) c) := by
  refine (level_ends l hroom).bind hM fun e c' he => ?_
  obtain ⟨he, hadv⟩ := he
  have hlt := hadv.length_lt
  obtain ⟨after, d⟩ := c'
  obtain rfl : d = c.depth := hadv.1
  exact hg e after he hlt

theorem joined_siblings (hlk : l.Joins k) {first : Expr} {mid : List (Option Token)}
    (h : read k c = some (.ok first, ⟨mid, c.depth⟩)) (hroom : c.depth + room = maxNesting)
    (left : Expr) :
    Ends
      (fun e c' => ∃ steps : List ((Expr → Expr → Expr) × Expr),
        e = steps.foldl (fun left s => s.1 left s.2) left ∧
        Siblings k (fun t => (t.joining? l).isSome) 1 c (first :: steps.map Prod.snd) c'.rest)
      (Exhausted k (fun t => (t.joining? l).isSome) 1 c) (joined room l left ⟨mid, c.depth⟩) := by
  induction room using Nat.strongRecOn generalizing c first mid left with
  | ind room ih =>
    rcases mid with _ | ⟨_ | t, mid⟩
    · rw [joined_end left rfl]
      exact .ok ⟨[], rfl, .last h⟩
    · rw [joined_end left rfl]
      exact .ok ⟨[], rfl, .last h⟩
    cases hj : t.joining? l with
    | none =>
      rw [joined_end (c := ⟨some t :: mid, c.depth⟩) left hj]
      exact .ok ⟨[], rfl, .last h⟩
    | some join =>
      have ht : (t.joining? l).isSome := by rw [hj]; rfl
      cases room with
      | zero =>
        have hlimit : c.depth = maxNesting := hroom
        rw [joined_beyond left hj hlimit]
        exact .nesting (congrArg (· + 1) hlimit) (.token h ht (by omega))
      | succ r =>
        have hr : c.depth + 1 + r = maxNesting := by omega
        rw [joined_next left hj (by omega), hlk.operand_eq]
        refine level_bind (c := ⟨mid, c.depth + 1⟩) hr
          (fun hrefused => .next h ht (.sibling hrefused)) fun right after hright _ => ?_
        refine (ih r (Nat.lt_succ_self r) hright hr (join left right)).mono ?_
          (fun hlater => .next h ht hlater)
        rintro e c' ⟨steps, rfl, hsteps⟩
        exact ⟨(join, right) :: steps, rfl, .next h ht hsteps⟩

theorem operands_chain (hlk : l.Joins k) (hd : c.depth ≤ maxNesting) :
    ReadsChain l k c (read l c) := by
  have hroom : c.depth + (maxNesting - c.depth) = maxNesting := Nat.add_sub_cancel' hd
  rw [read_eq l hroom, level_operands hlk, enter_bind hd]
  refine Ends.marked (fun _ _ _ h => h) (level_bind hroom .sibling ?_)
  intro first mid hfirst _
  exact (joined_siblings hlk hfirst hroom first).mono (fun _ _ hsteps => ⟨first, hsteps⟩) id

theorem links_siblings {first : Expr} {mid bound : List (Option Token)}
    (h : read .sum c = some (.ok first, ⟨mid, c.depth⟩)) (hroom : c.depth + room = maxNesting)
    (hbound : mid.length < bound.length) :
    Ends
      (fun ls c' => Siblings .sum (·.comparison?.isSome) 0 c (first :: ls.map Prod.snd) c'.rest)
      (Exhausted .sum (·.comparison?.isSome) 0 c)
      (links (level room .sum) bound ⟨mid, c.depth⟩) := by
  induction bound generalizing c first mid with
  | nil => exact absurd hbound (Nat.not_lt_zero _)
  | cons _ bound ih =>
    rcases mid with _ | ⟨_ | t, mid⟩
    · rw [links_end rfl]
      exact .ok (.last h)
    · rw [links_end rfl]
      exact .ok (.last h)
    cases hop : t.comparison? with
    | none =>
      rw [links_end (c := ⟨some t :: mid, c.depth⟩) hop]
      exact .ok (.last h)
    | some op =>
      have ht : t.comparison?.isSome := by rw [hop]; rfl
      rw [links_next hop]
      refine level_bind (c := ⟨mid, c.depth⟩) hroom
        (fun hrefused => .next h ht (.sibling hrefused)) fun e after he hlt => ?_
      have hafter : after.length < bound.length := by
        simp only [List.length_cons] at hbound hlt
        omega
      exact (ih (c := ⟨mid, c.depth⟩) he hroom hafter).bind (fun hlater => .next h ht hlater)
        fun ls c' hls => .ok (.next h ht hls)

theorem comparison_links (hd : c.depth ≤ maxNesting) :
    ReadsLinks c (fun first ls => if ls.isEmpty then first else .compare first ls)
      (read .comparison c) := by
  have hroom : c.depth + (maxNesting - c.depth) = maxNesting := Nat.add_sub_cancel' hd
  rw [read_eq _ hroom, level.eq_def, enter_bind hd]
  refine level_bind hroom .sibling fun first mid hfirst _ => ?_
  rw [following_bind]
  exact (links_siblings hfirst hroom (Nat.lt_succ_self _)).bind id
    fun ls c' hls => .ok ⟨first, ls, rfl, hls⟩

theorem items_siblings {closing : Token → Bool} {bound : List (Option Token)}
    (hroom : c.depth + room = maxNesting) (hbound : c.rest.length < bound.length) :
    ReadsItems c id (items (level room .whole) closing bound c) := by
  induction bound generalizing c with
  | nil => exact absurd hbound (Nat.not_lt_zero _)
  | cons _ bound ih =>
    rw [items, peek_bind]
    split
    next => exact .ok ⟨_, rfl, .inl rfl⟩
    rw [moreItems]
    refine level_bind hroom .sibling fun e mid he hlt => ?_
    rw [peek_bind]
    split
    next => exact .ok ⟨_, rfl, .inr ⟨mid, .last he⟩⟩
    refine Ends.require (by omega) fun t after hmid ht => ?_
    subst hmid
    have hafter : after.length < bound.length := by
      simp only [List.length_cons] at hbound hlt
      omega
    refine (ih (c := ⟨after, c.depth⟩) hroom hafter).bind
      (fun hlater => .next he ht hlater) ?_
    rintro es c' ⟨_, rfl, rfl | ⟨end', hes⟩⟩
    · exact .ok ⟨_, rfl, .inr ⟨_, .last he⟩⟩
    · exact .ok ⟨_, rfl, .inr ⟨_, .next he ht hes⟩⟩

theorem itemList_siblings {closing : Token → Bool} (hroom : c.depth + room = maxNesting) :
    ReadsItems c id (itemList (level room .whole) closing c) := by
  rw [itemList, enter_bind (by omega), following_bind]
  exact items_siblings hroom (Nat.lt_succ_self _)

theorem list_items {rest : List (Option Token)} {d : Nat} (hd : d ≤ maxNesting) :
    ReadsItems ⟨rest, d⟩ .list (read .primary ⟨some .openBracket :: rest, d⟩) := by
  have hroom : d + (maxNesting - d) = maxNesting := Nat.add_sub_cancel' hd
  rw [read_eq _ hroom, level.eq_def, enter_bind hd]
  refine (itemList_siblings (c := ⟨rest, d⟩) hroom).bind id ?_
  rintro es _ ⟨_, rfl, hes⟩
  exact .ok ⟨es, rfl, hes⟩

theorem call_items {s : String} {rest : List (Option Token)} {d : Nat}
    (hs : s ∉ wordValues.map Prod.fst) (hd : d ≤ maxNesting) :
    ReadsItems ⟨rest, d⟩ (.call s)
      (read .primary ⟨some (.name s) :: some .openParen :: rest, d⟩) := by
  have hroom : d + (maxNesting - d) = maxNesting := Nat.add_sub_cancel' hd
  simp only [wordValues, List.map_cons, List.map_nil, List.mem_cons, List.not_mem_nil, or_false,
    not_or] at hs
  obtain ⟨hTrue, htrue, hFalse, hfalse, hNone⟩ := hs
  rw [read_eq _ hroom, level.eq_def, enter_bind hd]
  show Ends _ _ ((if _ then _ else _ : Counting Expr) ⟨some .openParen :: rest, d⟩)
  rw [if_neg (by simp [hTrue, htrue]), if_neg (by simp [hFalse, hfalse]), if_neg hNone, peek_bind]
  refine (itemList_siblings (c := ⟨rest, d⟩) hroom).bind id ?_
  rintro es _ ⟨_, rfl, hes⟩
  exact .ok ⟨es, rfl, hes⟩

theorem power_operands (hroom : c.depth + room = maxNesting) :
    ReadsPower c (level room .power c) := by
  have hd : c.depth ≤ maxNesting := by omega
  rw [level.eq_def, enter_bind hd]
  refine level_bind hroom .inl fun base mid hbase _ => ?_
  rw [peek_bind]
  rcases mid with _ | ⟨_ | t, mid⟩
  · exact .ok (.inl hbase)
  · exact .ok (.inl hbase)
  cases t with
  | starStar =>
    show Ends _ _ ((Counting.nested _ >>= _) ⟨mid, c.depth⟩)
    cases room with
    | zero =>
      have hlimit : c.depth = maxNesting := hroom
      exact Ends.nested_beyond hlimit (.inr ⟨base, mid, hbase, .inl (by omega)⟩) _
    | succ r =>
      have hr : c.depth + 1 + r = maxNesting := by omega
      refine (Ends.nested (R := fun e after =>
        read .unary ⟨mid, c.depth + 1⟩ = some (.ok e, ⟨after, c.depth + 1⟩)) (by omega)
        ((level_ends (c := ⟨mid, c.depth + 1⟩) .unary hr).mono ?_ id)).bind
        (fun hrefused => .inr ⟨base, mid, hbase, .inr hrefused⟩)
        fun power c' hpower => .ok (.inr ⟨base, power, mid, rfl, hbase, hpower⟩)
      rintro e c' ⟨he, hadv⟩
      obtain ⟨after, d⟩ := c'
      obtain rfl : d = c.depth + 1 := hadv.1
      exact ⟨rfl, he⟩
  | _ => exact .ok (.inl hbase)

end Runs

/--
Each function of the grammar does what the reader does with the levels that are left. Where it gives
a result the counter is as before, so that items and arguments have all the levels that are left, as
have the operands of a comparison; other operands have one less for each operator before them.
-/
theorem depth_counter_balanced {c : Cursor} (hd : c.depth ≤ maxNesting) :
    (∀ l, Balanced c (read l c) ∧
      (read l c).map outcome = some (readLevel (maxNesting - c.depth) l (ahead c.rest))) ∧
    (∀ closing, Balanced c (readList closing c)) ∧
    ReadsItems c .list (read .primary ⟨some .openBracket :: c.rest, c.depth⟩) ∧
    (∀ s, s ∉ wordValues.map Prod.fst → ReadsItems c (.call s)
      (read .primary ⟨some (.name s) :: some .openParen :: c.rest, c.depth⟩)) ∧
    ReadsLinks c (fun first ls => if ls.isEmpty then first else .compare first ls)
      (read .comparison c) ∧
    (∀ l k, l.Joins k → ReadsChain l k c (read l c)) ∧
    ReadsPower c (read .power c) :=
  ⟨fun l => ⟨read_balanced l hd, read_outcome l hd⟩, fun closing => readList_balanced closing hd,
    list_items hd, fun _ hs => call_items hs hd, comparison_links hd,
    fun _ _ hlk => operands_chain hlk hd, power_operands (Nat.add_sub_cancel' hd)⟩

theorem depth_counter_balanced_last_level :
    let rest := [some (.int 1), some .comma, some (.int 2), some .closeBracket, none]
    99 ≤ maxNesting ∧ ReadsItems ⟨rest, 99⟩ .list (read .primary ⟨some .openBracket :: rest, 99⟩) ∧
      (read .primary ⟨some .openBracket :: rest, 99⟩).map outcome =
        some (.ok (.list [.literal (.int 1), .literal (.int 2)], [])) := by
  intro rest
  have hd : 99 ≤ maxNesting := by decide
  obtain ⟨-, -, hitems, -⟩ := depth_counter_balanced (c := ⟨rest, 99⟩) hd
  obtain ⟨hlevel, -⟩ := depth_counter_balanced (c := ⟨some .openBracket :: rest, 99⟩) hd
  exact ⟨hd, hitems, (hlevel .primary).2.trans (by cbv)⟩

/-- Where nothing is taken between siblings, one that can be read leaves the failure to a later. -/
theorem Exhausted.later {k : Level} {between : Token → Bool} {rest : List (Option Token)} {d : Nat}
    {e : Expr} {ts : List Token} (h : Exhausted k between 0 ⟨rest, d⟩) (hd : d ≤ maxNesting)
    (hread : readLevel (maxNesting - d) k (ahead rest) = .ok (e, ts)) :
    ∃ t mid, ts = t :: ahead mid ∧ Exhausted k between 0 ⟨mid, d⟩ := by
  have hout := (read_outcome k (c := ⟨rest, d⟩) hd).trans (congrArg some hread)
  cases h with
  | sibling h =>
    obtain ⟨c', h⟩ := h
    rw [h] at hout
    cases hout
  | token _ _ hover => exact absurd hover (Nat.not_lt.mpr hd)
  | next h ht hlater =>
    rw [h] at hout
    cases hout
    exact ⟨_, _, rfl, hlater⟩

/-- A chain is refused although none of its operands is short of levels. -/
theorem operators_take_levels :
    let ones := [some (.int 1), some .plus, some (.int 1), some .plus, some (.int 1), none]
    (read .sum ⟨ones, 99⟩).map outcome = some (.error .nesting) ∧
      ¬ Exhausted .product (fun t => (t.joining? .sum).isSome) 0 ⟨ones, 99⟩ := by
  intro ones
  have hd : 99 ≤ maxNesting := by decide
  refine ⟨(read_outcome .sum hd).trans (by cbv), fun h => ?_⟩
  have hread : readLevel 1 .product [.int 1, .plus, .int 1, .plus, .int 1] =
    .ok (.literal (.int 1), [.plus, .int 1, .plus, .int 1]) := by cbv
  obtain ⟨_, mid, hmid, h⟩ := h.later hd hread
  have hread : readLevel 1 .product (ahead mid) = .ok (.literal (.int 1), [.plus, .int 1]) := by
    rw [← List.tail_eq_of_cons_eq hmid]
    cbv
  obtain ⟨_, mid, hmid, h⟩ := h.later hd hread
  have hread : readLevel 1 .product (ahead mid) = .ok (.literal (.int 1), []) := by
    rw [← List.tail_eq_of_cons_eq hmid]
    cbv
  obtain ⟨_, _, hmid, _⟩ := h.later hd hread
  cases hmid

end Counting

end TrialLoop
