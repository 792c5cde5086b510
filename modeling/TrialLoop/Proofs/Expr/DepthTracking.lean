import TrialLoop.Proofs.Expr.DepthCounter
import TrialLoop.Proofs.Expr.Derivation

namespace TrialLoop

/-- The tokens that follow, up to the first mark of the end. -/
def ahead : List (Option Token) → List Token
  | some t :: rest => t :: ahead rest
  | _ => []

theorem ahead_nil : ahead [] = [] := rfl

theorem ahead_end (rest : List (Option Token)) : ahead (none :: rest) = [] := rfl

theorem some_cons (t : Token) (after : List (Option Token)) :
    some t :: after = [t].map some ++ after := rfl

theorem ahead_append (us : List Token) (after : List (Option Token)) :
    ahead (us.map some ++ after) = us ++ ahead after := by
  induction us with
  | nil => rfl
  | cons t us ih => exact congrArg (t :: ·) ih

namespace Counting

/--
A run follows the reader that is given its room: it ends, with the same result or error. What is
said of its end holds of the tokens that it took and of the counter. The counter is beyond the limit
exactly if it fails for the nesting.
-/
inductive Tracks {α : Type} (Q : List Token → Nat → Prop) (rest : List (Option Token)) :
    Except GrammarError (α × List Token) → Option (Except GrammarError α × Cursor) → Prop
  | ok {a us after d} : rest = us.map some ++ after → Q us d →
      Tracks Q rest (.ok (a, ahead after)) (some (.ok a, ⟨after, d⟩))
  | nesting {c} : c.depth = maxNesting + 1 →
      Tracks Q rest (.error .nesting) (some (.error .nesting, c))
  | refused {e c} : e ≠ .nesting → c.depth ≤ maxNesting →
      Tracks Q rest (.error e) (some (.error e, c))

namespace Tracks

variable {α β : Type} {Q R : List Token → Nat → Prop} {rest after : List (Option Token)}
  {us : List Token} {d room : Nat} {c : Cursor} {m : Counting α}

theorem mono {x : Except GrammarError (α × List Token)}
    {o : Option (Except GrammarError α × Cursor)} (h : Tracks Q rest x o)
    (hR : ∀ us d, Q us d → R us d) : Tracks R rest x o := by
  cases h with
  | ok hrest hQ => exact .ok hrest (hR _ _ hQ)
  | nesting hd => exact .nesting hd
  | refused he hd => exact .refused he hd

/-- Tokens that were taken before are taken as well. -/
theorem before {x : Except GrammarError (α × List Token)}
    {o : Option (Except GrammarError α × Cursor)} (hrest : rest = us.map some ++ after)
    (h : Tracks (fun vs => Q (us ++ vs)) after x o) : Tracks Q rest x o := by
  subst hrest
  cases h with
  | ok hafter hQ => exact .ok (by rw [hafter, List.map_append, List.append_assoc]) hQ
  | nesting hd => exact .nesting hd
  | refused he hd => exact .refused he hd

theorem bind {x : Except GrammarError (α × List Token)}
    {f : α × List Token → Except GrammarError (β × List Token)} {g : α → Counting β}
    (h : Tracks Q rest x (m c))
    (hf : ∀ a us after d, rest = us.map some ++ after → Q us d →
      Tracks (fun vs => R (us ++ vs)) after (f (a, ahead after)) (g a ⟨after, d⟩)) :
    Tracks R rest (x >>= f) ((m >>= g) c) := by
  show Tracks R rest _ ((m c).bind _)
  generalize m c = o at h
  cases h with
  | ok hrest hQ => exact .before hrest (hf _ _ _ _ hrest hQ)
  | nesting hd => exact .nesting hd
  | refused he hd => exact .refused he hd

/-- After a result only the counter is changed. -/
theorem settle {x : Except GrammarError (α × List Token)} {g : α → Counting α}
    (h : Tracks Q rest x (m c))
    (hg : ∀ a us after d, Q us d → ∃ d', R us d' ∧ g a ⟨after, d⟩ = some (.ok a, ⟨after, d'⟩)) :
    Tracks R rest x ((m >>= g) c) := by
  show Tracks R rest _ ((m c).bind _)
  generalize m c = o at h
  cases h with
  | @ok a us after d hrest hQ =>
    obtain ⟨d', hR, hrun⟩ := hg a us after d hQ
    show Tracks R rest _ (g a ⟨after, d⟩)
    rw [hrun]
    exact .ok hrest hR
  | nesting hd => exact .nesting hd
  | refused he hd => exact .refused he hd

theorem done (a : α) (h : Q [] d) :
    Tracks Q rest (.ok (a, ahead rest)) ((pure a : Counting α) ⟨rest, d⟩) :=
  .ok rfl h

theorem skip {t : Token} {x : Except GrammarError (β × List Token)} {g : Unit → Counting β}
    (h : Tracks (fun vs => Q (t :: vs)) rest x (g () ⟨rest, d⟩)) :
    Tracks Q (some t :: rest) x ((Counting.skip >>= g) ⟨some t :: rest, d⟩) :=
  before (some_cons t rest) h

end Tracks

/-- At least one token is taken, and the counter is as it was. -/
structure Kept (d : Nat) (us : List Token) (d' : Nat) : Prop where
  taken : us ≠ []
  depth : d' = d

namespace Tracks

variable {α β : Type} {Q : List Token → Nat → Prop} {rest : List (Option Token)} {d : Nat}
  {m : Counting α} {x : Except GrammarError (α × List Token)}

theorem marked (h : Tracks (fun us _ => us ≠ []) rest x (m ⟨rest, d⟩)) :
    Tracks (Kept d) rest x (Counting.marked m ⟨rest, d⟩) := by
  rw [Counting.marked, depth_bind]
  exact h.settle fun a us after d' htaken => ⟨d, ⟨htaken, rfl⟩, rfl⟩

theorem nested (hd : d + 1 ≤ maxNesting) (h : Tracks (Kept (d + 1)) rest x (m ⟨rest, d + 1⟩)) :
    Tracks (Kept d) rest x (Counting.nested m ⟨rest, d⟩) := by
  rw [Counting.nested, descend_bind hd]
  refine h.settle fun a us after d' hkept => ?_
  obtain ⟨htaken, rfl⟩ := hkept
  exact ⟨d, ⟨htaken, rfl⟩, rfl⟩

theorem nested_beyond (hd : d = maxNesting) :
    Tracks Q rest (.error .nesting) (Counting.nested m ⟨rest, d⟩) := by
  rw [Counting.nested_beyond hd]
  exact .nesting (congrArg (· + 1) hd)

theorem nested_beyond_bind (hd : d = maxNesting) (g : α → Counting β) :
    Tracks Q rest (.error .nesting) ((Counting.nested m >>= g) ⟨rest, d⟩) := by
  rw [bind_error (Counting.nested_beyond hd m)]
  exact .nesting (congrArg (· + 1) hd)

end Tracks

/-- The counting reader does what the reader does with the room that the counter leaves. -/
def Follows (room : Nat) (l : Level) : Prop :=
  ∀ rest d, d + room = maxNesting →
    Tracks (Kept d) rest (readLevel room l (ahead rest)) (level room l ⟨rest, d⟩)

section Functions

variable {room : Nat} {l k : Level}

theorem level_operands (h : l.Joins k) (room : Nat) : level room l = (do
    enter
    marked do joined room l (← level room k)) := by
  cases h <;> rw [level]

theorem level_applied {t : Token} {op : UnaryOperator} (h : (t, op) ∈ l.prefixes) (room : Nat)
    (after : List (Option Token)) {d : Nat} (hd : d ≤ maxNesting) :
    level room l ⟨some t :: after, d⟩ = (do
      skip
      let e ← nested do
        match room with
        | 0 => stuck
        | room + 1 => level room l
      return .unary op e : Counting Expr) ⟨some t :: after, d⟩ := by
  refine (congrFun (level.eq_def room l) _).trans ((enter_bind hd _).trans ?_)
  cases l with
  | not =>
    cases List.mem_singleton.mp h
    rfl
  | unary =>
    rw [Level.prefixes, List.mem_cons, List.mem_singleton] at h
    rcases h with ⟨⟨⟩⟩ | ⟨⟨⟩⟩ <;> rfl
  | _ => cases h

theorem require_follows {wanted : Token → Bool} {what : String} {rest : List (Option Token)}
    {d : Nat} (hd : d ≤ maxNesting) :
    Tracks (Kept d) rest (expect wanted what (ahead rest)) (require wanted what ⟨rest, d⟩) := by
  rcases rest with _ | ⟨_ | t, after⟩
  · exact .refused (by simp) hd
  · exact .refused (by simp) hd
  · rw [ahead, expect]
    by_cases ht : wanted t
    · rw [require_run what ht, if_pos ht]
      exact .ok (some_cons t after) ⟨by simp, rfl⟩
    · rw [require_refused (c := ⟨some t :: after, d⟩) what ht, if_neg ht]
      exact .refused (by simp) hd

/-- The counter stays raised after a chain, for whoever marked it to set it back. -/
theorem joined_follows (hlk : l.Joins k) (deeper : ∀ r < room, Follows r k) :
    ∀ left rest d, d + room = maxNesting →
      Tracks (fun _ _ => True) rest (readJoined room l left (ahead rest))
        (joined room l left ⟨rest, d⟩) := by
  induction room using Nat.strongRecOn with
  | ind room ih =>
    intro left rest d hroom
    rcases rest with _ | ⟨_ | t, after⟩
    · rw [joined_end left rfl, readJoined.eq_def]
      exact .done left trivial
    · rw [joined_end left rfl, readJoined.eq_def]
      exact .done left trivial
    · rw [ahead, readJoined]
      cases hj : t.joining? l with
      | none =>
        rw [joined_end (c := ⟨some t :: after, d⟩) left hj]
        exact .done left trivial
      | some join =>
        cases room with
        | zero =>
          have hlimit : d = maxNesting := hroom
          rw [joined_beyond left hj hlimit]
          exact .nesting (congrArg (· + 1) hroom)
        | succ r =>
          rw [joined_next left hj (by omega), hlk.operand_eq]
          refine .before (some_cons t after) ?_
          refine (deeper r (by omega) after (d + 1) (by omega)).bind
            fun right us rest d' _ hkept => ?_
          obtain ⟨_, rfl⟩ := hkept
          exact ih r (by omega) (fun r hlt => deeper r (by omega)) _ rest (d + 1) (by omega)

theorem readLinks_nil (operand : List Token → Except GrammarError (Expr × List Token))
    (bound : List Token) : readLinks operand bound [] = .ok ([], []) := by
  cases bound <;> rfl

/-- The bounds are no fewer than the tokens to come, of which each link takes one. -/
theorem links_follow (h : Follows room .sum) (bound' : List (Option Token)) :
    ∀ bound rest d, (ahead rest).length ≤ bound.length → rest.length < bound'.length →
      d + room = maxNesting →
      Tracks (fun _ d' => d' = d) rest
        (readLinks (fun ts => readLevel room .sum ts) bound (ahead rest))
        (links (level room .sum) bound' ⟨rest, d⟩) := by
  induction bound' with
  | nil => exact fun _ _ _ _ hlt => absurd hlt (Nat.not_lt_zero _)
  | cons _ bound' ih =>
    intro bound rest d hbound hbound' hroom
    rcases rest with _ | ⟨_ | t, after⟩
    · rw [links_end rfl, ahead_nil, readLinks_nil]
      exact .done [] rfl
    · rw [links_end rfl, ahead_end, readLinks_nil]
      exact .done [] rfl
    cases bound with
    | nil => exact absurd hbound (by simp [ahead])
    | cons _ bound =>
      rw [ahead, readLinks]
      cases hop : t.comparison? with
      | none =>
        rw [links_end (c := ⟨some t :: after, d⟩) hop]
        exact .done [] rfl
      | some op =>
        rw [links_next hop]
        refine .before (some_cons t after) ?_
        refine (h after d hroom).bind fun e us rest d' hafter hkept => ?_
        obtain ⟨_, rfl⟩ := hkept
        subst hafter
        simp only [ahead, ahead_append, List.length_cons, List.length_append, List.length_map]
          at hbound hbound'
        exact (ih bound rest d' (by omega) (by omega) hroom).bind
          fun ls vs rest d'' _ hd => .done _ hd

theorem suffixes_follow (deeper : ∀ r < room, Follows r .whole) :
    ∀ base rest d, d + room = maxNesting →
      Tracks (fun _ _ => True) rest (readSuffixes room base (ahead rest))
        (suffixes room base ⟨rest, d⟩) := by
  induction room using Nat.strongRecOn with
  | ind room ih =>
    intro base rest d hroom
    rw [suffixes.eq_def, peek_bind, readSuffixes.eq_def]
    rcases rest with _ | ⟨_ | t, after⟩
    · exact .done base trivial
    · exact .done base trivial
    cases t with
    | dot =>
      refine Tracks.skip ?_
      cases room with
      | zero =>
        rw [descend_beyond (show d = maxNesting from hroom)]
        exact .nesting (congrArg (· + 1) hroom)
      | succ r =>
        have hd : d + 1 ≤ maxNesting := by omega
        rw [descend_bind hd]
        rcases after with _ | ⟨_ | t, after⟩
        · exact .refused (by simp) hd
        · exact .refused (by simp) hd
        cases t with
        | name s =>
          refine .before (some_cons (.name s) after) ?_
          exact ih r (by omega) (fun r hlt => deeper r (by omega)) _ after (d + 1) (by omega)
        | _ => exact .refused (by simp) hd
    | openBracket =>
      refine Tracks.skip ?_
      cases room with
      | zero =>
        rw [descend_beyond (show d = maxNesting from hroom)]
        exact .nesting (congrArg (· + 1) hroom)
      | succ r =>
        have hd : d + 1 ≤ maxNesting := by omega
        rw [descend_bind hd]
        refine (deeper r (by omega) after (d + 1) (by omega)).bind fun i us rest d' _ hkept => ?_
        obtain ⟨_, rfl⟩ := hkept
        refine (require_follows hd).bind fun _ us rest d' _ hkept => ?_
        obtain ⟨_, rfl⟩ := hkept
        exact ih r (by omega) (fun r hlt => deeper r (by omega)) _ rest (d + 1) (by omega)
    | _ => exact .done base trivial

theorem more_follows (h : Follows room .whole) {closing : Token → Bool} {bound : List Token}
    {others : Counting (List Expr)} {rest : List (Option Token)} {d : Nat}
    (hroom : d + room = maxNesting)
    (hothers : ∀ (us : List Token) after, rest = us.map some ++ some .comma :: after →
      Tracks (Kept d) after
        (readItems (fun ts => readLevel room .whole ts) closing bound (ahead after))
        (others ⟨after, d⟩)) :
    Tracks (Kept d) rest
      (readItems.more (fun ts => readLevel room .whole ts) closing bound
        (readLevel room .whole (ahead rest)))
      (moreItems (level room .whole) closing others ⟨rest, d⟩) := by
  have hd : d ≤ maxNesting := by omega
  rw [readItems.more, moreItems]
  refine (h rest d hroom).bind fun e us after d' hafter hkept => ?_
  obtain ⟨htaken, rfl⟩ := hkept
  rw [peek_bind]
  rcases after with _ | ⟨_ | t, after⟩
  · exact .refused (by simp) hd
  · exact .refused (by simp) hd
  rw [ahead]
  by_cases hc : closing t
  · simp only [List.head?_cons, Option.join_some, Option.any_some, hc, if_true]
    exact .before (some_cons t after) (.done _ ⟨by simp, rfl⟩)
  · simp only [List.head?_cons, Option.join_some, Option.any_some, hc]
    cases t with
    | comma =>
      refine .before (some_cons .comma after) ?_
      refine (hothers us after hafter).bind fun es vs rest' d'' _ hkept => ?_
      obtain ⟨_, rfl⟩ := hkept
      exact .done _ ⟨by simp, rfl⟩
    | _ => exact .refused (by simp) hd

/-- The bounds are above the number of tokens to come, of which each item takes one. -/
theorem items_follow (h : Follows room .whole) (closing : Token → Bool)
    (bound' : List (Option Token)) :
    ∀ bound rest d, (ahead rest).length < bound.length → rest.length < bound'.length →
      d + room = maxNesting →
      Tracks (Kept d) rest
        (readItems (fun ts => readLevel room .whole ts) closing bound (ahead rest))
        (items (level room .whole) closing bound' ⟨rest, d⟩) := by
  induction bound' with
  | nil => exact fun _ _ _ _ hlt => absurd hlt (Nat.not_lt_zero _)
  | cons _ bound' ih =>
    intro bound rest d hbound hbound' hroom
    cases bound with
    | nil => exact absurd hbound (Nat.not_lt_zero _)
    | cons t₀ bound =>
      have hmore : Tracks (Kept d) rest
          (readItems.more (fun ts => readLevel room .whole ts) closing bound
            (readLevel room .whole (ahead rest)))
          (moreItems (level room .whole) closing (items (level room .whole) closing bound')
            ⟨rest, d⟩) := by
        refine more_follows h hroom fun us after hafter => ?_
        subst hafter
        simp only [ahead, ahead_append, List.length_cons, List.length_append, List.length_map]
          at hbound hbound'
        exact ih bound after d (by omega) (by omega) hroom
      rw [items, peek_bind]
      rcases rest with _ | ⟨_ | t, after⟩
      · rw [readItems.eq_def]
        exact hmore
      · rw [readItems.eq_def]
        exact hmore
      rw [ahead, readItems]
      by_cases hc : closing t
      · simp only [List.head?_cons, Option.join_some, Option.any_some, hc, if_true]
        exact .before (some_cons t after) (.done _ ⟨by simp, rfl⟩)
      · simp only [List.head?_cons, Option.join_some, Option.any_some, hc]
        exact hmore

theorem itemList_follows (h : Follows room .whole) (closing : Token → Bool) (bound : List Token)
    (rest : List (Option Token)) (d : Nat) (hbound : (ahead rest).length < bound.length)
    (hroom : d + room = maxNesting) :
    Tracks (Kept d) rest
      (readItems (fun ts => readLevel room .whole ts) closing bound (ahead rest))
      (itemList (level room .whole) closing ⟨rest, d⟩) := by
  have hd : d ≤ maxNesting := by omega
  rw [itemList, enter_bind hd, following_bind]
  exact items_follow h closing (none :: rest) bound rest d hbound (Nat.lt_succ_self _) hroom

end Functions

section Levels

variable {room : Nat} {l k : Level}

theorem whole_follows (deeper : ∀ r < room, Follows r .or) : Follows room .whole := by
  intro rest d hroom
  have hd : d ≤ maxNesting := by omega
  rw [readLevel.eq_def, level.eq_def, enter_bind hd]
  cases room with
  | zero => exact Tracks.nested_beyond hroom
  | succ r => exact Tracks.nested (by omega) (deeper r (by omega) rest (d + 1) (by omega))

theorem operands_follow (hlk : l.Joins k) (deeper : ∀ r < room, Follows r k)
    (h : Follows room k) : Follows room l := by
  intro rest d hroom
  have hd : d ≤ maxNesting := by omega
  rw [readLevel_operands hlk, level_operands hlk, enter_bind hd]
  refine Tracks.marked ((h rest d hroom).bind fun first us after d' _ hkept => ?_)
  obtain ⟨htaken, rfl⟩ := hkept
  exact (joined_follows hlk deeper first after d' hroom).mono fun vs _ _ => by simp [htaken]

theorem applied_follows {t : Token} {op : UnaryOperator} (deeper : ∀ r < room, Follows r l)
    (h : (t, op) ∈ l.prefixes) {after : List (Option Token)} {d : Nat}
    (hroom : d + room = maxNesting) :
    Tracks (Kept d) (some t :: after) (readLevel room l (ahead (some t :: after)))
      (level room l ⟨some t :: after, d⟩) := by
  have hd : d ≤ maxNesting := by omega
  rw [ahead, readLevel_applied h, level_applied h room after hd]
  refine Tracks.skip ?_
  cases room with
  | zero => exact Tracks.nested_beyond_bind hroom _
  | succ r =>
    refine (Tracks.nested (by omega) (deeper r (by omega) after (d + 1) (by omega))).bind
      fun e us rest d' _ hkept => ?_
    obtain ⟨_, rfl⟩ := hkept
    exact .done _ ⟨by simp, rfl⟩

theorem not_follows (deeper : ∀ r < room, Follows r .not) (h : Follows room .comparison) :
    Follows room .not := by
  intro rest d hroom
  by_cases ht : ∃ after, rest = some .not :: after
  · obtain ⟨after, rfl⟩ := ht
    exact applied_follows deeper (List.mem_singleton_self _) hroom
  have hd : d ≤ maxNesting := by omega
  rw [readLevel.eq_def, level.eq_def, enter_bind hd]
  rcases rest with _ | ⟨_ | t, after⟩
  · exact h _ d hroom
  · exact h _ d hroom
  cases t with
  | not => exact absurd ⟨after, rfl⟩ ht
  | _ => exact h _ d hroom

theorem comparison_follows (h : Follows room .sum) : Follows room .comparison := by
  intro rest d hroom
  have hd : d ≤ maxNesting := by omega
  rw [readLevel.eq_def, level.eq_def, enter_bind hd]
  refine (h rest d hroom).bind fun first us after d' _ hkept => ?_
  obtain ⟨htaken, rfl⟩ := hkept
  rw [following_bind]
  exact (links_follow h (none :: after) (ahead after) after d' (Nat.le_refl _)
    (Nat.lt_succ_self _) hroom).bind
    fun ls vs rest' d'' _ hd' => .done _ ⟨by simp [htaken], hd'⟩

theorem unary_follows (deeper : ∀ r < room, Follows r .unary) (h : Follows room .power) :
    Follows room .unary := by
  intro rest d hroom
  by_cases ht : ∃ t op after, (t, op) ∈ Level.unary.prefixes ∧ rest = some t :: after
  · obtain ⟨t, op, after, hop, rfl⟩ := ht
    exact applied_follows deeper hop hroom
  have hd : d ≤ maxNesting := by omega
  rw [readLevel.eq_def, level.eq_def, enter_bind hd]
  rcases rest with _ | ⟨_ | t, after⟩
  · exact h _ d hroom
  · exact h _ d hroom
  cases t with
  | minus => exact absurd ⟨.minus, .neg, after, by simp [Level.prefixes], rfl⟩ ht
  | plus => exact absurd ⟨.plus, .pos, after, by simp [Level.prefixes], rfl⟩ ht
  | _ => exact h _ d hroom

theorem power_follows (deeper : ∀ r < room, Follows r .unary) (h : Follows room .suffixed) :
    Follows room .power := by
  intro rest d hroom
  have hd : d ≤ maxNesting := by omega
  rw [readLevel.eq_def, level.eq_def, enter_bind hd]
  refine (h rest d hroom).bind fun base us after d' _ hkept => ?_
  obtain ⟨htaken, rfl⟩ := hkept
  rw [peek_bind]
  rcases after with _ | ⟨_ | t, after⟩
  · exact .done base ⟨by simp [htaken], rfl⟩
  · exact .done base ⟨by simp [htaken], rfl⟩
  cases t with
  | starStar =>
    refine Tracks.skip ?_
    cases room with
    | zero => exact Tracks.nested_beyond_bind hroom _
    | succ r =>
      refine (Tracks.nested (by omega) (deeper r (by omega) after (d' + 1) (by omega))).bind
        fun e vs rest' d'' _ hkept => ?_
      obtain ⟨_, rfl⟩ := hkept
      exact .done _ ⟨by simp [htaken], rfl⟩
  | _ => exact .done base ⟨by simp [htaken], rfl⟩

theorem suffixed_follows (deeper : ∀ r < room, Follows r .whole) (h : Follows room .primary) :
    Follows room .suffixed := by
  intro rest d hroom
  have hd : d ≤ maxNesting := by omega
  rw [readLevel.eq_def, level.eq_def, enter_bind hd]
  refine Tracks.marked ((h rest d hroom).bind fun base us after d' _ hkept => ?_)
  obtain ⟨htaken, rfl⟩ := hkept
  exact (suffixes_follow deeper base after d' hroom).mono fun vs _ _ => by simp [htaken]

/-- A name is a value, or else a call if a parenthesis follows it. -/
theorem name_follows (h : Follows room .whole) (s : String) (after : List (Option Token)) {d : Nat}
    (hroom : d + room = maxNesting) :
    Tracks (Kept d) (some (.name s) :: after)
      (readLevel room .primary (ahead (some (.name s) :: after)))
      (level room .primary ⟨some (.name s) :: after, d⟩) := by
  have hd : d ≤ maxNesting := by omega
  rw [ahead, readLevel.eq_def, level.eq_def, enter_bind hd]
  refine .before (some_cons (.name s) after) ?_
  show Tracks _ after (if _ then _ else _) ((if _ then _ else _ : Counting Expr) _)
  split
  next => exact .done _ ⟨by simp, rfl⟩
  split
  next => exact .done _ ⟨by simp, rfl⟩
  split
  next => exact .done _ ⟨by simp, rfl⟩
  rw [peek_bind]
  rcases after with _ | ⟨_ | t, after⟩
  · exact .done _ ⟨by simp, rfl⟩
  · exact .done _ ⟨by simp, rfl⟩
  cases t with
  | openParen =>
    have hbound : (ahead after).length < (Token.name s :: .openParen :: ahead after).length :=
      Nat.lt_add_of_pos_right Nat.two_pos
    refine .before (some_cons .openParen after) ?_
    refine (itemList_follows h _ _ after d hbound hroom).bind fun es us after d' _ hkept => ?_
    obtain ⟨_, rfl⟩ := hkept
    exact .done _ ⟨by simp, rfl⟩
  | _ => exact .done _ ⟨by simp, rfl⟩

theorem primary_follows (h : Follows room .whole) : Follows room .primary := by
  intro rest d hroom
  by_cases hname : ∃ s after, rest = some (.name s) :: after
  · obtain ⟨s, after, rfl⟩ := hname
    exact name_follows h s after hroom
  have hd : d ≤ maxNesting := by omega
  rw [readLevel.eq_def, level.eq_def, enter_bind hd]
  rcases rest with _ | ⟨_ | t, after⟩
  · exact .refused (by simp) hd
  · exact .refused (by simp) hd
  cases t with
  | int n => exact .before (some_cons (.int n) after) (.done _ ⟨by simp, rfl⟩)
  | float x => exact .before (some_cons (.float x) after) (.done _ ⟨by simp, rfl⟩)
  | str s => exact .before (some_cons (.str s) after) (.done _ ⟨by simp, rfl⟩)
  | name s => exact absurd ⟨s, after, rfl⟩ hname
  | openParen =>
    refine .before (some_cons .openParen after) ?_
    refine (h after d hroom).bind fun e us after d' _ hkept => ?_
    obtain ⟨_, rfl⟩ := hkept
    refine (require_follows hd).bind fun _ vs after d' _ hkept => ?_
    obtain ⟨_, rfl⟩ := hkept
    exact .done e ⟨by simp, rfl⟩
  | openBracket =>
    refine .before (some_cons .openBracket after) ?_
    refine (itemList_follows h _ _ after d (by simp [ahead]) hroom).bind
      fun es us after d' _ hkept => ?_
    obtain ⟨_, rfl⟩ := hkept
    exact .done _ ⟨by simp, rfl⟩
  | _ => exact .refused (by simp) hd

/-- Each level from the next lower one, the lowest from the levels with less room. -/
theorem level_follows (room : Nat) : ∀ l, Follows room l := by
  induction room using Nat.strongRecOn with
  | ind room deeper =>
    have at_level : ∀ l, ∀ r < room, Follows r l := fun l r hr => deeper r hr l
    have whole : Follows room .whole := whole_follows (at_level _)
    have primary : Follows room .primary := primary_follows whole
    have suffixed : Follows room .suffixed := suffixed_follows (at_level _) primary
    have power : Follows room .power := power_follows (at_level _) suffixed
    have unary : Follows room .unary := unary_follows (at_level _) power
    have product : Follows room .product := operands_follow .product (at_level _) unary
    have sum : Follows room .sum := operands_follow .sum (at_level _) product
    have comparison : Follows room .comparison := comparison_follows sum
    have not : Follows room .not := not_follows (at_level _) comparison
    have and : Follows room .and := operands_follow .and (at_level _) not
    have or : Follows room .or := operands_follow .or (at_level _) and
    intro l
    cases l <;> assumption

end Levels

end Counting

end TrialLoop
