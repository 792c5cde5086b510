import TrialLoop.Proofs.Expr.Soundness

namespace TrialLoop

mutual

/-- The levels of an expression. A chain of comparisons is on the level of its highest operand. -/
def Expr.height : Expr → Nat
  | .literal _ => 1
  | .name _ => 1
  | .member base _ => base.height + 1
  | .index base i => max base.height i.height + 1
  | .list items => heights items + 1
  | .unary _ operand => operand.height + 1
  | .binary _ left right => max left.height right.height + 1
  | .compare first links => max first.height (linkHeights links)
  | .and left right => max left.height right.height + 1
  | .or left right => max left.height right.height + 1
  | .call _ arguments => heights arguments + 1

/-- The height of the highest expression. -/
def heights : List Expr → Nat
  | [] => 0
  | e :: es => max e.height (heights es)

/-- The height of the highest expression after a comparison. -/
def linkHeights : List (Comparison × Expr) → Nat
  | [] => 0
  | (_, e) :: links => max e.height (linkHeights links)

end

/--
The most levels of an expression inside brackets. Around the brackets inside it can stand suffixes
and a power, and around these four chains of operators, each as long as there is room.
-/
def wholeHeight : Nat → Nat
  | 0 => 0
  | room + 1 => wholeHeight room + 5 * room + 2

/-- The most levels of an expression of a level of the grammar. -/
def Level.height (room : Nat) : Level → Nat
  | whole => wholeHeight room
  | primary => wholeHeight room + 1
  | suffixed => wholeHeight room + room + 1
  | power | unary => wholeHeight room + room + 2
  | product => wholeHeight room + 2 * room + 2
  | sum | comparison | not => wholeHeight room + 3 * room + 2
  | and => wholeHeight room + 4 * room + 2
  | or => wholeHeight room + 5 * room + 2

theorem Level.height_succ (l : Level) (room : Nat) : l.height room < l.height (room + 1) := by
  cases l <;> simp only [Level.height, wholeHeight] <;> omega

theorem Level.height_mono (l : Level) {r room : Nat} (h : r ≤ room) :
    l.height r ≤ l.height room := by
  induction h with
  | refl => exact Nat.le_refl _
  | step _ ih => exact Nat.le_trans ih (Nat.le_of_lt (l.height_succ _))

/-- What is read at a level is no higher than the level allows. -/
def Low (room : Nat) (l : Level) : Prop :=
  ∀ ⦃ts e rest⦄, readLevel room l ts = .ok (e, rest) → e.height ≤ l.height room

theorem readLinks_height {room : Nat} (h : Low room .sum) :
    ∀ {bound ts : List Token} {links rest},
      readLinks (fun ts => readLevel room .sum ts) bound ts = .ok (links, rest) →
        linkHeights links ≤ Level.sum.height room := by
  intro bound
  induction bound with
  | nil =>
    intro ts links rest hr
    cases ts <;> cases hr <;> exact Nat.zero_le _
  | cons _ bound ih =>
    intro ts links rest hr
    cases ts with
    | nil =>
      cases hr
      exact Nat.zero_le _
    | cons t ts =>
      rw [readLinks] at hr
      split at hr
      next =>
        cases hr
        exact Nat.zero_le _
      next op hop =>
        obtain ⟨⟨e, mid⟩, he, hr⟩ := bind_eq_ok hr
        obtain ⟨⟨more, rest'⟩, hm, hr⟩ := bind_eq_ok hr
        cases hr
        exact Nat.max_le_of_le_of_le (h he) (ih hm)

theorem more_height {room : Nat} (h : Low room .whole) {closing : Token → Bool}
    {bound : List Token}
    (items : ∀ {ts es rest},
      readItems (fun ts => readLevel room .whole ts) closing bound ts = .ok (es, rest) →
        heights es ≤ wholeHeight room)
    {ts : List Token} {es : List Expr} {rest : List Token}
    (hr : readItems.more (fun ts => readLevel room .whole ts) closing bound
      (readLevel room .whole ts) = .ok (es, rest)) : heights es ≤ wholeHeight room := by
  rw [readItems.more] at hr
  obtain ⟨⟨e, mid⟩, he, hm⟩ := bind_eq_ok hr
  cases mid with
  | nil => cases hm
  | cons t mid =>
    simp only at hm
    split at hm
    next =>
      cases hm
      exact Nat.max_le_of_le_of_le (h he) (Nat.zero_le _)
    next =>
      split at hm
      next =>
        obtain ⟨⟨es, rest'⟩, hes, hm⟩ := bind_eq_ok hm
        cases hm
        exact Nat.max_le_of_le_of_le (h he) (items hes)
      next => cases hm

theorem readItems_height {room : Nat} (h : Low room .whole) {closing : Token → Bool} :
    ∀ {bound ts : List Token} {es rest},
      readItems (fun ts => readLevel room .whole ts) closing bound ts = .ok (es, rest) →
        heights es ≤ wholeHeight room := by
  intro bound
  induction bound with
  | nil =>
    intro ts es rest hr
    rw [readItems] at hr
    cases hr
  | cons _ bound ih =>
    intro ts es rest hr
    cases ts with
    | nil =>
      rw [readItems] at hr
      exact more_height h ih hr
    | cons t ts =>
      rw [readItems] at hr
      split at hr
      next =>
        cases hr
        exact Nat.zero_le _
      next => exact more_height h ih hr

theorem height_of_operator {l : Level} {t : Token} {f : Expr → Expr → Expr}
    (h : (t, f) ∈ l.operators) (left right : Expr) :
    (f left right).height = max left.height right.height + 1 := by
  cases l <;> simp only [Level.operators, List.mem_cons, Prod.mk.injEq, List.not_mem_nil,
    or_false] at h
  case or | and =>
    obtain ⟨-, rfl⟩ := h
    rfl
  case sum =>
    obtain ⟨-, rfl⟩ | ⟨-, rfl⟩ := h <;> rfl
  case product =>
    obtain ⟨-, rfl⟩ | ⟨-, rfl⟩ | ⟨-, rfl⟩ | ⟨-, rfl⟩ := h <;> rfl

/-- A chain adds a level for each operator, and there are no more of them than there is room. -/
theorem readJoined_height {l k : Level} (hlk : l.Joins k) {room : Nat}
    (deeper : ∀ r < room, Low r k) :
    ∀ {first : Expr} {ts : List Token} {e rest}, readJoined room l first ts = .ok (e, rest) →
      e.height ≤ max first.height (k.height room) + room := by
  induction room using Nat.strongRecOn with
  | ind room ih =>
    intro first ts e rest h
    cases ts with
    | nil =>
      rw [readJoined] at h
      cases h
      omega
    | cons t ts =>
      rw [readJoined] at h
      split at h
      next =>
        cases h
        omega
      next f hf =>
        cases room with
        | zero => cases h
        | succ room =>
          obtain ⟨⟨right, mid⟩, hr, hj⟩ := bind_eq_ok h
          rw [hlk.operand_eq] at hr
          have hk : k.height room ≤ k.height (room + 1) := k.height_mono (Nat.le_succ room)
          have hright := Nat.le_trans (deeper room (by omega) hr) hk
          have hrest := ih room (by omega) (fun r hlt => deeper r (by omega)) hj
          rw [height_of_operator (joining?_eq_some.mp hf)] at hrest
          omega

theorem readSuffixes_height {room : Nat} (deeper : ∀ r < room, Low r .whole) :
    ∀ {base : Expr} {ts : List Token} {e rest}, readSuffixes room base ts = .ok (e, rest) →
      e.height ≤ max base.height (wholeHeight room) + room := by
  induction room using Nat.strongRecOn with
  | ind room ih =>
    intro base ts e rest h
    rw [readSuffixes.eq_def] at h
    split at h
    next ts =>
      cases room with
      | zero => cases h
      | succ room =>
        simp only at h
        split at h
        next s ts =>
          have hrest := ih room (by omega) (fun r hlt => deeper r (by omega)) h
          simp only [Expr.height, wholeHeight] at hrest ⊢
          omega
        next => cases h
    next ts =>
      cases room with
      | zero => cases h
      | succ room =>
        obtain ⟨⟨i, mid⟩, hi, h⟩ := bind_eq_ok h
        obtain ⟨⟨_, rest'⟩, hx, hs⟩ := bind_eq_ok h
        have hindex : i.height ≤ wholeHeight room := deeper room (by omega) hi
        have hrest := ih room (by omega) (fun r hlt => deeper r (by omega)) hs
        simp only [Expr.height, wholeHeight] at hrest ⊢
        omega
    next =>
      cases h
      omega

theorem whole_low {room : Nat} (deeper : ∀ r < room, Low r .or) : Low room .whole := by
  intro ts e rest h
  rw [readLevel.eq_def] at h
  cases room with
  | zero => cases h
  | succ room => exact deeper room (by omega) h

theorem operands_low {l k : Level} (hlk : l.Joins k) {room : Nat} (deeper : ∀ r < room, Low r k)
    (h : Low room k) : Low room l := by
  intro ts e rest hr
  rw [readLevel_operands hlk] at hr
  obtain ⟨⟨first, mid⟩, hf, hj⟩ := bind_eq_ok hr
  have hfirst := h hf
  have hchain := readJoined_height hlk deeper hj
  cases hlk <;> simp only [Level.height] at hfirst hchain ⊢ <;> omega

theorem applied_low {room : Nat} {l : Level} (deeper : ∀ r < room, Low r l) {t : Token}
    {op : UnaryOperator} (h : (t, op) ∈ l.prefixes) {ts : List Token} {e : Expr}
    {rest : List Token} (hr : readLevel room l (t :: ts) = .ok (e, rest)) :
    e.height ≤ l.height room := by
  rw [readLevel_applied h] at hr
  cases room with
  | zero => cases hr
  | succ room =>
    obtain ⟨⟨e, rest'⟩, he, hr⟩ := bind_eq_ok hr
    cases hr
    have hoperand := deeper room (by omega) he
    have hsucc := l.height_succ room
    simp only [Expr.height]
    omega

theorem not_low {room : Nat} (deeper : ∀ r < room, Low r .not) (h : Low room .comparison) :
    Low room .not := by
  intro ts e rest hr
  by_cases ht : ∃ us, ts = .not :: us
  · obtain ⟨us, rfl⟩ := ht
    exact applied_low deeper (List.mem_singleton_self _) hr
  · rw [readLevel.eq_def] at hr
    simp only at hr
    split at hr
    next us => exact absurd ⟨us, rfl⟩ ht
    next => exact h hr

theorem comparison_low {room : Nat} (h : Low room .sum) : Low room .comparison := by
  intro ts e rest hr
  rw [readLevel] at hr
  obtain ⟨⟨first, mid⟩, hf, hr⟩ := bind_eq_ok hr
  obtain ⟨⟨links, rest'⟩, hl, hr⟩ := bind_eq_ok hr
  cases hr
  split
  next => exact h hf
  next => exact Nat.max_le_of_le_of_le (h hf) (readLinks_height h hl)

theorem unary_low {room : Nat} (deeper : ∀ r < room, Low r .unary) (h : Low room .power) :
    Low room .unary := by
  intro ts e rest hr
  by_cases ht : ∃ t op us, (t, op) ∈ Level.prefixes .unary ∧ ts = t :: us
  · obtain ⟨t, op, us, hm, rfl⟩ := ht
    exact applied_low deeper hm hr
  · rw [readLevel.eq_def] at hr
    simp only at hr
    split at hr
    next us => exact absurd ⟨_, _, us, List.mem_cons_self, rfl⟩ ht
    next us => exact absurd ⟨_, _, us, List.mem_cons_of_mem _ (List.mem_singleton_self _), rfl⟩ ht
    next => exact h hr

theorem power_low {room : Nat} (deeper : ∀ r < room, Low r .unary) (h : Low room .suffixed) :
    Low room .power := by
  intro ts e rest hr
  rw [readLevel] at hr
  obtain ⟨⟨base, mid⟩, hb, hr⟩ := bind_eq_ok hr
  have hbase := h hb
  simp only [Level.height] at hr hbase ⊢
  split at hr
  next us =>
    cases room with
    | zero => cases hr
    | succ room =>
      obtain ⟨⟨exponent, rest'⟩, he, hr⟩ := bind_eq_ok hr
      cases hr
      have hexponent := deeper room (by omega) he
      simp only [Level.height, Expr.height, wholeHeight] at hbase hexponent ⊢
      omega
  next =>
    cases hr
    omega

theorem suffixed_low {room : Nat} (deeper : ∀ r < room, Low r .whole) (h : Low room .primary) :
    Low room .suffixed := by
  intro ts e rest hr
  rw [readLevel] at hr
  obtain ⟨⟨base, mid⟩, hb, hs⟩ := bind_eq_ok hr
  have hbase := h hb
  have hsuffixes := readSuffixes_height deeper hs
  simp only [Level.height] at hbase ⊢
  omega

theorem name_low {room : Nat} (h : Low room .whole) {s : String} {ts : List Token} {e : Expr}
    {rest : List Token} (hr : readLevel room .primary (.name s :: ts) = .ok (e, rest)) :
    e.height ≤ wholeHeight room + 1 := by
  have leaf : 1 ≤ wholeHeight room + 1 := Nat.le_add_left 1 _
  rw [readLevel.eq_def] at hr
  simp only at hr
  split at hr
  next =>
    cases hr
    exact leaf
  split at hr
  next =>
    cases hr
    exact leaf
  split at hr
  next =>
    cases hr
    exact leaf
  split at hr
  next =>
    obtain ⟨⟨es, rest'⟩, hes, hr⟩ := bind_eq_ok hr
    cases hr
    exact Nat.succ_le_succ (readItems_height h hes)
  next =>
    cases hr
    exact leaf

theorem primary_low {room : Nat} (h : Low room .whole) : Low room .primary := by
  intro ts e rest hr
  have leaf : 1 ≤ wholeHeight room + 1 := Nat.le_add_left 1 _
  by_cases hname : ∃ s us, ts = .name s :: us
  · obtain ⟨s, us, rfl⟩ := hname
    exact name_low h hr
  rw [readLevel.eq_def] at hr
  simp only at hr
  split at hr
  next n ts =>
    cases hr
    exact leaf
  next x ts =>
    cases hr
    exact leaf
  next s ts =>
    cases hr
    exact leaf
  next s ts => exact absurd ⟨s, ts, rfl⟩ hname
  next ts =>
    obtain ⟨⟨i, mid⟩, hi, hr⟩ := bind_eq_ok hr
    obtain ⟨⟨_, rest'⟩, hx, hr⟩ := bind_eq_ok hr
    cases hr
    exact Nat.le_trans (h hi) (Nat.le_succ _)
  next ts =>
    obtain ⟨⟨es, rest'⟩, hes, hr⟩ := bind_eq_ok hr
    cases hr
    exact Nat.succ_le_succ (readItems_height h hes)
  next => cases hr

/-- Each level from the next lower one, the lowest from the levels with less room. -/
theorem readLevel_low (room : Nat) : ∀ l, Low room l := by
  induction room using Nat.strongRecOn with
  | ind room deeper =>
    have at_level : ∀ l, ∀ r < room, Low r l := fun l r hr => deeper r hr l
    have primary : Low room .primary := primary_low (whole_low (at_level _))
    have suffixed : Low room .suffixed := suffixed_low (at_level _) primary
    have power : Low room .power := power_low (at_level _) suffixed
    have unary : Low room .unary := unary_low (at_level _) power
    have product : Low room .product := operands_low .product (at_level _) unary
    have sum : Low room .sum := operands_low .sum (at_level _) product
    have comparison : Low room .comparison := comparison_low sum
    have not : Low room .not := not_low (at_level _) comparison
    have and : Low room .and := operands_low .and (at_level _) not
    have or : Low room .or := operands_low .or (at_level _) and
    intro l
    cases l <;> first | assumption | exact whole_low (at_level _)

/--
What is read is no higher than this. The limit of nesting bounds each chain and each pile of
brackets by itself, but chains can stand around brackets that hold chains again.
-/
theorem read_height_le {source : String} {e : Expr} (h : Expr.read source = .ok e) :
    e.height ≤ wholeHeight maxNesting := by
  rw [Expr.read] at h
  obtain ⟨ts, -, h⟩ := bind_eq_ok h
  rw [Expr.ofTokens] at h
  obtain ⟨⟨e', rest⟩, hr, hend⟩ := bind_eq_ok h
  have hlow : e'.height ≤ wholeHeight maxNesting := readLevel_low _ _ hr
  cases rest with
  | nil =>
    cases hend
    exact hlow
  | cons t rest => cases hend

example : wholeHeight maxNesting = 24950 := rfl

/-- A one with minus signs before it, to which ones are added. -/
def signedSum (signs ones : Nat) : String :=
  String.ofList (List.replicate signs '-' ++ '1' :: (List.replicate ones ['+', '1']).flatten)

theorem read_signedSum_height :
    (Expr.read (signedSum 60 60)).toOption.map Expr.height = some 121 := by
  decide +kernel

/-- The room that signs take is free again for the operators after their operand. -/
theorem height_exceeds_nesting :
    ∃ source e, Expr.read source = .ok e ∧ maxNesting < e.height := by
  obtain ⟨e, he, hheight⟩ := Option.map_eq_some_iff.mp read_signedSum_height
  refine ⟨signedSum 60 60, e, ?_, ?_⟩
  · cases hr : Expr.read (signedSum 60 60) with
    | error cause =>
      rw [hr] at he
      cases he
    | ok e' =>
      rw [hr] at he
      cases he
      rfl
  · rw [hheight]
    decide

end TrialLoop
