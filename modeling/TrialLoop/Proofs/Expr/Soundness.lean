import TrialLoop.Proofs.Except
import TrialLoop.Proofs.Expr.Derivation

namespace TrialLoop

/-- The level of what is inside brackets is that of its loosest operator. -/
def Level.inner : Level → Level
  | whole => or
  | l => l

/-- What is read at a level is derived at the level, from the tokens that are taken. -/
def Sound (room : Nat) (l : Level) : Prop :=
  ∀ ⦃ts e rest⦄, readLevel room l ts = .ok (e, rest) →
    ∃ us, ts = us ++ rest ∧ Derives us (.level l.inner e)

theorem Level.Joins.inner_eq {l k : Level} (h : l.Joins k) : l.inner = l ∧ k.inner = k := by
  cases h <;> exact ⟨rfl, rfl⟩

theorem expect_sound {closing : Token → Bool} {what : String} {ts rest : List Token} {u : Unit}
    (h : expect closing what ts = .ok (u, rest)) : ∃ t, closing t ∧ ts = t :: rest := by
  cases ts with
  | nil => cases h
  | cons t us =>
    rw [expect] at h
    split at h
    next hc =>
      cases h
      exact ⟨t, hc, rfl⟩
    next => cases h

theorem readLinks_sound {room : Nat} (h : Sound room .sum) :
    ∀ {bound ts : List Token} {links rest},
      readLinks (fun ts => readLevel room .sum ts) bound ts = .ok (links, rest) →
        ∃ us, ts = us ++ rest ∧ Derives us (.links links) := by
  intro bound
  induction bound with
  | nil =>
    intro ts links rest hr
    cases ts <;> cases hr <;> exact ⟨[], rfl, .linksEnd⟩
  | cons _ bound ih =>
    intro ts links rest hr
    cases ts with
    | nil =>
      cases hr
      exact ⟨[], rfl, .linksEnd⟩
    | cons t ts =>
      rw [readLinks] at hr
      split at hr
      next =>
        cases hr
        exact ⟨[], rfl, .linksEnd⟩
      next op hop =>
        obtain ⟨⟨e, mid⟩, he, hr⟩ := bind_eq_ok hr
        obtain ⟨⟨more, rest'⟩, hm, hr⟩ := bind_eq_ok hr
        cases hr
        obtain ⟨us, rfl, hus⟩ := h he
        obtain ⟨vs, rfl, hvs⟩ := ih hm
        exact ⟨t :: us ++ vs, by simp, .link (comparison?_eq_some.mp hop) hus hvs⟩

/-- After an item a comma and more items follow, or the closing bracket. -/
theorem more_sound {room : Nat} (h : Sound room .whole) {closing : Token → Bool}
    {bound : List Token}
    (items : ∀ {ts es rest},
      readItems (fun ts => readLevel room .whole ts) closing bound ts = .ok (es, rest) →
        ∃ us t, closing t ∧ ts = us ++ t :: rest ∧ Derives us (.items es))
    {ts : List Token} {es : List Expr} {rest : List Token}
    (hr : readItems.more (fun ts => readLevel room .whole ts) closing bound
      (readLevel room .whole ts) = .ok (es, rest)) :
    ∃ us t, closing t ∧ ts = us ++ t :: rest ∧ Derives us (.items es) := by
  rw [readItems.more] at hr
  obtain ⟨⟨e, mid⟩, he, hm⟩ := bind_eq_ok hr
  obtain ⟨us, rfl, hus⟩ := h he
  cases mid with
  | nil => cases hm
  | cons t mid =>
    simp only at hm
    split at hm
    next hc =>
      cases hm
      exact ⟨us, t, hc, rfl, .lastItem hus⟩
    next =>
      split at hm
      next =>
        obtain ⟨⟨es, rest'⟩, hes, hm⟩ := bind_eq_ok hm
        cases hm
        obtain ⟨vs, c, hc, rfl, hvs⟩ := items hes
        exact ⟨us ++ .comma :: vs, c, hc, by simp, .item hus hvs⟩
      next => cases hm

theorem readItems_sound {room : Nat} (h : Sound room .whole) {closing : Token → Bool} :
    ∀ {bound ts : List Token} {es rest},
      readItems (fun ts => readLevel room .whole ts) closing bound ts = .ok (es, rest) →
        ∃ us t, closing t ∧ ts = us ++ t :: rest ∧ Derives us (.items es) := by
  intro bound
  induction bound with
  | nil =>
    intro ts es rest hr
    rw [readItems] at hr
    cases hr
  | cons _ bound ih =>
    intro ts es rest hr
    cases ts with
    | nil =>
      rw [readItems] at hr
      exact more_sound h ih hr
    | cons t ts =>
      rw [readItems] at hr
      split at hr
      next hc =>
        cases hr
        exact ⟨[], t, hc, rfl, .noItems⟩
      next => exact more_sound h ih hr

theorem readJoined_sound {l k : Level} (hlk : l.Joins k) {room : Nat}
    (deeper : ∀ r < room, Sound r k) :
    ∀ {first : Expr} {ts : List Token} {e rest}, readJoined room l first ts = .ok (e, rest) →
      ∃ us, ts = us ++ rest ∧ Derives us (.joined l first e) := by
  induction room using Nat.strongRecOn with
  | ind room ih =>
    intro first ts e rest h
    cases ts with
    | nil =>
      rw [readJoined] at h
      cases h
      exact ⟨[], rfl, .joinedEnd⟩
    | cons t ts =>
      rw [readJoined] at h
      split at h
      next =>
        cases h
        exact ⟨[], rfl, .joinedEnd⟩
      next f hf =>
        cases room with
        | zero => cases h
        | succ room =>
          obtain ⟨⟨right, mid⟩, hr, hj⟩ := bind_eq_ok h
          rw [hlk.operand_eq] at hr
          obtain ⟨us, rfl, hus⟩ := deeper room (by omega) hr
          obtain ⟨vs, rfl, hvs⟩ := ih room (by omega) (fun r hlt => deeper r (by omega)) hj
          rw [hlk.inner_eq.2] at hus
          exact ⟨t :: us ++ vs, by simp, .join hlk (joining?_eq_some.mp hf) hus hvs⟩

theorem readSuffixes_sound {room : Nat} (deeper : ∀ r < room, Sound r .whole) :
    ∀ {base : Expr} {ts : List Token} {e rest}, readSuffixes room base ts = .ok (e, rest) →
      ∃ us, ts = us ++ rest ∧ Derives us (.suffixes base e) := by
  induction room using Nat.strongRecOn with
  | ind room ih =>
    intro base ts e rest h
    rw [readSuffixes.eq_def] at h
    split at h
    next ts =>
      cases room with
      | zero => cases h
      | succ room =>
        simp only at h
        split at h
        next s ts =>
          obtain ⟨us, rfl, hus⟩ := ih room (by omega) (fun r hlt => deeper r (by omega)) h
          exact ⟨.dot :: .name s :: us, rfl, .member hus⟩
        next => cases h
    next ts =>
      cases room with
      | zero => cases h
      | succ room =>
        obtain ⟨⟨i, mid⟩, hi, h⟩ := bind_eq_ok h
        obtain ⟨⟨_, rest'⟩, hx, hs⟩ := bind_eq_ok h
        obtain ⟨us, rfl, hus⟩ := deeper room (by omega) hi
        obtain ⟨t, ht, rfl⟩ := expect_sound hx
        rw [isCloseBracket_iff] at ht
        obtain ⟨vs, rfl, hvs⟩ := ih room (by omega) (fun r hlt => deeper r (by omega)) hs
        exact ⟨.openBracket :: us ++ .closeBracket :: vs, by simp [ht], .index hus hvs⟩
    next =>
      cases h
      exact ⟨[], rfl, .suffixesEnd⟩

theorem operands_sound {l k : Level} (hlk : l.Joins k) {room : Nat}
    (deeper : ∀ r < room, Sound r k) (h : Sound room k) : Sound room l := by
  intro ts e rest hr
  rw [readLevel_operands hlk] at hr
  obtain ⟨⟨first, mid⟩, hf, hj⟩ := bind_eq_ok hr
  obtain ⟨us, rfl, hus⟩ := h hf
  obtain ⟨vs, rfl, hvs⟩ := readJoined_sound hlk deeper hj
  rw [hlk.inner_eq.1]
  rw [hlk.inner_eq.2] at hus
  exact ⟨us ++ vs, by simp, .operands hlk hus hvs⟩

theorem whole_sound {room : Nat} (deeper : ∀ r < room, Sound r .or) : Sound room .whole := by
  intro ts e rest h
  rw [readLevel.eq_def] at h
  cases room with
  | zero => cases h
  | succ room => exact deeper room (by omega) h

theorem applied_sound {room : Nat} {l : Level} (deeper : ∀ r < room, Sound r l) {t : Token}
    {op : UnaryOperator} (h : (t, op) ∈ l.prefixes) {ts : List Token} {e : Expr}
    {rest : List Token} (hr : readLevel room l (t :: ts) = .ok (e, rest)) :
    ∃ us, t :: ts = us ++ rest ∧ Derives us (.level l.inner e) := by
  have hinner : l.inner = l := by
    cases l <;> first | rfl | cases h
  rw [readLevel_applied h] at hr
  cases room with
  | zero => cases hr
  | succ room =>
    obtain ⟨⟨e, rest'⟩, he, hr⟩ := bind_eq_ok hr
    cases hr
    obtain ⟨us, rfl, hus⟩ := deeper room (by omega) he
    rw [hinner] at hus ⊢
    exact ⟨t :: us, rfl, .applied h hus⟩

theorem not_sound {room : Nat} (deeper : ∀ r < room, Sound r .not) (h : Sound room .comparison) :
    Sound room .not := by
  intro ts e rest hr
  by_cases ht : ∃ us, ts = .not :: us
  · obtain ⟨us, rfl⟩ := ht
    exact applied_sound deeper (List.mem_singleton_self _) hr
  · rw [readLevel.eq_def] at hr
    simp only at hr
    split at hr
    next us => exact absurd ⟨us, rfl⟩ ht
    next =>
      obtain ⟨us, hts, hus⟩ := h hr
      exact ⟨us, hts, .comparison hus⟩

theorem comparison_sound {room : Nat} (h : Sound room .sum) : Sound room .comparison := by
  intro ts e rest hr
  rw [readLevel] at hr
  obtain ⟨⟨first, mid⟩, hf, hr⟩ := bind_eq_ok hr
  obtain ⟨⟨links, rest'⟩, hl, hr⟩ := bind_eq_ok hr
  cases hr
  obtain ⟨us, rfl, hus⟩ := h hf
  obtain ⟨vs, rfl, hvs⟩ := readLinks_sound h hl
  cases links with
  | nil =>
    cases hvs
    exact ⟨us, by simp, .sum hus⟩
  | cons link links => exact ⟨us ++ vs, by simp, .compare hus hvs⟩

theorem unary_sound {room : Nat} (deeper : ∀ r < room, Sound r .unary) (h : Sound room .power) :
    Sound room .unary := by
  intro ts e rest hr
  by_cases ht : ∃ t op us, (t, op) ∈ Level.unary.prefixes ∧ ts = t :: us
  · obtain ⟨t, op, us, hop, rfl⟩ := ht
    exact applied_sound deeper hop hr
  · rw [readLevel.eq_def] at hr
    simp only at hr
    split at hr
    next us => exact absurd ⟨.minus, .neg, us, by simp [Level.prefixes], rfl⟩ ht
    next us => exact absurd ⟨.plus, .pos, us, by simp [Level.prefixes], rfl⟩ ht
    next =>
      obtain ⟨us, hts, hus⟩ := h hr
      exact ⟨us, hts, .power hus⟩

theorem power_sound {room : Nat} (deeper : ∀ r < room, Sound r .unary)
    (h : Sound room .suffixed) : Sound room .power := by
  intro ts e rest hr
  rw [readLevel] at hr
  obtain ⟨⟨base, mid⟩, hb, hp⟩ := bind_eq_ok hr
  obtain ⟨us, rfl, hus⟩ := h hb
  simp only at hp
  split at hp
  next mid =>
    cases room with
    | zero => cases hp
    | succ room =>
      obtain ⟨⟨e, rest'⟩, he, hp⟩ := bind_eq_ok hp
      cases hp
      obtain ⟨vs, rfl, hvs⟩ := deeper room (by omega) he
      exact ⟨us ++ .starStar :: vs, by simp, .raised hus hvs⟩
  next =>
    cases hp
    exact ⟨us, rfl, .suffixed hus⟩

theorem suffixed_sound {room : Nat} (deeper : ∀ r < room, Sound r .whole)
    (h : Sound room .primary) : Sound room .suffixed := by
  intro ts e rest hr
  rw [readLevel] at hr
  obtain ⟨⟨base, mid⟩, hb, hs⟩ := bind_eq_ok hr
  obtain ⟨us, rfl, hus⟩ := h hb
  obtain ⟨vs, rfl, hvs⟩ := readSuffixes_sound deeper hs
  exact ⟨us ++ vs, by simp, .primary hus hvs⟩

theorem call_sound {room : Nat} (h : Sound room .whole) {bound ts rest : List Token} {s : String}
    {e : Expr} (hs : s ∉ wordValues.map Prod.fst)
    (hr : (do
      let (es, rest) ← readItems (fun ts => readLevel room .whole ts) Token.isCloseParen bound ts
      .ok (.call s es, rest)) = Except.ok (e, rest)) :
    ∃ us, .name s :: .openParen :: ts = us ++ rest ∧ Derives us (.level .primary e) := by
  obtain ⟨⟨es, rest'⟩, hes, hr⟩ := bind_eq_ok hr
  cases hr
  obtain ⟨us, t, ht, rfl, hus⟩ := readItems_sound h hes
  rw [isCloseParen_iff] at ht
  exact ⟨.name s :: .openParen :: us ++ [.closeParen], by simp [ht], .call hs hus⟩

/-- A name is a value, or else a call if a parenthesis follows it. -/
theorem name_sound {room : Nat} (h : Sound room .whole) {s : String} {ts : List Token} {e : Expr}
    {rest : List Token} (hr : readLevel room .primary (.name s :: ts) = .ok (e, rest)) :
    ∃ us, .name s :: ts = us ++ rest ∧ Derives us (.level .primary e) := by
  rw [readLevel.eq_def] at hr
  simp only at hr
  split at hr
  next hs =>
    cases hr
    exact ⟨[.name s], rfl, .word (by simpa [wordValues] using hs)⟩
  next ht =>
    split at hr
    next hs =>
      cases hr
      exact ⟨[.name s], rfl, .word (by simpa [wordValues] using hs)⟩
    next hf =>
      split at hr
      next hs =>
        cases hr
        exact ⟨[.name s], rfl, .word (by simp [wordValues, hs])⟩
      next hn =>
        have hs : s ∉ wordValues.map Prod.fst := by
          simp only [wordValues, List.map_cons, List.map_nil, List.mem_cons]
          grind
        split at hr
        next ts => exact call_sound h hs hr
        next =>
          cases hr
          exact ⟨[.name s], rfl, .name hs⟩

theorem primary_sound {room : Nat} (h : Sound room .whole) : Sound room .primary := by
  intro ts e rest hr
  by_cases hname : ∃ s us, ts = .name s :: us
  · obtain ⟨s, us, rfl⟩ := hname
    exact name_sound h hr
  rw [readLevel.eq_def] at hr
  simp only at hr
  split at hr
  next n ts =>
    cases hr
    exact ⟨[.int n], rfl, .int⟩
  next x ts =>
    cases hr
    exact ⟨[.float x], rfl, .float⟩
  next s ts =>
    cases hr
    exact ⟨[.str s], rfl, .str⟩
  next s ts => exact absurd ⟨s, ts, rfl⟩ hname
  next ts =>
    obtain ⟨⟨i, mid⟩, hi, hr⟩ := bind_eq_ok hr
    obtain ⟨⟨_, rest'⟩, hx, hr⟩ := bind_eq_ok hr
    cases hr
    obtain ⟨us, rfl, hus⟩ := h hi
    obtain ⟨t, ht, rfl⟩ := expect_sound hx
    rw [isCloseParen_iff] at ht
    exact ⟨.openParen :: us ++ [.closeParen], by simp [ht], .group hus⟩
  next ts =>
    obtain ⟨⟨es, rest'⟩, hes, hr⟩ := bind_eq_ok hr
    cases hr
    obtain ⟨us, t, ht, rfl, hus⟩ := readItems_sound h hes
    rw [isCloseBracket_iff] at ht
    exact ⟨.openBracket :: us ++ [.closeBracket], by simp [ht], .list hus⟩
  next => cases hr

/-- Each level from the next lower one, the lowest from the levels with less room. -/
theorem readLevel_sound (room : Nat) : ∀ l, Sound room l := by
  induction room using Nat.strongRecOn with
  | ind room deeper =>
    have at_level : ∀ l, ∀ r < room, Sound r l := fun l r hr => deeper r hr l
    have primary : Sound room .primary := primary_sound (whole_sound (at_level _))
    have suffixed : Sound room .suffixed := suffixed_sound (at_level _) primary
    have power : Sound room .power := power_sound (at_level _) suffixed
    have unary : Sound room .unary := unary_sound (at_level _) power
    have product : Sound room .product := operands_sound .product (at_level _) unary
    have sum : Sound room .sum := operands_sound .sum (at_level _) product
    have comparison : Sound room .comparison := comparison_sound sum
    have not : Sound room .not := not_sound (at_level _) comparison
    have and : Sound room .and := operands_sound .and (at_level _) not
    have or : Sound room .or := operands_sound .or (at_level _) and
    intro l
    cases l <;> first | assumption | exact whole_sound (at_level _)

theorem ofTokens_sound {ts : List Token} {e : Expr} (h : Expr.ofTokens ts = .ok e) :
    Derives ts (.level .or e) := by
  rw [Expr.ofTokens] at h
  obtain ⟨⟨e', rest⟩, hr, hend⟩ := bind_eq_ok h
  obtain ⟨us, rfl, hus⟩ := readLevel_sound _ _ hr
  cases rest with
  | nil =>
    cases hend
    rwa [List.append_nil]
  | cons t rest => cases hend

end TrialLoop
