import TrialLoop.Proofs.Number.WordFloat

namespace TrialLoop

namespace Value

/-- A number in a comparison: an integer, a text that is one, or a text that is a double. -/
inductive Numeric where
  | int (n : Int64)
  | textInt (n : Int64)
  | textFloat (x : Float)

namespace Numeric

def double : Numeric → Float
  | int n => intFloat n
  | textInt n => intFloat n
  | textFloat x => x

def key (p : Numeric) : ℤ ×ₗ ℤ ×ₗ ℤ :=
  doubleKey p.double

/-- Two integers, or two texts that are integers, which alone are compared exactly. -/
def words? : Numeric → Numeric → Option (ℤ × ℤ)
  | int m, int n => some (m.toInt, n.toInt)
  | textInt m, textInt n => some (m.toInt, n.toInt)
  | _, _ => none

def order? (p q : Numeric) : Option Ordering :=
  match words? p q with
  | some (i, j) => some (compare i j)
  | none => floatOrder? p.double q.double

variable {p q r : Numeric} {o o' : Ordering}

theorem words?_key {i j : ℤ} (h : words? p q = some (i, j)) :
    (Proper p.double ∧ p.key = wordKey i) ∧ Proper q.double ∧ q.key = wordKey j := by
  cases p <;> cases q <;> cases h <;>
    exact ⟨⟨proper_intFloat _, doubleKey_intFloat _⟩, proper_intFloat _, doubleKey_intFloat _⟩

/-- Between two that are compared exactly stands one that is with both, or with none of them. -/
theorem words?_between {i j : ℤ} (h : words? p r = some (i, j)) (q : Numeric) :
    (∃ k, words? p q = some (i, k) ∧ words? q r = some (k, j)) ∨
      words? p q = none ∧ words? q r = none := by
  cases p <;> cases r <;> cases h <;> cases q <;>
    first
    | exact Or.inl ⟨_, rfl, rfl⟩
    | exact Or.inr ⟨rfl, rfl⟩

theorem order?_exact {i j : ℤ} (h : words? p q = some (i, j)) :
    p.order? q = some (compare i j) := by
  rw [order?, h]

theorem order?_double (h : words? p q = none) (ho : p.order? q = some o) :
    compare p.key q.key = o := by
  rw [order?, h] at ho
  exact (floatOrder?_eq_some_iff.mp ho).2.2

theorem proper_of_order? (h : p.order? q = some o) : Proper p.double ∧ Proper q.double := by
  cases hwords : words? p q with
  | some pair =>
    obtain ⟨hp, hq⟩ := words?_key hwords
    exact ⟨hp.1, hq.1⟩
  | none =>
    rw [order?, hwords] at h
    obtain ⟨hp, hq, -⟩ := floatOrder?_eq_some_iff.mp h
    exact ⟨hp, hq⟩

theorem exists_order (hp : Proper p.double) (hq : Proper q.double) : ∃ o, p.order? q = some o := by
  cases hwords : words? p q with
  | some pair => exact ⟨_, order?_exact hwords⟩
  | none =>
    refine ⟨compare p.key q.key, ?_⟩
    rw [order?, hwords]
    exact floatOrder?_eq_some_iff.mpr ⟨hp, hq, rfl⟩

theorem order?_self (hp : Proper p.double) : p.order? p = some .eq := by
  obtain ⟨o, ho⟩ := exists_order hp hp
  cases hwords : words? p p with
  | some pair =>
    have hpair : pair.1 = pair.2 := by
      cases p <;> cases hwords <;> rfl
    rw [order?_exact hwords, hpair, Std.ReflOrd.compare_self]
  | none =>
    rw [ho, ← order?_double hwords ho, Std.ReflOrd.compare_self]

theorem key_le_of_order? (h : p.order? q = some o) (ho : o ≠ .gt) : p.key ≤ q.key := by
  cases hwords : words? p q with
  | some pair =>
    obtain ⟨⟨-, hp⟩, -, hq⟩ := words?_key hwords
    rw [order?_exact hwords] at h
    cases h
    rw [hp, hq]
    exact wordKey_mono (compare_le_iff_le.mp ho)
  | none =>
    rw [← order?_double hwords h] at ho
    exact compare_le_iff_le.mp ho

theorem words?_swap (p q : Numeric) : words? q p = (words? p q).map Prod.swap := by
  cases p <;> cases q <;> rfl

theorem order?_swap (h : p.order? q = some o) : q.order? p = some o.swap := by
  cases hwords : words? p q with
  | some pair =>
    have hback : words? q p = some (pair.2, pair.1) := by
      rw [words?_swap, hwords]
      rfl
    rw [order?_exact hwords] at h
    cases h
    rw [order?_exact hback, ← Std.OrientedOrd.eq_swap]
  | none =>
    have hback : words? q p = none := by
      rw [words?_swap, hwords]
      rfl
    obtain ⟨hp, hq⟩ := proper_of_order? h
    have hkeys := order?_double hwords h
    rw [order?, hback, ← hkeys, ← Std.OrientedOrd.eq_swap]
    exact floatOrder?_eq_some_iff.mpr ⟨hq, hp, rfl⟩

/-- With one of the two steps strict; two doubles may be equal to a third and differ as integers. -/
theorem le_trans_of_lt (hpq : p.order? q = some o) (hqr : q.order? r = some o') (ho : o ≠ .gt)
    (ho' : o' ≠ .gt) (hlt : o = .lt ∨ o' = .lt) : ∃ o, p.order? r = some o ∧ o ≠ .gt := by
  have hleft := key_le_of_order? hpq ho
  have hright := key_le_of_order? hqr ho'
  cases hwords : words? p r with
  | none =>
    obtain ⟨o, horder⟩ := exists_order (proper_of_order? hpq).1 (proper_of_order? hqr).2
    refine ⟨o, horder, ?_⟩
    rw [← order?_double hwords horder]
    exact compare_le_iff_le.mpr (le_trans hleft hright)
  | some pair =>
    obtain ⟨i, j⟩ := pair
    refine ⟨compare i j, order?_exact hwords, compare_le_iff_le.mpr ?_⟩
    rcases words?_between hwords q with ⟨k, hik, hkj⟩ | ⟨hik, hkj⟩
    · rw [order?_exact hik] at hpq
      rw [order?_exact hkj] at hqr
      cases hpq
      cases hqr
      exact le_trans (compare_le_iff_le.mp ho) (compare_le_iff_le.mp ho')
    · -- The doubles differ, and with them the integers.
      have hkeys : p.key < r.key := by
        rcases hlt with rfl | rfl
        · exact lt_of_lt_of_le (compare_lt_iff_lt.mp (order?_double hik hpq)) hright
        · exact lt_of_le_of_lt hleft (compare_lt_iff_lt.mp (order?_double hkj hqr))
      obtain ⟨⟨-, hp⟩, -, hr⟩ := words?_key hwords
      rw [hp, hr] at hkeys
      by_contra hji
      exact absurd (wordKey_mono (le_of_not_ge hji)) (not_le_of_gt hkeys)

/-- The same in either direction: none of the two steps goes the wanted way. -/
theorem trans_of_strict {wanted : Ordering} (hw : wanted ≠ .eq) (hpq : p.order? q = some o)
    (hqr : q.order? r = some o') (ho : o ≠ wanted) (ho' : o' ≠ wanted)
    (hstrict : o = wanted.swap ∨ o' = wanted.swap) : ∃ o, p.order? r = some o ∧ o ≠ wanted := by
  cases wanted with
  | eq => exact absurd rfl hw
  | gt => exact le_trans_of_lt hpq hqr ho ho' hstrict
  | lt =>
    have hback {o : Ordering} (h : o ≠ .lt) : o.swap ≠ .gt := by
      cases o with
      | lt => exact absurd rfl h
      | eq | gt => decide
    have hturn {o : Ordering} (h : o = .gt) : o.swap = .lt := by
      rw [h]
      rfl
    obtain ⟨o, hrp, hne⟩ := le_trans_of_lt (order?_swap hqr) (order?_swap hpq) (hback ho')
      (hback ho) (hstrict.symm.imp hturn hturn)
    refine ⟨o.swap, order?_swap hrp, ?_⟩
    cases o with
    | gt => exact absurd rfl hne
    | eq | lt => decide

end Numeric

end Value

end TrialLoop
