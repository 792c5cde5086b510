import TrialLoop.Value.Basic
import Mathlib.Algebra.Group.Int.Defs
import Mathlib.Algebra.Group.Nat.Defs
import Mathlib.Data.List.Induction
import Mathlib.Data.Nat.Init

namespace TrialLoop

theorem foldl_digits (a : Nat) (ds : List Char) :
    ds.foldl (fun n d => 10 * n + (d.toNat - '0'.toNat)) a =
      a * 10 ^ ds.length + digitsValue ds := by
  induction ds generalizing a with
  | nil => simp [digitsValue]
  | cons d ds ih =>
    have hd : digitsValue (d :: ds) =
        (d.toNat - '0'.toNat) * 10 ^ ds.length + digitsValue ds := by
      rw [digitsValue, List.foldl_cons, ih]
      simp
    rw [List.foldl_cons, ih, hd, List.length_cons, Nat.pow_succ]
    grind

theorem digitsValue_cons (d : Char) (ds : List Char) :
    digitsValue (d :: ds) = (d.toNat - '0'.toNat) * 10 ^ ds.length + digitsValue ds := by
  rw [digitsValue, List.foldl_cons, foldl_digits]
  simp

theorem digitsValue_append_digit (ds : List Char) (d : Char) :
    digitsValue (ds ++ [d]) = 10 * digitsValue ds + (d.toNat - '0'.toNat) := by
  rw [digitsValue, List.foldl_append]
  rfl

theorem digitsValue_append (ds es : List Char) :
    digitsValue (ds ++ es) = digitsValue ds * 10 ^ es.length + digitsValue es := by
  rw [digitsValue, List.foldl_append, foldl_digits]
  rfl

theorem digitsValue_append_zeros (ds : List Char) (k : Nat) :
    digitsValue (ds ++ List.replicate k '0') = digitsValue ds * 10 ^ k := by
  have hzeros : digitsValue (List.replicate k '0') = 0 := by
    induction k with
    | zero => rfl
    | succ k ih => simp [List.replicate_succ, digitsValue_cons, ih]
  rw [digitsValue_append, hzeros, List.length_replicate, Nat.add_zero]

theorem digitChar_value {n : Nat} (h : n < 10) : n.digitChar.toNat - '0'.toNat = n := by
  revert n
  decide

/-- The digits of a number stand for it. -/
theorem digitsValue_digits (n : Nat) : digitsValue (digits n) = n := by
  induction n using Nat.strong_induction_on with
  | _ n ih =>
    rw [digits, Nat.toDigits_eq_if (by decide)]
    split
    next hn => simpa [digitsValue] using digitChar_value hn
    next hn =>
      have hq : digitsValue (Nat.toDigits 10 (n / 10)) = n / 10 := ih (n / 10) (by omega)
      rw [digitsValue_append_digit, hq, digitChar_value (Nat.mod_lt n (by decide))]
      omega

theorem isDigit_of_mem_digits {n : Nat} {d : Char} (h : d ∈ digits n) : d.isDigit = true :=
  Nat.isDigit_of_mem_toDigits (by decide) (by decide) h

theorem digits_ne_nil (n : Nat) : digits n ≠ [] :=
  Nat.toDigits_ne_nil

theorem digitsValue_significant (ds : List Char) :
    digitsValue (significant ds) = digitsValue ds := by
  induction ds with
  | nil => rfl
  | cons d ds ih =>
    by_cases hd : d = '0'
    · subst hd
      rw [digitsValue_cons]
      simpa [significant] using ih
    · simp [significant, hd]

/-- A number has no more digits than it needs, once zeros are dropped from its front. -/
theorem pow_le_digitsValue {d : Char} {ds : List Char} (h : d.isDigit = true) (hd : d ≠ '0') :
    10 ^ ds.length ≤ digitsValue (d :: ds) := by
  have hlow : '0'.toNat < d.toNat := by
    have hle : '0'.toNat ≤ d.toNat := (Char.isDigit_iff_toNat.mp h).1
    have hne : '0'.toNat ≠ d.toNat := fun he => hd (Char.toNat_inj.mp he.symm)
    omega
  rw [digitsValue_cons]
  calc
    10 ^ ds.length = 1 * 10 ^ ds.length := (Nat.one_mul _).symm
    _ ≤ (d.toNat - '0'.toNat) * 10 ^ ds.length := Nat.mul_le_mul_right _ (by omega)
    _ ≤ _ := Nat.le_add_right _ _

theorem wordValue?_eq_some {ds : List Char} (h : ∀ d ∈ ds, d.isDigit = true)
    (hv : digitsValue ds < 10 ^ 20) : wordValue? ds = some (digitsValue ds) := by
  have hlen : (significant ds).length ≤ 20 := by
    rcases hs : significant ds with _ | ⟨d, rest⟩
    · simp
    · have hm : d ∈ significant ds := by simp [hs]
      have hz : d ≠ '0' := by
        have hh := List.head?_dropWhile_not (· == '0') ds
        rw [show ds.dropWhile (· == '0') = d :: rest from hs] at hh
        simpa using hh
      have hd := h d ((List.dropWhile_sublist _).subset hm)
      have hle : 10 ^ rest.length ≤ digitsValue (d :: rest) := pow_le_digitsValue hd hz
      rw [← hs, digitsValue_significant] at hle
      have hlt : 10 ^ rest.length < 10 ^ 20 := Nat.lt_of_le_of_lt hle hv
      have := (Nat.pow_lt_pow_iff_right (by decide)).mp hlt
      simp only [List.length_cons]
      omega
  rw [wordValue?, if_pos hlen, digitsValue_significant]

theorem wordValue?_value {ds : List Char} {m : Nat} (h : wordValue? ds = some m) :
    m = digitsValue ds := by
  unfold wordValue? at h
  split at h
  next => rw [← digitsValue_significant, ← Option.some.inj h]
  next => cases h

theorem digit_lt {d : Char} (h : d.isDigit = true) : d.toNat - '0'.toNat < 10 := by
  have hhigh := (Char.isDigit_iff_toNat.mp h).2
  have hzero : '0'.toNat = 48 := rfl
  have hnine : '9'.toNat = 57 := rfl
  omega

theorem digitChar_of_isDigit {d : Char} (h : d.isDigit = true) :
    (d.toNat - '0'.toNat).digitChar = d := by
  have hchar : ∀ n, n < 10 → n.digitChar.toNat = n + '0'.toNat := by decide
  have hlow := (Char.isDigit_iff_toNat.mp h).1
  exact Char.toNat_inj.mp ((hchar _ (digit_lt h)).trans (Nat.sub_add_cancel hlow))

theorem digitsValue_lt {ds : List Char} (h : ∀ d ∈ ds, d.isDigit = true) :
    digitsValue ds < 10 ^ ds.length := by
  induction ds with
  | nil => decide
  | cons d ds ih =>
    obtain ⟨hd, hds⟩ := List.forall_mem_cons.mp h
    have hstep := Nat.mul_le_mul_right (10 ^ ds.length) (Nat.le_of_lt_succ (digit_lt hd))
    have hrest := ih hds
    rw [digitsValue_cons, List.length_cons, Nat.pow_succ]
    omega

/-- Digits without a zero in front are those of the number that they stand for. -/
theorem digits_digitsValue {ds : List Char} (h : ∀ d ∈ ds, d.isDigit = true)
    (hhead : ds.head? ≠ some '0') (hne : ds ≠ []) : digits (digitsValue ds) = ds := by
  induction ds using List.reverseRecOn with
  | nil => exact absurd rfl hne
  | append_singleton ds d ih =>
    have hd := h d (by simp)
    have hsmall := digit_lt hd
    have hlast : Nat.toDigits 10 (d.toNat - '0'.toNat) = [d] := by
      rw [Nat.toDigits_of_lt_base hsmall, digitChar_of_isDigit hd]
    cases ds with
    | nil => simpa [digits, digitsValue] using hlast
    | cons c cs =>
      have hc : c ≠ '0' := fun he => hhead (by simp [he])
      have hpow := @pow_le_digitsValue c cs (h c (by simp)) hc
      have hpos : 0 < digitsValue (c :: cs) := Nat.lt_of_lt_of_le (Nat.pow_pos (by decide)) hpow
      have hdigits := ih (fun x hx => h x (List.mem_append_left _ hx)) (by simpa using hc) (by simp)
      rw [digitsValue_append_digit, digits, ← Nat.toDigits_append_toDigits (by decide) hpos hsmall,
        hlast]
      exact congrArg (· ++ [d]) hdigits

/-- The only number whose digits start with a zero is zero. -/
theorem digits_digitsValue_iff {ds : List Char} (h : ∀ d ∈ ds, d.isDigit = true) (hne : ds ≠ []) :
    digits (digitsValue ds) = ds ↔ ds = ['0'] ∨ ds.head? ≠ some '0' := by
  constructor
  · intro he
    cases ds with
    | nil => exact absurd rfl hne
    | cons d ds =>
      by_cases hd : d = '0'
      · subst hd
        refine .inl ?_
        have hlt := digitsValue_lt (fun d hd => h d (List.mem_cons_of_mem _ hd))
        have hzero : digitsValue ('0' :: ds) = digitsValue ds := by simp [digitsValue_cons]
        rw [hzero] at he
        by_cases hnil : ds = []
        · rw [hnil]
        · have hpos := List.length_pos_iff.mpr hnil
          have hshort := (Nat.length_toDigits_le_iff (by decide) hpos).mpr hlt
          have hlength := congrArg List.length he
          rw [digits, List.length_cons] at hlength
          omega
      · exact .inr (by simpa using hd)
  · rintro (rfl | hhead)
    · rfl
    · exact digits_digitsValue h hhead hne

theorem pow_length_digits_le {n : Nat} (h : n ≠ 0) : 10 ^ ((digits n).length - 1) ≤ n := by
  refine Nat.not_lt.mp fun hlt => ?_
  by_cases hone : (digits n).length - 1 = 0
  · rw [hone] at hlt
    omega
  · have hshort := (Nat.length_toDigits_le_iff (by decide) (Nat.pos_of_ne_zero hone)).mpr hlt
    have hlength : (Nat.toDigits 10 n).length = (digits n).length := rfl
    omega

end TrialLoop
