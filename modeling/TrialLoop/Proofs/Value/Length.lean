import TrialLoop.Value.Arith
import Mathlib.Algebra.Group.Nat.Defs

namespace TrialLoop

theorem utf8ByteSize_appendTimes (acc s : String) (n : Nat) :
    (appendTimes acc s n).utf8ByteSize = acc.utf8ByteSize + s.utf8ByteSize * n := by
  induction n generalizing acc with
  | zero => rfl
  | succ n ih =>
    rw [appendTimes, ih, String.utf8ByteSize_append, Nat.mul_succ]
    omega

theorem utf8ByteSize_repeatText (s : String) (n : Nat) :
    (repeatText s n).utf8ByteSize = s.utf8ByteSize * n := by
  unfold repeatText
  split
  next hs => simp [hs]
  next => rw [utf8ByteSize_appendTimes, String.utf8ByteSize_empty, Nat.zero_add]

namespace Value

/-- The length of a value that has one: the bytes of a text, the items of a list. -/
def extent : Value → Nat
  | str s => s.utf8ByteSize
  | list items => items.length
  | _ => 0

/-- A result is a number, if there is one. -/
def GivesNumber (r : Except EvalError Value) : Prop :=
  ∀ v, r = .ok v → v.isNumber = true

@[simp]
theorem givesNumber_error (cause : EvalError) : GivesNumber (.error cause) :=
  nofun

@[simp]
theorem givesNumber_ok {v : Value} : GivesNumber (.ok v) ↔ v.isNumber = true :=
  ⟨fun h => h v rfl, fun h _ hv => Except.ok.inj hv ▸ h⟩

theorem extent_of_isNumber {v : Value} (h : v.isNumber = true) : v.extent = 0 := by
  cases v with
  | int | float => rfl
  | null | bool | str | list => cases h

variable {a b v : Value}

section Numbers

theorem isNumber_exactOr (n : Int) (x : Float) : (exactOr n x).isNumber = true := by
  unfold exactOr
  split <;> rfl

theorem numeric_givesNumber (op : Operator) (exact : Int → Int → Int)
    (rounded : Float → Float → Float) (a b : Value) :
    GivesNumber (numeric op exact rounded a b) := by
  unfold numeric
  split
  next => exact givesNumber_ok.mpr (isNumber_exactOr _ _)
  next => split <;> simp [isNumber]

theorem div_givesNumber (a b : Value) : GivesNumber (div a b) := by
  unfold div
  split
  next => split <;> simp [isNumber]
  next => simp

theorem floorDiv_givesNumber (a b : Value) : GivesNumber (floorDiv a b) := by
  unfold floorDiv
  split
  next =>
    split
    next => simp
    next => split <;> simp [isNumber]
  next =>
    split
    next => split <;> simp [isNumber]
    next => simp

theorem rem_givesNumber (a b : Value) : GivesNumber (rem a b) := by
  unfold rem
  split
  next => split <;> simp [isNumber]
  next =>
    split
    next => split <;> simp [isNumber]
    next => simp

theorem pow_givesNumber (a b : Value) : GivesNumber (pow a b) := by
  unfold pow
  dsimp only
  split <;> simp [isNumber]

theorem neg_givesNumber (a : Value) : GivesNumber (neg a) := by
  cases a with
  | int n => exact givesNumber_ok.mpr (isNumber_exactOr _ _)
  | float | bool => exact givesNumber_ok.mpr rfl
  | null | str | list => exact givesNumber_error _

end Numbers

/-- Texts and lists are joined whatever their lengths are; other sums are numbers. -/
theorem extent_add (h : add a b = .ok v) :
    v.extent = if a.kind = b.kind then a.extent + b.extent else 0 := by
  unfold add at h
  split at h
  next s t =>
    obtain rfl := Except.ok.inj h
    exact String.utf8ByteSize_append
  next as bs =>
    obtain rfl := Except.ok.inj h
    exact List.length_append
  next hstr hlist =>
    rw [extent_of_isNumber (numeric_givesNumber _ _ _ _ _ _ h)]
    split
    next hkind => cases a <;> cases b <;> simp_all [kind, extent]
    next => rfl

theorem repeated_of_le {s : String} {n : Int64}
    (h : s.utf8ByteSize * n.toInt.toNat ≤ maxLength) :
    repeated s n = .ok (str (repeatText s n.toInt.toNat)) :=
  if_pos h

/-- A text is repeated only as often as the bound on its length allows. -/
theorem extent_repeated_le {s : String} {n : Int64} (h : repeated s n = .ok v) :
    v.extent ≤ maxLength := by
  unfold repeated at h
  dsimp only at h
  split at h
  next hle =>
    obtain rfl := Except.ok.inj h
    rwa [extent, utf8ByteSize_repeatText]
  next => cases h

theorem extent_mul_le (h : mul a b = .ok v) : v.extent ≤ maxLength := by
  unfold mul at h
  split at h
  next => exact extent_repeated_le h
  next => exact extent_repeated_le h
  next =>
    rw [extent_of_isNumber (numeric_givesNumber _ _ _ _ _ _ h)]
    exact Nat.zero_le _

/--
The result of an operation is within the bound on lengths exactly if it is not a sum of two texts,
or of two lists, that are too long together.
-/
theorem extent_arith_le_iff {op : Operator} (h : arith op a b = .ok v) :
    v.extent ≤ maxLength ↔
      (op = .add → a.kind = b.kind → a.extent + b.extent ≤ maxLength) := by
  have hnumber {r : Except EvalError Value} (hr : GivesNumber r) (hv : r = .ok v) :
      v.extent ≤ maxLength := by
    rw [extent_of_isNumber (hr v hv)]
    exact Nat.zero_le _
  cases op with
  | add =>
    rw [extent_add h, imp_iff_right rfl]
    split
    next hkind => exact (imp_iff_right hkind).symm
    next hkind => exact iff_of_true (Nat.zero_le _) fun he => absurd he hkind
  | mul => exact iff_of_true (extent_mul_le h) nofun
  | sub => exact iff_of_true (hnumber (numeric_givesNumber _ _ _ _ _) h) nofun
  | div => exact iff_of_true (hnumber (div_givesNumber a b) h) nofun
  | floorDiv => exact iff_of_true (hnumber (floorDiv_givesNumber a b) h) nofun
  | rem => exact iff_of_true (hnumber (rem_givesNumber a b) h) nofun
  | pow => exact iff_of_true (hnumber (pow_givesNumber a b) h) nofun

/-- A value that is added to itself, and what this gives again, a number of times. -/
def doubled (v : Value) : Nat → Except EvalError Value
  | 0 => .ok v
  | n + 1 => doubled v n >>= fun w => add w w

/-- No sum is refused on the way, however long the text has become. -/
theorem exists_doubled (s : String) (n : Nat) :
    ∃ t, doubled (str s) n = .ok (str t) ∧ t.utf8ByteSize = s.utf8ByteSize * 2 ^ n := by
  induction n with
  | zero => exact ⟨s, rfl, (Nat.mul_one _).symm⟩
  | succ n ih =>
    obtain ⟨t, ht, hsize⟩ := ih
    refine ⟨t ++ t, ?_, ?_⟩
    · rw [doubled, ht]
      rfl
    · rw [String.utf8ByteSize_append, hsize, Nat.pow_succ, ← Nat.mul_assoc, Nat.mul_two]

/-- A text that is repeated up to the bound can still be added to. -/
theorem add_exceeds_maxLength {s t : String} {n : Int64}
    (hn : s.utf8ByteSize * n.toInt.toNat = maxLength) (ht : t ≠ "") :
    ∃ v w, arith .mul (str s) (int n) = .ok v ∧ v.extent = maxLength ∧
      arith .add v (str t) = .ok w ∧ maxLength < w.extent := by
  have hsize := (utf8ByteSize_repeatText s n.toInt.toNat).trans hn
  refine ⟨_, _, repeated_of_le (Nat.le_of_eq hn), hsize, rfl, ?_⟩
  have hpos : t.utf8ByteSize ≠ 0 := mt String.utf8ByteSize_eq_zero_iff.mp ht
  rw [extent, String.utf8ByteSize_append, hsize]
  omega

/-- The operands are the ones of `'aaaaaaaaaaaaaaaa' * 1048576 + 'a'`. -/
example : ∃ v w, arith .mul (str "aaaaaaaaaaaaaaaa") (int 1048576) = .ok v ∧
    v.extent = maxLength ∧ arith .add v (str "a") = .ok w ∧ maxLength < w.extent :=
  add_exceeds_maxLength (by decide +kernel) (by decide)

end Value

end TrialLoop
