import TrialLoop.Proofs.Number.NumeralFloat
import TrialLoop.Proofs.Value.NumberOrder

namespace TrialLoop

namespace Value

/-- An integer or a text. -/
inductive IsScalar : Value → Prop
  | int (n : Int64) : IsScalar (int n)
  | str (s : String) : IsScalar (str s)

/-- The number that an integer or a text is in a comparison, if it is one. -/
def numeric? : Value → Option Numeric
  | int n => some (.int n)
  | str s =>
    match readNumber? s with
    | some (int n) => some (.textInt n)
    | some (float x) => some (.textFloat x)
    | _ => none
  | _ => none

variable {a b c v : Value} {s t u : String} {p q : Numeric} {o wanted : Ordering}

theorem readNumber?_cases (s : String) :
    readNumber? s = none ∨ (∃ n, readNumber? s = some (int n)) ∨
      ∃ x, readNumber? s = some (float x) ∧ Proper x := by
  rw [readNumber?]
  cases Numeral.read? (trim s.toList) with
  | none => exact Or.inl rfl
  | some n =>
    right
    rw [Option.map_some]
    cases n.int? with
    | none => exact Or.inr ⟨_, rfl, proper_numeral n⟩
    | some i => exact Or.inl ⟨_, rfl⟩

theorem numeric?_int_ne (n : Int64) : numeric? (int n) ≠ none :=
  Option.some_ne_none _

theorem numeric?_eq_none_iff : numeric? (str s) = none ↔ readNumber? s = none := by
  rw [numeric?]
  rcases readNumber?_cases s with h | ⟨n, h⟩ | ⟨x, h, -⟩ <;> simp [h]

theorem numeric?_str (h : numeric? (str s) = some p) :
    (∃ n, readNumber? s = some (int n) ∧ p = .textInt n) ∨
      ∃ x, readNumber? s = some (float x) ∧ Proper x ∧ p = .textFloat x := by
  rw [numeric?] at h
  rcases readNumber?_cases s with hread | ⟨n, hread⟩ | ⟨x, hread, hx⟩ <;>
    rw [hread] at h <;> cases h
  · exact Or.inl ⟨n, hread, rfl⟩
  · exact Or.inr ⟨x, hread, hx, rfl⟩

theorem proper_of_numeric? (h : numeric? a = some p) : Proper p.double := by
  cases a with
  | int n =>
    cases h
    exact proper_intFloat n
  | str s =>
    rcases numeric?_str h with ⟨n, -, rfl⟩ | ⟨x, -, hx, rfl⟩
    · exact proper_intFloat n
    · exact hx
  | _ => cases h

theorem compare_toInt (m n : Int64) : compare m.toInt n.toInt = compare m n := by
  show compareOfLessAndEq _ _ = compareOfLessAndEq _ _
  simp only [compareOfLessAndEq, Int64.lt_iff_toInt_lt, Int64.toInt_inj]

theorem order?_numbers (ha : numeric? a = some p) (hb : numeric? b = some q) :
    order? a b = p.order? q := by
  cases a with
  | int m =>
    cases ha
    cases b with
    | int n =>
      cases hb
      show some (compare m n) = some (compare m.toInt n.toInt)
      rw [compare_toInt]
    | str t =>
      rcases numeric?_str hb with ⟨n, hread, rfl⟩ | ⟨y, hread, -, rfl⟩ <;>
        simp [order?, numberOrder?, float?, hread, Numeric.order?, Numeric.words?, Numeric.double]
    | _ => cases hb
  | str s =>
    cases b with
    | int n =>
      cases hb
      rcases numeric?_str ha with ⟨m, hread, rfl⟩ | ⟨x, hread, -, rfl⟩ <;>
        simp [order?, numberOrder?, float?, hread, Numeric.order?, Numeric.words?, Numeric.double]
    | str t =>
      rcases numeric?_str ha with ⟨m, hread, rfl⟩ | ⟨x, hread, -, rfl⟩ <;>
        rcases numeric?_str hb with ⟨n, hread', rfl⟩ | ⟨y, hread', -, rfl⟩ <;>
        simp [order?, textOrder?, numberOrder?, float?, hread, hread', Numeric.order?,
          Numeric.words?, Numeric.double, compare_toInt]
    | _ => cases hb
  | _ => cases ha

theorem order?_texts (h : numeric? (str s) = none ∨ numeric? (str t) = none) :
    order? (str s) (str t) = some (compare s t) := by
  rw [numeric?_eq_none_iff, numeric?_eq_none_iff] at h
  rw [order?, textOrder?]
  rcases h with h | h
  · rw [h]
  · rw [h]
    cases readNumber? s <;> rfl

theorem order?_int_text (n : Int64) (h : numeric? (str s) = none) :
    order? (int n) (str s) = none ∧ order? (str s) (int n) = none := by
  rw [numeric?_eq_none_iff] at h
  simp [order?, numberOrder?, float?, h]

/-- Two numbers with their order, or two texts of which one is no number. -/
inductive Compared : Value → Value → Ordering → Prop
  | numbers {a b : Value} {p q : Numeric} {o : Ordering} (ha : numeric? a = some p)
      (hb : numeric? b = some q) (h : p.order? q = some o) : Compared a b o
  | texts {s t : String} (h : numeric? (str s) = none ∨ numeric? (str t) = none) :
      Compared (str s) (str t) (compare s t)

theorem Compared.order? (h : Compared a b o) : a.order? b = some o := by
  cases h with
  | numbers ha hb h => rw [order?_numbers ha hb, h]
  | texts h => exact order?_texts h

theorem compared_of_order? (ha : a.IsScalar) (hb : b.IsScalar) (h : a.order? b = some o) :
    Compared a b o := by
  cases hp : numeric? a with
  | some p =>
    cases hq : numeric? b with
    | some q =>
      rw [order?_numbers hp hq] at h
      exact .numbers hp hq h
    | none =>
      cases hb with
      | int n => cases hq
      | str t =>
        cases ha with
        | int m => cases (order?_int_text m hq).1.symm.trans h
        | str s =>
          rw [order?_texts (Or.inr hq)] at h
          cases h
          exact .texts (Or.inr hq)
  | none =>
    cases ha with
    | int m => cases hp
    | str s =>
      cases hb with
      | int n => cases (order?_int_text n hp).2.symm.trans h
      | str t =>
        rw [order?_texts (Or.inl hp)] at h
        cases h
        exact .texts (Or.inl hp)

theorem compared_numbers (ha : numeric? a ≠ none) (hb : numeric? b ≠ none) :
    ∃ o, Compared a b o := by
  obtain ⟨p, ha⟩ := Option.ne_none_iff_exists'.mp ha
  obtain ⟨q, hb⟩ := Option.ne_none_iff_exists'.mp hb
  obtain ⟨o, ho⟩ := Numeric.exists_order (proper_of_numeric? ha) (proper_of_numeric? hb)
  exact ⟨o, .numbers ha hb ho⟩

theorem order?_self (h : a.IsScalar) : a.order? a = some .eq := by
  cases hp : numeric? a with
  | some p => rw [order?_numbers hp hp, Numeric.order?_self (proper_of_numeric? hp)]
  | none =>
    cases h with
    | int n => cases hp
    | str s => rw [order?_texts (Or.inl hp), Std.ReflOrd.compare_self]

theorem Compared.swap (h : Compared a b o) : Compared b a o.swap := by
  cases h with
  | numbers ha hb h => exact .numbers hb ha (Numeric.order?_swap h)
  | texts h =>
    rw [← Std.OrientedOrd.eq_swap]
    exact .texts h.symm

theorem text_trans (hst : compare s t ≠ wanted) (htu : compare t u ≠ wanted) (hw : wanted ≠ .eq) :
    compare s u ≠ wanted := by
  cases wanted with
  | eq => exact absurd rfl hw
  | gt =>
    have hle := Std.TransCmp.isLE_trans (Ordering.isLE_iff_ne_gt.mpr hst)
      (Ordering.isLE_iff_ne_gt.mpr htu)
    exact Ordering.isLE_iff_ne_gt.mp hle
  | lt =>
    have hge := Std.TransCmp.isGE_trans (Ordering.isGE_iff_ne_lt.mpr hst)
      (Ordering.isGE_iff_ne_lt.mpr htu)
    exact Ordering.isGE_iff_ne_lt.mp hge

theorem text_antisymm (hst : compare s t ≠ wanted) (hts : compare t s ≠ wanted)
    (hw : wanted ≠ .eq) : s = t := by
  apply Std.LawfulEqOrd.eq_of_compare
  rw [Std.OrientedOrd.eq_swap (a := t)] at hts
  revert hst hts
  cases compare s t <;> cases wanted <;> simp at hw ⊢

theorem text_strict (hst : compare s t ≠ wanted) (hw : wanted ≠ .eq) (hne : s ≠ t) :
    compare t s = wanted := by
  by_contra hts
  exact hne (text_antisymm hst hts hw)

theorem text_ne (hs : numeric? (str s) ≠ none) (ht : numeric? (str t) = none) : s ≠ t := by
  rintro rfl
  exact hs ht

/-- One value is not the wanted one of two. -/
def Upto (wanted : Ordering) (a b : Value) : Prop :=
  ∃ o, Compared a b o ∧ o ≠ wanted

theorem upto_texts_iff (h : numeric? (str s) = none ∨ numeric? (str t) = none) :
    Upto wanted (str s) (str t) ↔ compare s t ≠ wanted := by
  constructor
  · rintro ⟨o, hcompared, ho⟩
    have horder := hcompared.order?
    rw [order?_texts h] at horder
    cases horder
    exact ho
  · exact fun ho => ⟨_, .texts h, ho⟩

theorem upto_numbers_iff (ha : numeric? a = some p) (hb : numeric? b = some q) :
    Upto wanted a b ↔ ∃ o, p.order? q = some o ∧ o ≠ wanted := by
  constructor
  · rintro ⟨o, hcompared, ho⟩
    have horder := hcompared.order?
    rw [order?_numbers ha hb] at horder
    exact ⟨o, horder, ho⟩
  · rintro ⟨o, horder, ho⟩
    exact ⟨o, .numbers ha hb horder, ho⟩

theorem Compared.upto (hw : wanted ≠ .eq) (h : Compared v c wanted) : Upto wanted c v := by
  refine ⟨wanted.swap, h.swap, ?_⟩
  cases wanted <;> simp at hw ⊢

/--
Where a text that is no number stands between two that are numbers, the numbers have the order of
the texts.
-/
def Apart (wanted : Ordering) (items : List Value) : Prop :=
  ∀ {s t u : String}, str s ∈ items → str t ∈ items → str u ∈ items →
    numeric? (str s) ≠ none → numeric? (str t) = none → numeric? (str u) ≠ none →
    compare t s = wanted → compare u t = wanted → Compared (str u) (str s) wanted

/--
One value is not the wanted one of two. An integer and a text that is no number have no order, but
a text that is a number may stand between them.
-/
inductive Below (wanted : Ordering) (items : List Value) : Value → Value → Prop
  | direct {a b : Value} (h : Upto wanted a b) : Below wanted items a b
  | intText {n : Int64} {s t : String} (hs : numeric? (str s) = none) (ht : str t ∈ items)
      (hleft : Upto wanted (int n) (str t)) (hright : Upto wanted (str t) (str s)) :
      Below wanted items (int n) (str s)
  | textInt {n : Int64} {s t : String} (hs : numeric? (str s) = none) (ht : str t ∈ items)
      (hleft : Upto wanted (str s) (str t)) (hright : Upto wanted (str t) (int n)) :
      Below wanted items (str s) (int n)

theorem not_compared_of_upto (h : Upto wanted a b) : ¬Compared a b wanted := by
  intro hwanted
  obtain ⟨o, hcompared, ho⟩ := h
  have horder := hcompared.order?
  rw [hwanted.order?] at horder
  exact ho (Option.some.inj horder).symm

section

variable {items : List Value} (hw : wanted ≠ .eq)

include hw

theorem upto_numbers_trans (hac : Upto wanted a c) (hvc : Compared v c wanted)
    (ha : numeric? a ≠ none) (hc : numeric? c ≠ none) (hv : numeric? v ≠ none) :
    Upto wanted a v := by
  obtain ⟨p, ha⟩ := Option.ne_none_iff_exists'.mp ha
  obtain ⟨q, hc⟩ := Option.ne_none_iff_exists'.mp hc
  obtain ⟨r, hv⟩ := Option.ne_none_iff_exists'.mp hv
  obtain ⟨o, hpq, ho⟩ := (upto_numbers_iff ha hc).mp hac
  obtain ⟨o', hqr, ho'⟩ := (upto_numbers_iff hc hv).mp (hvc.upto hw)
  refine (upto_numbers_iff ha hv).mpr (Numeric.trans_of_strict hw hpq hqr ho ho' (Or.inr ?_))
  have horder := hvc.swap.order?
  rw [order?_numbers hc hv, hqr] at horder
  exact Option.some.inj horder

theorem compare_of_upto (h : numeric? (str s) = none ∨ numeric? (str t) = none) (hne : s ≠ t)
    (hst : Upto wanted (str s) (str t)) : compare t s = wanted :=
  text_strict ((upto_texts_iff h).mp hst) hw hne

variable (hapart : Apart wanted items) (hs : str s ∈ items) (ht : str t ∈ items)
  (hu : str u ∈ items) (hst : Upto wanted (str s) (str t)) (htu : Upto wanted (str t) (str u))

include hapart hs ht hu hst htu

theorem upto_of_first_word (hs' : numeric? (str s) = none) (ht' : numeric? (str t) ≠ none)
    (hu' : numeric? (str u) ≠ none) : Upto wanted (str s) (str u) := by
  rw [upto_texts_iff (Or.inl hs')]
  intro hsu
  have hts := compare_of_upto hw (Or.inl hs') (text_ne ht' hs').symm hst
  exact not_compared_of_upto htu (hapart hu hs ht hu' hs' ht' hsu hts)

theorem compared_of_middle_word (hs' : numeric? (str s) ≠ none) (ht' : numeric? (str t) = none)
    (hu' : numeric? (str u) ≠ none) : Compared (str u) (str s) wanted := by
  have hts := compare_of_upto hw (Or.inr ht') (text_ne hs' ht') hst
  have hut := compare_of_upto hw (Or.inl ht') (text_ne hu' ht').symm htu
  exact hapart hs ht hu hs' ht' hu' hts hut

theorem upto_of_last_word (hs' : numeric? (str s) ≠ none) (ht' : numeric? (str t) ≠ none)
    (hu' : numeric? (str u) = none) : Upto wanted (str s) (str u) := by
  rw [upto_texts_iff (Or.inr hu')]
  intro hsu
  have hut := compare_of_upto hw (Or.inr hu') (text_ne ht' hu') htu
  exact not_compared_of_upto hst (hapart ht hu hs ht' hu' hs' hut hsu)

/-- Through texts of which one at least is no number. -/
theorem upto_texts_trans
    (hword : numeric? (str s) = none ∨ numeric? (str t) = none ∨ numeric? (str u) = none) :
    Upto wanted (str s) (str u) := by
  have hplain (h : numeric? (str s) = none ∨ numeric? (str t) = none)
      (h' : numeric? (str t) = none ∨ numeric? (str u) = none)
      (h'' : numeric? (str s) = none ∨ numeric? (str u) = none) : Upto wanted (str s) (str u) := by
    rw [upto_texts_iff h] at hst
    rw [upto_texts_iff h'] at htu
    exact (upto_texts_iff h'').mpr (text_trans hst htu hw)
  by_cases hs' : numeric? (str s) = none
  · by_cases ht' : numeric? (str t) = none
    · exact hplain (Or.inl hs') (Or.inl ht') (Or.inl hs')
    · by_cases hu' : numeric? (str u) = none
      · exact hplain (Or.inl hs') (Or.inr hu') (Or.inl hs')
      · exact upto_of_first_word hw hapart hs ht hu hst htu hs' ht' hu'
  · by_cases ht' : numeric? (str t) = none
    · by_cases hu' : numeric? (str u) = none
      · exact hplain (Or.inr ht') (Or.inl ht') (Or.inr hu')
      · exact (compared_of_middle_word hw hapart hs ht hu hst htu hs' ht' hu').upto hw
    · have hu' := (hword.resolve_left hs').resolve_left ht'
      exact upto_of_last_word hw hapart hs ht hu hst htu hs' ht' hu'

end

theorem Compared.numeric_of_int {n : Int64} (h : Compared a (int n) o) : numeric? a ≠ none := by
  cases h with
  | numbers ha _ _ => simp [ha]

theorem Upto.numeric_left {n : Int64} (h : Upto wanted a (int n)) : numeric? a ≠ none := by
  obtain ⟨o, hcompared, -⟩ := h
  exact hcompared.numeric_of_int

theorem Upto.numeric_right {n : Int64} (h : Upto wanted (int n) a) : numeric? a ≠ none := by
  obtain ⟨o, hcompared, -⟩ := h
  exact hcompared.swap.numeric_of_int

variable {items : List Value} (hw : wanted ≠ .eq) (hitems : ∀ a ∈ items, a.IsScalar)
  (hapart : Apart wanted items)

include hw hitems hapart

/-- The first step of `Below.trans`: what was below the current value itself. -/
theorem below_of_upto (ha : a ∈ items) (hc : c ∈ items) (hv : v ∈ items)
    (hac : Upto wanted a c) (hvc : Compared v c wanted) : Below wanted items a v := by
  have hcv := hvc.upto hw
  by_cases hnumbers : numeric? a ≠ none ∧ numeric? c ≠ none ∧ numeric? v ≠ none
  · exact .direct (upto_numbers_trans hw hac hvc hnumbers.1 hnumbers.2.1 hnumbers.2.2)
  cases hitems c hc with
  | int k => exact absurd ⟨hac.numeric_left, numeric?_int_ne _, hvc.numeric_of_int⟩ hnumbers
  | str t =>
    cases hitems a ha with
    | int m =>
      have ht := hac.numeric_right
      cases hitems v hv with
      | int n => exact absurd ⟨numeric?_int_ne _, ht, numeric?_int_ne _⟩ hnumbers
      | str u =>
        have hu : numeric? (str u) = none := by
          by_contra hu
          exact hnumbers ⟨numeric?_int_ne _, ht, hu⟩
        exact .intText hu hc hac hcv
    | str s =>
      cases hitems v hv with
      | int n =>
        have ht := hcv.numeric_left
        have hs : numeric? (str s) = none := by
          by_contra hs
          exact hnumbers ⟨hs, ht, numeric?_int_ne _⟩
        exact .textInt hs hc hac hcv
      | str u =>
        simp only [not_and_or, Ne, not_not] at hnumbers
        exact .direct (upto_texts_trans hw hapart ha hc hv hac hcv hnumbers)

/-- What does not come up to the better of two comes up to the other no more. -/
theorem Below.trans (h : Below wanted items a c) (ha : a ∈ items) (hc : c ∈ items) (hv : v ∈ items)
    (hvc : Compared v c wanted) : Below wanted items a v := by
  cases h with
  | direct hac => exact below_of_upto hw hitems hapart ha hc hv hac hvc
  | @intText n s t hs ht hleft hright =>
    have ht' := hleft.numeric_right
    cases hvc with
    | numbers _ hs' _ => simp [hs] at hs'
    | @texts u _ htexts =>
      have hcv := (Compared.texts htexts).upto hw
      by_cases hu : numeric? (str u) = none
      · exact .intText hu ht hleft
          (upto_texts_trans hw hapart ht hc hv hright hcv (Or.inr (Or.inl hs)))
      · -- The current text stands between two numbers, which are so in the wanted order.
        have hut := compared_of_middle_word hw hapart ht hc hv hright hcv ht' hs hu
        exact .direct (upto_numbers_trans hw hleft hut (numeric?_int_ne _) ht' hu)
  | @textInt n s t hs ht hleft hright =>
    have ht' := hright.numeric_left
    have htv := upto_numbers_trans hw hright hvc ht' (numeric?_int_ne _) hvc.numeric_of_int
    cases hitems v hv with
    | int m => exact .textInt hs ht hleft htv
    | str u => exact .direct (upto_texts_trans hw hapart ha ht hv hleft htv (Or.inl hs))

end Value

end TrialLoop
