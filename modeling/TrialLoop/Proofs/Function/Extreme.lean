import TrialLoop.Function.Number
import TrialLoop.Proofs.Value.MixedOrder

namespace TrialLoop

open Value

variable {function : String} {wanted o : Ordering} {items seen vs arguments : List Value}
  {a b c v w : Value}

/-- The best of some values, to which all others come up at most. -/
structure Bound (wanted : Ordering) (items seen : List Value) (c : Value) : Prop where
  mem : c ∈ seen
  below : ∀ a ∈ seen, a = c ∨ Below wanted items a c

section

variable (hw : wanted ≠ .eq) (hitems : ∀ a ∈ items, a.IsScalar) (hapart : Apart wanted items)

include hw hitems hapart

theorem Bound.step (hbound : Bound wanted items seen c) (hseen : ∀ a ∈ seen, a ∈ items)
    (hv : v ∈ items) (ho : v.order? c = some o) :
    Bound wanted items (seen ++ [v]) (if o = wanted then v else c) := by
  have hc := hseen c hbound.mem
  have hcompared := compared_of_order? (hitems v hv) (hitems c hc) ho
  by_cases hbetter : o = wanted
  · rw [if_pos hbetter]
    rw [hbetter] at hcompared
    refine ⟨List.mem_append_right _ (List.mem_singleton_self v), fun a ha => ?_⟩
    rcases List.mem_append.mp ha with ha | ha
    · right
      rcases hbound.below a ha with rfl | hbelow
      · exact .direct (hcompared.upto hw)
      · exact hbelow.trans hw hitems hapart (hseen a ha) hc hv hcompared
    · exact Or.inl (List.mem_singleton.mp ha)
  · rw [if_neg hbetter]
    refine ⟨List.mem_append_left _ hbound.mem, fun a ha => ?_⟩
    rcases List.mem_append.mp ha with ha | ha
    · exact hbound.below a ha
    · rw [List.mem_singleton.mp ha]
      exact Or.inr (.direct ⟨o, hcompared, hbetter⟩)

theorem best_bound (hbound : Bound wanted items seen c) (hsub : ∀ a ∈ seen ++ vs, a ∈ items)
    (h : best function wanted c vs = .ok v) : Bound wanted items (seen ++ vs) v := by
  induction vs generalizing seen c with
  | nil =>
    cases h
    rw [List.append_nil]
    exact hbound
  | cons w vs ih =>
    rw [best] at h
    split at h
    next => cases h
    next o ho =>
      have hw' := hsub w (List.mem_append_right _ List.mem_cons_self)
      have hseen : ∀ a ∈ seen, a ∈ items := fun a ha => hsub a (List.mem_append_left _ ha)
      rw [List.append_cons] at hsub ⊢
      exact ih (hbound.step hw hitems hapart hseen hw' ho) hsub h

end

/-- A text that is no number does not come up to a number that is a text and below it. -/
theorem not_upto_of_below {s t : String} (hw : wanted ≠ .eq) (hs : numeric? (.str s) = none)
    (ht : numeric? (.str t) ≠ none) (hst : Upto wanted (.str s) (.str t))
    (hbound : Value.str t = .str s ∨ Below wanted items (.str t) (.str s)) : False := by
  have hne := text_ne ht hs
  rcases hbound with heq | hbelow
  · exact hne (Value.str.inj heq)
  · cases hbelow with
    | direct hts =>
      rw [upto_texts_iff (Or.inl hs)] at hst
      rw [upto_texts_iff (Or.inr hs)] at hts
      exact hne (text_antisymm hts hst hw)

/-- Two bounds of the same values are equal, as each comes up to the other at most. -/
theorem Bound.equal (hw : wanted ≠ .eq) (hitems : ∀ a ∈ items, a.IsScalar)
    (ha : Bound wanted items items a) (hb : Bound wanted items items b) :
    a.order? b = some .eq := by
  rcases hb.below a ha.mem with rfl | hab
  · exact order?_self (hitems a ha.mem)
  rcases ha.below b hb.mem with rfl | hba
  · exact order?_self (hitems b hb.mem)
  cases hab with
  | direct hab =>
    obtain ⟨o, hcompared, ho⟩ := hab
    cases hba with
    | direct hba =>
      obtain ⟨o', hback, ho'⟩ := hba
      have horder := hcompared.swap.order?
      rw [hback.order?] at horder
      cases horder
      rw [hcompared.order?]
      cases o <;> cases wanted <;> simp at ho ho' hw ⊢
    | intText hs _ _ _ => cases (order?_int_text _ hs).2.symm.trans hcompared.order?
    | textInt hs _ _ _ => cases (order?_int_text _ hs).1.symm.trans hcompared.order?
  | intText hs ht hleft hright =>
    cases hba with
    | direct hba =>
      obtain ⟨o, hcompared, -⟩ := hba
      cases (order?_int_text _ hs).2.symm.trans hcompared.order?
    | textInt _ ht' hleft' hright' =>
      exact (not_upto_of_below hw hs hright'.numeric_left hleft' (hb.below _ ht')).elim
  | textInt hs ht hleft hright =>
    exact (not_upto_of_below hw hs hright.numeric_left hleft (ha.below _ ht)).elim

theorem Bound.of_perm {items' : List Value} (hperm : items'.Perm items)
    (h : Bound wanted items' items' v) : Bound wanted items items v := by
  refine ⟨hperm.mem_iff.mp h.mem, fun a ha => ?_⟩
  refine (h.below a (hperm.mem_iff.mpr ha)).imp_right fun hbelow => ?_
  cases hbelow with
  | direct h => exact .direct h
  | intText hs ht hleft hright => exact .intText hs (hperm.mem_iff.mp ht) hleft hright
  | textInt hs ht hleft hright => exact .textInt hs (hperm.mem_iff.mp ht) hleft hright

theorem Bound.order?_ne (hw : wanted ≠ .eq) (hitems : ∀ a ∈ items, a.IsScalar)
    (hv : Bound wanted items items v) (ha : a ∈ items) : a.order? v ≠ some wanted := by
  intro horder
  have hcompared := compared_of_order? (hitems a ha) (hitems v hv.mem) horder
  rcases hv.below a ha with rfl | hbelow
  · have hback := hcompared.swap.order?
    rw [horder] at hback
    cases wanted <;> simp at hw hback
  · cases hbelow with
    | direct h => exact not_compared_of_upto h hcompared
    | intText hs _ _ _ => cases (order?_int_text _ hs).1.symm.trans horder
    | textInt hs _ _ _ => cases (order?_int_text _ hs).2.symm.trans horder

/-- The arguments are some values, or a list of them alone. -/
def Passes (arguments items : List Value) : Prop :=
  arguments = items ∨ arguments = [.list items]

theorem best_of_extreme (hitems : ∀ a ∈ items, a.IsScalar) (harguments : Passes arguments items)
    (h : extreme function wanted arguments = .ok v) :
    ∃ c vs, items = c :: vs ∧ best function wanted c vs = .ok v := by
  rcases harguments with rfl | rfl
  · cases arguments with
    | nil => cases h
    | cons c vs =>
      refine ⟨c, vs, rfl, ?_⟩
      cases hitems c List.mem_cons_self with
      | int n => cases vs <;> exact h
      | str s => cases vs <;> exact h
  · cases items with
    | nil => cases h
    | cons c vs => exact ⟨c, vs, rfl, h⟩

/--
Where a text that is no number stands between two that are numbers, the first of these is below
the last as a number.
-/
def NumbersApart (items : List Value) : Prop :=
  ∀ s t u : String, .str s ∈ items → .str t ∈ items → .str u ∈ items →
    readNumber? s ≠ none → readNumber? t = none → readNumber? u ≠ none → s < t → t < u →
    order? (.str s) (.str u) = some .lt

theorem numbersApart_iff (hw : wanted ≠ .eq) : NumbersApart items ↔ Apart wanted items := by
  have hgt {s t : String} : compare t s = .gt ↔ s < t := by
    rw [Std.OrientedOrd.eq_swap, Ordering.swap_eq_gt]
    exact compareOfLessAndEq_eq_lt
  have hlt {s t : String} : compare s t = .lt ↔ s < t := compareOfLessAndEq_eq_lt
  simp only [NumbersApart, Apart, Ne, numeric?_eq_none_iff]
  cases wanted with
  | eq => exact absurd rfl hw
  | lt =>
    simp only [hlt]
    constructor
    · intro h s t u hs ht hu hs' ht' hu' hts hut
      exact compared_of_order? (.str u) (.str s) (h u t s hu ht hs hu' ht' hs' hut hts)
    · intro h s t u hs ht hu hs' ht' hu' hst htu
      exact (h hu ht hs hu' ht' hs' htu hst).order?
  | gt =>
    simp only [hgt]
    constructor
    · intro h s t u hs ht hu hs' ht' hu' hst htu
      exact (compared_of_order? (.str s) (.str u) (h s t u hs ht hu hs' ht' hu' hst htu)).swap
    · intro h s t u hs ht hu hs' ht' hu' hst htu
      exact (h hs ht hu hs' ht' hu' hst htu).swap.order?

theorem extreme_bound (hw : wanted ≠ .eq) (hitems : ∀ a ∈ items, a.IsScalar)
    (hapart : NumbersApart items) (harguments : Passes arguments items)
    (h : extreme function wanted arguments = .ok v) : Bound wanted items items v := by
  obtain ⟨c, vs, rfl, hbest⟩ := best_of_extreme hitems harguments h
  have hfirst : Bound wanted (c :: vs) [c] c :=
    ⟨List.mem_singleton_self c, fun a ha => Or.inl (List.mem_singleton.mp ha)⟩
  exact best_bound hw hitems ((numbersApart_iff hw).mp hapart) hfirst (fun a ha => ha) hbest

theorem best_mem (h : best function wanted c vs = .ok v) : v ∈ c :: vs := by
  induction vs generalizing c with
  | nil =>
    cases h
    exact List.mem_singleton_self _
  | cons w vs ih =>
    rw [best] at h
    split at h
    next => cases h
    next o ho =>
      rcases List.mem_cons.mp (ih h) with rfl | hv
      · split
        · simp
        · simp
      · simp [hv]

theorem extreme_returns_bound (hw : wanted ≠ .eq) (hitems : ∀ a ∈ items, a.IsScalar)
    (harguments : Passes arguments items) (h : extreme function wanted arguments = .ok v) :
    v ∈ items ∧ (NumbersApart items →
      (∀ a ∈ items, a.order? v ≠ some wanted) ∧
      ∀ items' arguments' v', items'.Perm items → Passes arguments' items' →
        extreme function wanted arguments' = .ok v' → v'.order? v = some .eq) := by
  constructor
  · obtain ⟨c, vs, rfl, hbest⟩ := best_of_extreme hitems harguments h
    exact best_mem hbest
  intro hapart
  have hbound := extreme_bound hw hitems hapart harguments h
  refine ⟨fun a ha => hbound.order?_ne hw hitems ha, ?_⟩
  intro items' arguments' v' hperm harguments' h'
  have hitems' : ∀ a ∈ items', a.IsScalar := fun a ha => hitems a (hperm.mem_iff.mp ha)
  have hapart' : NumbersApart items' := fun s t u hs ht hu =>
    hapart s t u (hperm.mem_iff.mp hs) (hperm.mem_iff.mp ht) (hperm.mem_iff.mp hu)
  have hbound' := extreme_bound hw hitems' hapart' harguments' h'
  exact (hbound'.of_perm hperm).equal hw hitems hbound

/-- The text that is a number stands between the integer and the text that is none. -/
theorem extreme_returns_bound_linked :
    NumbersApart [.int 3, .str "7", .str "x"] ∧
      ∀ a ∈ [Value.int 3, .str "7", .str "x"], a.order? (.str "x") ≠ some .gt := by
  have hscalar : ∀ a ∈ [Value.int 3, .str "7", .str "x"], a.IsScalar := by
    intro a ha
    fin_cases ha <;> constructor
  have hnumber {s : String} (hs : .str s ∈ [Value.int 3, .str "7", .str "x"])
      (hread : readNumber? s ≠ none) : s = "7" := by
    rcases List.mem_cons.mp hs with heq | hs
    · cases heq
    rcases List.mem_cons.mp hs with heq | hs
    · exact Value.str.inj heq
    · rw [Value.str.inj (List.mem_singleton.mp hs)] at hread
      exact absurd rfl hread
  have hapart : NumbersApart [.int 3, .str "7", .str "x"] := by
    intro s t u hs _ hu hs' _ hu' hst htu
    rw [hnumber hs hs'] at hst
    rw [hnumber hu hu'] at htu
    exact absurd (String.lt_trans hst htu) (String.lt_irrefl _)
  have hresult : extreme "max" .gt [.int 3, .str "7", .str "x"] = .ok (.str "x") := rfl
  have hreturned := extreme_returns_bound (by decide) hscalar (Or.inl rfl) hresult
  exact ⟨hapart, (hreturned.2 hapart).1⟩

/-- Two texts that are the same number, with a text between them that is none. -/
theorem extreme_depends_on_arrangement :
    extreme "max" .gt [.str "07", .str "7", .str "1x"] = .ok (.str "1x") ∧
      extreme "max" .gt [.str "7", .str "07", .str "1x"] = .ok (.str "7") ∧
      order? (.str "7") (.str "1x") = some .gt :=
  ⟨rfl, rfl, rfl⟩

/-- Of three texts that are not apart, one arrangement has a result that is no bound. -/
theorem numbersApart_of_bounds (hw : wanted ≠ .eq)
    (h : ∀ arguments v, arguments ⊆ items → extreme function wanted arguments = .ok v →
      ∀ a ∈ arguments, a.order? v ≠ some wanted) : NumbersApart items := by
  rw [numbersApart_iff hw]
  intro s t u hs ht hu hs' ht' hu' hts hut
  obtain ⟨o, hcompared⟩ := compared_numbers hu' hs'
  by_cases ho : o = wanted
  · rw [← ho]
    exact hcompared
  have hword : order? (.str t) (.str s) = some wanted := by rw [order?_texts (Or.inl ht'), hts]
  have hlast : order? (.str u) (.str t) = some wanted := by rw [order?_texts (Or.inr ht'), hut]
  have hresult : extreme function wanted [.str s, .str u, .str t] = .ok (.str t) := by
    show best function wanted (.str s) [.str u, .str t] = _
    simp only [best, hcompared.order?, if_neg ho, hword, if_true]
  have hsub : [Value.str s, .str u, .str t] ⊆ items := by simp [hs, ht, hu]
  exact absurd hlast (h _ _ hsub hresult (.str u) (by simp))

theorem numbersApart_iff_bounds (hw : wanted ≠ .eq) (hitems : ∀ a ∈ items, a.IsScalar) :
    NumbersApart items ↔
      ∀ arguments v, arguments ⊆ items → extreme function wanted arguments = .ok v →
        ∀ a ∈ arguments, a.order? v ≠ some wanted := by
  refine ⟨fun hapart arguments v hsub h a ha => ?_, numbersApart_of_bounds hw⟩
  have harguments : ∀ a ∈ arguments, a.IsScalar := fun a ha => hitems a (hsub ha)
  have hapart' : NumbersApart arguments := fun s t u hs ht hu =>
    hapart s t u (hsub hs) (hsub ht) (hsub hu)
  have hbound := extreme_bound hw harguments hapart' (Or.inl rfl) h
  exact hbound.order?_ne hw harguments ha

end TrialLoop
