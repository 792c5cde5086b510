import TrialLoop.Proofs.Interpolation.Consulting

namespace TrialLoop

variable {σ τ α β : Type} {R : σ → τ → Prop} {P : σ → Prop} {Q : τ → Prop}

/-- From related states two computations give the same and lead to related states again. -/
def Related (R : σ → τ → Prop) (m : StateM σ α) (n : StateM τ α) : Prop :=
  ∀ s t, R s t → (m s).1 = (n t).1 ∧ R (m s).2 (n t).2

/-- The same for computations that may fail. -/
def EvalRelated (R : σ → τ → Prop) (m : Eval σ α) (n : Eval τ α) : Prop :=
  Related R m.run n.run

theorem Related.pure (a : α) : Related R (pure a) (pure a) := fun _ _ h => ⟨rfl, h⟩

theorem Related.bind {m : StateM σ α} {n : StateM τ α} {f : α → StateM σ β}
    {g : α → StateM τ β} (h : Related R m n) (hf : ∀ a, Related R (f a) (g a)) :
    Related R (m >>= f) (n >>= g) := by
  intro s t hs
  obtain ⟨ha, hst⟩ := h s t hs
  have hb := hf (m s).1 (m s).2 (n t).2 hst
  rw [ha] at hb
  show (f (m s).1 (m s).2).1 = (g (n t).1 (n t).2).1 ∧ R (f (m s).1 (m s).2).2 (g (n t).1 (n t).2).2
  rw [ha]
  exact hb

namespace EvalRelated

theorem pure (a : α) : EvalRelated R (pure a) (pure a) := Related.pure _

theorem throw (cause : EvalError) :
    EvalRelated R (throw cause : Eval σ α) (throw cause : Eval τ α) := Related.pure _

theorem ofResult (r : Except EvalError α) :
    EvalRelated R (Eval.ofResult r) (Eval.ofResult r) := by
  cases r with
  | error cause => exact throw cause
  | ok a => exact pure a

theorem bind {m : Eval σ α} {n : Eval τ α} {f : α → Eval σ β} {g : α → Eval τ β}
    (h : EvalRelated R m n) (hf : ∀ a, EvalRelated R (f a) (g a)) :
    EvalRelated R (m >>= f) (n >>= g) := by
  rw [EvalRelated, ExceptT.run_bind, ExceptT.run_bind]
  refine Related.bind h fun r => ?_
  cases r with
  | error cause => exact Related.pure _
  | ok a => exact hf a

theorem lift {m : StateM σ α} {n : StateM τ α} (h : Related R m n) :
    EvalRelated R (liftM m : Eval σ α) (liftM n : Eval τ α) := by
  rw [EvalRelated]
  exact Related.bind h fun _ => Related.pure _

end EvalRelated

/-- Two contexts give the same from related states. -/
structure ContextRelated (R : σ → τ → Prop) (c : Context σ) (d : Context τ) : Prop where
  lookup : ∀ name, Related R (c.lookup name) (d.lookup name)
  call : ∀ function vs, EvalRelated R (c.call function vs) (d.call function vs)

variable {c : Context σ} {d : Context τ}

theorem Consults.related {m : (σ : Type) → Context σ → Eval σ α} (h : Consults m)
    (hc : ContextRelated R c d) : EvalRelated R (m σ c) (m τ d) := by
  induction h with
  | result r => exact .ofResult r
  | lookup name _ ih => exact (EvalRelated.lift (hc.lookup name)).bind ih
  | call function vs _ ih => exact (hc.call function vs).bind ih

/-- A text has the same value in related contexts. -/
theorem ContextRelated.interpolate (h : ContextRelated R c d) (text : String) :
    EvalRelated R (interpolate c text) (TrialLoop.interpolate d text) :=
  (Consults.interpolate text).related h

/-- A computation keeps a property of the state. -/
def StateKeeps (P : σ → Prop) (m : StateM σ α) : Prop :=
  ∀ s, P s → P (m s).2

theorem StateKeeps.pure (a : α) : StateKeeps P (pure a) := fun _ h => h

theorem StateKeeps.bind {m : StateM σ α} {f : α → StateM σ β} (h : StateKeeps P m)
    (hf : ∀ a, StateKeeps P (f a)) : StateKeeps P (m >>= f) :=
  fun s hs => hf (m s).1 (m s).2 (h s hs)

/-- What a context does keeps a property of the state. -/
structure ContextKeeps (P : σ → Prop) (c : Context σ) : Prop where
  lookup : ∀ name, StateKeeps P (c.lookup name)
  call : ∀ function vs, StateKeeps P (c.call function vs).run

theorem Consults.keeps {m : (σ : Type) → Context σ → Eval σ α} (h : Consults m)
    (hc : ContextKeeps P c) : StateKeeps P (m σ c).run := by
  induction h with
  | result r => cases r <;> exact .pure _
  | lookup name _ ih => exact (hc.lookup name).bind ih
  | call function vs _ ih =>
    rw [ExceptT.run_bind]
    refine (hc.call function vs).bind fun r => ?_
    cases r with
    | error cause => exact .pure _
    | ok v => exact ih v

/--
From related states two computations give the same and lead to related states again, unless they
both end in states that are no longer compared.
-/
def RelatedUnless (R : σ → τ → Prop) (P : σ → Prop) (Q : τ → Prop) (m : StateM σ α)
    (n : StateM τ α) : Prop :=
  ∀ s t, R s t → (P (m s).2 ∧ Q (n t).2) ∨ (m s).1 = (n t).1 ∧ R (m s).2 (n t).2

theorem RelatedUnless.pure (a : α) : RelatedUnless R P Q (pure a) (pure a) :=
  fun _ _ h => .inr ⟨rfl, h⟩

theorem RelatedUnless.bind {m : StateM σ α} {n : StateM τ α} {f : α → StateM σ β}
    {g : α → StateM τ β} (h : RelatedUnless R P Q m n)
    (hf : ∀ a, RelatedUnless R P Q (f a) (g a)) (hP : ∀ a, StateKeeps P (f a))
    (hQ : ∀ a, StateKeeps Q (g a)) : RelatedUnless R P Q (m >>= f) (n >>= g) := by
  intro s t hst
  show (P (f (m s).1 (m s).2).2 ∧ Q (g (n t).1 (n t).2).2) ∨
    (f (m s).1 (m s).2).1 = (g (n t).1 (n t).2).1 ∧
      R (f (m s).1 (m s).2).2 (g (n t).1 (n t).2).2
  rcases h s t hst with ⟨hs, ht⟩ | ⟨hvalue, hst⟩
  · exact .inl ⟨hP _ _ hs, hQ _ _ ht⟩
  · rw [← hvalue]
    exact hf _ _ _ hst

/-- Two contexts of which the same holds, and which keep states that are no longer compared. -/
structure ContextRelatedUnless (R : σ → τ → Prop) (P : σ → Prop) (Q : τ → Prop) (c : Context σ)
    (d : Context τ) : Prop where
  left : ContextKeeps P c
  right : ContextKeeps Q d
  lookup : ∀ name, RelatedUnless R P Q (c.lookup name) (d.lookup name)
  call : ∀ function vs, RelatedUnless R P Q (c.call function vs).run (d.call function vs).run

theorem Consults.relatedUnless {m : (σ : Type) → Context σ → Eval σ α} (h : Consults m)
    (hc : ContextRelatedUnless R P Q c d) : RelatedUnless R P Q (m σ c).run (m τ d).run := by
  induction h with
  | result r => cases r <;> exact .pure _
  | lookup name h ih =>
    exact (hc.lookup name).bind ih (fun v => (h v).keeps hc.left) fun v => (h v).keeps hc.right
  | call function vs h ih =>
    simp only [ExceptT.run_bind]
    refine (hc.call function vs).bind (fun r => ?_) (fun r => ?_) fun r => ?_
    · cases r with
      | error cause => exact .pure _
      | ok v => exact ih v
    · cases r with
      | error cause => exact .pure _
      | ok v => exact (h v).keeps hc.left
    · cases r with
      | error cause => exact .pure _
      | ok v => exact (h v).keeps hc.right

end TrialLoop
