import TrialLoop.Interpolation.Reference

namespace TrialLoop

/--
A computation that uses its context in one way only: it looks up names and calls functions, and
goes on with what it is given.
-/
inductive Consults {α : Type} : ((σ : Type) → Context σ → Eval σ α) → Prop
  | result (r : Except EvalError α) : Consults fun _ _ => Eval.ofResult r
  | lookup (name : String) {f : Option Value → (σ : Type) → Context σ → Eval σ α}
      (h : ∀ v, Consults (f v)) : Consults fun σ c => do f (← c.lookup name) σ c
  | call (function : String) (vs : List Value) {f : Value → (σ : Type) → Context σ → Eval σ α}
      (h : ∀ v, Consults (f v)) : Consults fun σ c => do f (← c.call function vs) σ c

namespace Consults

variable {α β : Type}

theorem pure (a : α) : Consults fun _ _ => (Pure.pure a : Eval _ α) := result (.ok a)

theorem throw (cause : EvalError) : Consults fun _ _ => (MonadExcept.throw cause : Eval _ α) :=
  result (.error cause)

theorem bind {m : (σ : Type) → Context σ → Eval σ α}
    {f : α → (σ : Type) → Context σ → Eval σ β} (h : Consults m) (hf : ∀ a, Consults (f a)) :
    Consults fun σ c => m σ c >>= fun a => f a σ c := by
  induction h with
  | result r =>
    cases r with
    | error cause => exact throw cause
    | ok a => exact hf a
  | lookup name _ ih =>
    simp only [bind_assoc]
    exact lookup name ih
  | call function vs _ ih =>
    simp only [bind_assoc]
    exact call function vs ih

theorem called (function : String) (vs : List Value) :
    Consults fun _ c => c.call function vs := by
  simpa only [bind_pure] using call function vs pure

theorem named (name shown : String) : Consults fun _ c => Expr.named c name shown := by
  refine lookup name fun found => ?_
  cases found with
  | none => exact throw _
  | some v => exact pure v

mutual

/-- An expression asks its context for names and functions, and does nothing else with it. -/
theorem eval (e : Expr) : Consults fun _ c => e.eval c := by
  match e with
  | .literal v => exact pure v
  | .name s => exact named s s
  | .member base s =>
    by_cases hb : base = .name "var"
    · subst hb
      exact named s ("var." ++ s)
    · have hmember : (fun (σ : Type) (c : Context σ) => (Expr.member base s).eval c) =
          fun σ c =>
            base.eval c >>= fun v => MonadExcept.throw (.type (.noAttribute v.kind s)) := by
        funext σ c
        rw [Expr.eval]
        exact fun he => hb he
      rw [hmember]
      exact (eval base).bind fun v => throw _
  | .index base i => exact (eval base).bind fun v => (eval i).bind fun w => result _
  | .list items => exact (evalAll items).bind fun vs => pure _
  | .unary op operand => exact (eval operand).bind fun v => result _
  | .binary op left right => exact (eval left).bind fun v => (eval right).bind fun w => result _
  | .compare first links => exact (eval first).bind fun v => evalLinks v links
  | .and left right =>
    refine (eval left).bind fun v => ?_
    split
    next => exact eval right
    next => exact pure v
  | .or left right =>
    refine (eval left).bind fun v => ?_
    split
    next => exact pure v
    next => exact eval right
  | .call function arguments => exact (evalAll arguments).bind fun vs => called function vs

theorem evalAll (es : List Expr) : Consults fun _ c => Expr.evalAll c es := by
  match es with
  | [] => exact pure _
  | e :: es => exact (eval e).bind fun v => (evalAll es).bind fun vs => pure _

theorem evalLinks (left : Value) (links : List (Comparison × Expr)) :
    Consults fun _ c => Expr.evalLinks c left links := by
  match links with
  | [] => exact pure _
  | (op, e) :: links =>
    refine (eval e).bind fun right => (result (op.test left right)).bind fun holds => ?_
    split
    next => exact evalLinks right links
    next => exact pure _

end

theorem evalText (source : String) : Consults fun _ c => Expr.evalText c source := by
  unfold Expr.evalText
  split
  next e _ => exact eval e
  next => exact throw _

theorem readInline (cs : List Char) : Consults fun _ c => readInline c cs := by
  unfold TrialLoop.readInline
  split
  next => exact pure _
  next => exact (evalText _).bind fun v => pure _

theorem findVariable (name : List Char) (length : Nat) :
    Consults fun _ c => findVariable c name length := by
  unfold TrialLoop.findVariable
  split
  next => exact pure _
  next =>
    refine lookup _ fun found => ?_
    cases found with
    | none => exact pure _
    | some v => exact pure _

theorem readName {inner : (σ : Type) → Context σ → List Char → Eval σ (Option Found)}
    (hinner : ∀ cs, Consults fun σ c => inner σ c cs) (name : List Char) (length skip : Nat)
    (cs : List Char) : Consults fun σ c => readName c (inner σ c) name length skip cs := by
  induction cs generalizing name length skip with
  | nil => exact pure _
  | cons x cs ih =>
    cases skip with
    | succ skip => exact ih name (length + 1) skip
    | zero =>
      simp only [TrialLoop.readName]
      split
      next => exact findVariable _ _
      split
      next =>
        refine (hinner cs).bind fun found => ?_
        cases found with
        | none => exact pure _
        | some found => exact ih _ _ _
      split
      next => exact ih _ _ _
      next => exact pure _

theorem readReference (depth : Nat) (cs : List Char) :
    Consults fun _ c => readReference c depth cs := by
  induction depth generalizing cs with
  | zero => exact pure _
  | succ depth ih =>
    by_cases hcs : ∃ ds, cs = '=' :: ds
    · obtain ⟨ds, rfl⟩ := hcs
      exact readInline ds
    · have hname : (fun (σ : Type) (c : Context σ) => TrialLoop.readReference c (depth + 1) cs) =
          fun _ c => TrialLoop.readName c (TrialLoop.readReference c depth) [] 0 0 cs := by
        funext σ c
        rw [TrialLoop.readReference]
        exact fun ds he => hcs ⟨ds, he⟩
      rw [hname]
      exact readName ih _ _ _ _

theorem fillText (out : List Char) (skip : Nat) (cs : List Char) :
    Consults fun _ c => fillText c out skip cs := by
  induction cs generalizing out skip with
  | nil => exact pure _
  | cons x cs ih =>
    cases skip with
    | succ skip => exact ih out skip
    | zero =>
      simp only [TrialLoop.fillText]
      split
      next => exact ih _ _
      split
      next =>
        refine (readReference _ cs).bind fun found => ?_
        cases found with
        | none => exact ih _ _
        | some found => exact ih _ _
      next => exact ih _ _

/-- A text asks its context for names and functions, and does nothing else with it. -/
theorem interpolate (text : String) : Consults fun _ c => interpolate c text := by
  unfold TrialLoop.interpolate
  split
  next cs _ =>
    refine (readReference _ cs).bind fun found => ?_
    cases found with
    | none => exact (fillText _ _ _).bind fun _ => pure _
    | some found =>
      simp only
      split
      next => exact pure _
      next => exact (fillText _ _ _).bind fun _ => pure _
  next => exact (fillText _ _ _).bind fun _ => pure _

end Consults

end TrialLoop
