import TrialLoop.Loop.Step

namespace TrialLoop

/-- The variables of the experiment stay as they are. -/
def KeepsVars {α : Type} (m : StateM Workspace α) : Prop :=
  ∀ w, (m w).2.vars = w.vars

namespace KeepsVars

variable {α β : Type}

theorem pure (a : α) : KeepsVars (pure a) := fun _ => rfl

theorem bind {m : StateM Workspace α} {f : α → StateM Workspace β} (hm : KeepsVars m)
    (hf : ∀ a, KeepsVars (f a)) : KeepsVars (m >>= f) :=
  fun w => (hf (m w).1 (m w).2).trans (hm w)

theorem within (m : Scope → StateM Session α) : KeepsVars (Workspace.within m) := fun _ => rfl

theorem withinItem (own : Bindings) (m : Scope → StateM Session α) :
    KeepsVars (Workspace.withinItem own m) := fun _ => rfl

theorem record (e : Event) : KeepsVars (Workspace.record e) := fun _ => rfl

theorem recordAll (es : List Event) : KeepsVars (es.forM Workspace.record) := by
  induction es with
  | nil => exact pure _
  | cons e es ih => exact (record e).bind fun _ => ih

end KeepsVars

namespace Loop

theorem setting_keepsVars (l : Loop) (name : String) (default : Value) :
    KeepsVars (l.setting name default) :=
  .withinItem _ _

theorem startQueue_keepsVars (l : Loop) (rows : Nat) : KeepsVars (l.startQueue rows) := by
  refine (l.setting_keepsVars _ _).bind fun v => ?_
  split
  next => exact .pure _
  next => exact .pure _
  next => exact (l.setting_keepsVars _ _).bind fun _ => .pure _

theorem start_keepsVars (l : Loop) (random : Bool) : KeepsVars (l.start random) := by
  refine (l.setting_keepsVars _ _).bind fun v => ?_
  split
  next => exact .pure _
  next r =>
    refine (KeepsVars.within _).bind fun order => (KeepsVars.within _).bind fun made => ?_
    split
    next => exact .pure _
    next table =>
      refine (l.startQueue_keepsVars _).bind fun queue => ?_
      split
      next => exact .pure _
      next => exact (KeepsVars.record _).bind fun _ => .pure _

theorem currentRun_keepsVars (l : Loop) (random : Bool) : KeepsVars (l.currentRun random) := by
  unfold currentRun
  split
  next => exact .pure _
  next => exact l.start_keepsVars _

theorem requeue_keepsVars (r : Run) (random : Bool) (repeated : Option Nat) :
    KeepsVars (requeue r random repeated) := by
  cases repeated with
  | none => exact .pure _
  | some k => exact (KeepsVars.record _).bind fun _ => (KeepsVars.within _).bind fun _ => .pure _

theorem breaks_keepsVars (text : String) : KeepsVars (breaks text) := by
  unfold breaks
  split
  next => exact .pure _
  next =>
    refine (KeepsVars.recordAll _).bind fun _ => ?_
    split
    next => exact .pure _
    next => exact .pure _
    next => exact (KeepsVars.within _).bind fun _ => .pure _

end Loop

end TrialLoop
