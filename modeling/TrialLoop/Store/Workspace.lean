import TrialLoop.Store.Lookup

namespace TrialLoop

/-- The variables of an experiment and the session of its run. -/
structure Workspace where
  vars : Bindings
  session : Session

namespace Workspace

variable {α : Type}

/-- The workspace of some variables and a seed. -/
def ofSeed (vars : Bindings) (seed : UInt64) : Workspace :=
  ⟨vars, .ofSeed seed⟩

/-- What is evaluated in the scope of the variables. -/
def within (m : Scope → StateM Session α) : StateM Workspace α := fun w =>
  let (a, session) := m [w.vars] w.session
  (a, { w with session := session })

/-- What is evaluated in the scope of some variables in front of those of the experiment. -/
def withinItem (own : Bindings) (m : Scope → StateM Session α) : StateM Workspace α := fun w =>
  let (a, session) := m [own, w.vars] w.session
  (a, { w with session := session })

def record (e : Event) : StateM Workspace Unit :=
  modify fun w => { w with session := w.session.record e }

def draw (m : StateM RandomStream α) : StateM Workspace α :=
  within fun _ => Session.draw m

def set (name : String) (v : Value) : StateM Workspace Unit :=
  modify fun w => { w with vars := w.vars.set name v }

def unset (name : String) : StateM Workspace Unit :=
  modify fun w => { w with vars := w.vars.erase name }

end Workspace

end TrialLoop
