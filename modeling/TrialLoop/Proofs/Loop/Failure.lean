import TrialLoop.Program.Trace
import TrialLoop.Proofs.Loop.Conservation

namespace TrialLoop

namespace Loop

/--
A step that fails before it takes a cycle leaves the loop as it was. One whose condition fails has
taken a cycle, and leaves the rest of the queue.
-/
theorem step_failed {l l' : Loop} {w w' : Workspace} {cause : LoopError}
    (h : l.step w = ((.error cause, l'), w')) :
    (l.turn w = (.error cause, w') ∧ l' = l) ∨
    ∃ t w₁ cycle queue, l.turn w = (.ok t, w₁) ∧ t.run.queue = cycle :: queue ∧
      l' = l.withCycle t.run cycle queue := by
  rcases ht : l.turn w with ⟨cause' | t, w₁⟩
  · rw [step_eq, ht] at h
    cases h
    exact .inl ⟨rfl, rfl⟩
  · refine .inr ⟨t, w₁, ?_⟩
    rcases hq : t.run.queue with _ | ⟨cycle, queue⟩
    · cases (step_of_queue_nil ht hq).symm.trans (congrArg Prod.fst h)
    · have hresult := congrArg Prod.fst h
      rcases step_taken ht hq with ⟨item, applied, hs⟩ | hs | ⟨cause', hs⟩
      · cases hs.symm.trans hresult
      · cases hs.symm.trans hresult
      · cases hs.symm.trans hresult
        exact ⟨cycle, queue, rfl, rfl, rfl⟩

/-- A step that fails keeps its table, and its queue but for the cycle that it took, if any. -/
theorem step_failed_remaining {l l' : Loop} {w w' : Workspace} {cause : LoopError}
    (h : l.step w = ((.error cause, l'), w')) :
    l'.table = l.table ∧
    (l'.remaining? = l.remaining? ∨
      ∃ t w₁ cycle queue, l.turn w = (.ok t, w₁) ∧ t.run.queue = cycle :: queue ∧
        l'.remaining? = some queue) := by
  rcases step_failed h with ⟨-, rfl⟩ | ⟨t, w₁, cycle, queue, ht, hq, rfl⟩
  · exact ⟨rfl, .inl rfl⟩
  · exact ⟨rfl, .inr ⟨t, w₁, cycle, queue, ht, hq, rfl⟩⟩

end Loop

/-- The cycles that steps took: those with which they went on, and those that were lost to errors. -/
structure Ledger where
  ran : List Nat := []
  lost : List Nat := []

/-- With what became of the first cycle of a queue in a step. -/
def Ledger.after (g : Ledger) (queue : List Nat) : Except LoopError Step → Ledger
  | .ok (.run _ cycle _) => { g with ran := g.ran ++ [cycle] }
  | .ok .done => g
  | .error _ => { g with lost := g.lost ++ queue.head?.toList }

/--
The loops that the steps of one run lead to, as in `RunReach`, with a ledger of the cycles. Steps
may fail and the run goes on after them.
-/
inductive LedgerReach : Loop → History → Ledger → Prop
  | first {l : Loop} {w w' : Workspace} {t : Turn} : l.run = none → l.turn w = (.ok t, w') →
      LedgerReach (l.step w).1.2 ((History.ofRun t.found).after t)
        (Ledger.after {} t.run.queue (l.step w).1.1)
  | next {l : Loop} {h : History} {g : Ledger} {w w' : Workspace} {t : Turn} (vars : Bindings) :
      LedgerReach l h g → l.run.isSome → ({ l with vars := vars } : Loop).turn w = (.ok t, w') →
      LedgerReach (({ l with vars := vars } : Loop).step w).1.2 (h.after t)
        (g.after t.run.queue (({ l with vars := vars } : Loop).step w).1.1)

theorem LedgerReach.runReach {l : Loop} {h : History} {g : Ledger} (reach : LedgerReach l h g) :
    RunReach l h := by
  induction reach with
  | first hn ht => exact .first hn ht
  | next vars _ hsome ht ih => exact .next vars ih hsome ht

/-- A step that leaves its run under way puts the cycle that it takes into the ledger. -/
theorem Ledger.after_step {l : Loop} {w w' : Workspace} {t : Turn} (ht : l.turn w = (.ok t, w'))
    (hsome : (l.step w).1.2.run.isSome) (g : Ledger) :
    let g' := g.after t.run.queue (l.step w).1.1
    (g'.ran ++ g'.lost).Perm (g.ran ++ g.lost ++ t.run.queue.head?.toList) := by
  rcases hq : t.run.queue with _ | ⟨cycle, queue⟩
  · rw [Loop.step_of_queue_nil ht hq] at hsome
    cases hsome
  · rcases Loop.step_taken ht hq with ⟨item, applied, hs⟩ | hs | ⟨cause, hs⟩
    · rw [hs]
      simp only [Ledger.after, List.head?_cons, Option.toList_some, List.append_assoc]
      exact (List.perm_append_comm).append_left _
    · rw [hs] at hsome
      cases hsome
    · rw [hs]
      simp only [Ledger.after, List.head?_cons, Option.toList_some, List.append_assoc]
      exact List.Perm.refl _

theorem ledgerReach_taken {l : Loop} {h : History} {g : Ledger} (reach : LedgerReach l h g)
    (hsome : l.run.isSome) : (g.ran ++ g.lost).Perm h.taken := by
  induction reach with
  | first hn ht => exact Ledger.after_step ht hsome {}
  | next vars _ hbefore ht ih =>
    exact (Ledger.after_step ht hsome _).trans ((ih hbefore).append_right _)

/--
A run under way has lost just the cycles of the steps that failed: what its steps went on with, what
they lost and what is queued are the committed cycles and the repeated ones.
-/
theorem run_loses_failed_cycles {l : Loop} {h : History} {g : Ledger} (reach : LedgerReach l h g)
    (hsome : l.run.isSome) :
    l.remaining? = some h.queue ∧
    (g.ran ++ g.lost ++ h.queue).Perm (h.committed ++ h.repeated) ∧
    ((g.ran ++ h.queue).Perm (h.committed ++ h.repeated) ↔ g.lost = []) := by
  obtain ⟨hk, ha⟩ := runReach_kept reach.runReach
  obtain ⟨r, hr⟩ := Option.isSome_iff_exists.mp hsome
  have hperm := ((ledgerReach_taken reach hsome).append_right h.queue).trans hk.perm
  refine ⟨by rw [Loop.remaining?, hr, Option.map_some, (ha r hr).1], hperm, fun hnone => ?_, ?_⟩
  · have hlength := hnone.length_eq.trans hperm.length_eq.symm
    simp only [List.length_append] at hlength
    exact List.length_eq_zero_iff.mp (by omega)
  · intro hnone
    rw [hnone, List.append_nil] at hperm
    exact hperm

/-- A loop of two cycles whose condition cannot be read. -/
def brokenCondition : Loop :=
  { twoCycles with vars := twoCycles.vars.set "break_if" (.str "[x") }

/-- The first step of the loop fails, and its cycle does not come again once the condition is mended. -/
theorem brokenCondition_loses_first :
    let w : Workspace := .ofSeed .empty 0
    let l := (brokenCondition.step w).1.2
    let mended : Loop := { l with vars := twoCycles.vars }
    (brokenCondition.step w).1.1.toOption.isNone ∧
      brokenCondition.remaining? = none ∧ l.remaining? = some [1] ∧
      (mended.trace none (brokenCondition.step w).2).1.cycles.toList.map Cycle.row = [1] ∧
      (twoCycles.trace none w).1.cycles.toList.map Cycle.row = [0, 1] :=
  ⟨by decide +kernel, rfl, by decide +kernel, by decide +kernel, by decide +kernel⟩

end TrialLoop
