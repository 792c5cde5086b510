import TrialLoop.Proofs.Loop.Conservation
import TrialLoop.Proofs.Loop.Reading

namespace TrialLoop

/-- The variable by which an experiment asks for a cycle once more. -/
def Workspace.flag (w : Workspace) : Option Value :=
  w.vars.get? "repeat_cycle"

namespace Loop

/-- The cycle that a turn takes from the queue, if it comes so far. -/
def takenIn (turn : Except LoopError Turn) : Option Nat :=
  turn.toOption.bind (·.run.queue.head?)

/-- The cycle that a turn puts into the queue once more. -/
def repeatedIn (turn : Except LoopError Turn) : Option Nat :=
  turn.toOption.bind (·.repeated)

/-- The cycle that a step goes on with. -/
def ranIn : Except LoopError Step → Option Nat
  | .ok (.run _ cycle _) => some cycle
  | _ => none

theorem exists_of_ranIn {result : Except LoopError Step} {k : Nat} (h : ranIn result = some k) :
    ∃ item applied, result = .ok (.run item k applied) := by
  unfold ranIn at h
  split at h
  next item cycle applied =>
    cases h
    exact ⟨item, applied, rfl⟩
  next => cases h

theorem repeatedCycle_of_flag {w : Workspace} {n : Int64} (h : w.flag = some (.int n)) (r : Run) :
    (repeatedCycle r w).1 = if n = 1 then r.current else none := by
  have hraw : Scope.raw? [w.vars] "repeat_cycle" = some (.int n) := (raw?_singleton _ _).trans h
  have hread : (Workspace.within (fun scope => lookup scope "repeat_cycle") w).1 = some (.int n) :=
    lookup_eq_of_raw hraw w.session
  have heq : (repeatedCycle r w).1 =
      if (Workspace.within (fun scope => lookup scope "repeat_cycle") w).1 >>= Value.int? = some 1
      then r.current else none := rfl
  rw [heq, hread]
  simp [Value.int?]

/-- A turn repeats the current cycle of the run it finds if the flag is one, and else none. -/
theorem turn_repeated {l : Loop} {w w' : Workspace} {t : Turn} {n : Int64}
    (h : l.turn w = (.ok t, w')) (hf : w.flag = some (.int n)) :
    t.repeated = if n = 1 then t.found.current else none := by
  rw [turn_eq] at h
  have horder := l.setting_keepsVars "order" (.str "random") w
  rcases hs : l.setting "order" (.str "random") w with ⟨v, w₁⟩
  have hrun := l.currentRun_keepsVars (v.text == "random") w₁
  rcases hc : l.currentRun (v.text == "random") w₁ with ⟨cause | r, w₂⟩
  · simp only [hs, hc] at h
    cases h
  · simp only [hs, hc] at h horder hrun
    cases h
    have hf' : w₂.flag = some (.int n) := by
      rw [Workspace.flag, hrun, horder]
      exact hf
    exact repeatedCycle_of_flag hf' r

/-- A turn of a run that is under way goes on with this run. -/
theorem turn_of_run {l : Loop} {r : Run} (h : l.run = some r) (w : Workspace) :
    ∃ t w', l.turn w = (.ok t, w') ∧ t.found = r := by
  rw [turn_eq]
  rcases l.setting "order" (.str "random") w with ⟨v, w₁⟩
  have hc : l.currentRun (v.text == "random") w₁ = (.ok r, w₁) := by
    rw [currentRun, h]
    rfl
  simp only [hc]
  exact ⟨_, _, rfl, rfl⟩

/-- A turn that repeats a cycle has one to take. -/
theorem repeatedIn_of_not_taken {l : Loop} {w : Workspace} (h : takenIn (l.turn w).1 = none) :
    repeatedIn (l.turn w).1 = none := by
  rcases ht : l.turn w with ⟨cause | t, w'⟩
  · rfl
  · rw [ht] at h
    obtain ⟨-, -, queue, hrun, hp, -⟩ := turn_spec ht
    have hq : t.run.queue = [] := List.head?_eq_none_iff.mp h
    rw [hrun] at hq
    subst hq
    have hnone := (List.append_eq_nil_iff.mp hp.nil_eq.symm).2
    exact Option.toList_eq_nil_iff.mp hnone

/-- A step clears the flag if it takes a cycle, and else leaves it as it was. -/
theorem step_flag (l : Loop) (w : Workspace) :
    (l.step w).2.flag = if (takenIn (l.turn w).1).isSome then some (.int 0) else w.flag := by
  have hvars := l.turn_keepsVars w
  rcases ht : l.turn w with ⟨cause | t, w₁⟩
  · rw [ht] at hvars
    rw [step_eq, ht]
    exact congrArg (·.get? "repeat_cycle") hvars
  · rw [ht] at hvars
    rcases hq : t.run.queue with _ | ⟨cycle, queue⟩
    · have htaken : takenIn (.ok t) = none := congrArg List.head? hq
      rw [step_eq, ht, htaken]
      simp only [finish, hq]
      exact congrArg (·.get? "repeat_cycle") hvars
    · have htaken : takenIn (.ok t) = some cycle := congrArg List.head? hq
      rw [step_of_queue_cons ht hq, htaken, Workspace.flag, runCycle_vars, Bindings.get?_set]
      rfl

/--
Steps of a loop one after another, with their turns. Before and after each of them the settings of
the loop and the whole workspace may be changed in any way, but for the flag.
-/
inductive Meanwhile : Loop → Workspace → List (Except LoopError Turn) → Workspace → Prop
  | rest {l : Loop} {w w' : Workspace} : w'.flag = w.flag → Meanwhile l w [] w'
  | step {l : Loop} {w w₁ w' : Workspace} {turns : List (Except LoopError Turn)}
      (vars : Bindings) : w₁.flag = w.flag →
      Meanwhile (({ l with vars := vars } : Loop).step w₁).1.2
        (({ l with vars := vars } : Loop).step w₁).2 turns w' →
      Meanwhile l w ((({ l with vars := vars } : Loop).turn w₁).1 :: turns) w'

/-- Steps in which nothing is asked for repeat nothing. -/
theorem Meanwhile.of_clear {l : Loop} {w w' : Workspace} {turns : List (Except LoopError Turn)}
    (h : Meanwhile l w turns w') (hf : w.flag = some (.int 0)) :
    w'.flag = some (.int 0) ∧ ∀ turn ∈ turns, repeatedIn turn = none := by
  induction h with
  | rest hsame => exact ⟨hsame.trans hf, by simp⟩
  | @step l w w₁ w' turns vars hsame rest ih =>
    have hf₁ := hsame.trans hf
    have hafter : (({ l with vars := vars } : Loop).step w₁).2.flag = some (.int 0) := by
      rw [step_flag, hf₁, ite_self]
    obtain ⟨hend, hnone⟩ := ih hafter
    refine ⟨hend, List.forall_mem_cons.mpr ⟨?_, hnone⟩⟩
    rcases ht : ({ l with vars := vars } : Loop).turn w₁ with ⟨cause | t, w₂⟩
    · rfl
    · exact turn_repeated ht hf₁

/--
A request outlasts the steps that take no cycle. The first step that takes one repeats the current
cycle of its own loop, and the steps after it repeat nothing.
-/
theorem Meanwhile.of_request {l : Loop} {w w' : Workspace} {turns : List (Except LoopError Turn)}
    (h : Meanwhile l w turns w') (hf : w.flag = some (.int 1)) :
    (w'.flag = some (.int 1) ∧ ∀ turn ∈ turns, takenIn turn = none ∧ repeatedIn turn = none) ∨
    ∃ before t after, turns = before ++ .ok t :: after ∧ t.run.queue ≠ [] ∧
      t.repeated = t.found.current ∧
      t.run.queue.Perm (t.found.queue ++ t.repeated.toList) ∧
      (∀ turn ∈ before, takenIn turn = none ∧ repeatedIn turn = none) ∧
      (∀ turn ∈ after, repeatedIn turn = none) ∧ w'.flag = some (.int 0) := by
  induction h with
  | rest hsame => exact .inl ⟨hsame.trans hf, by simp⟩
  | @step l w w₁ w' turns vars hsame rest ih =>
    have hf₁ := hsame.trans hf
    have hafter := step_flag ({ l with vars := vars } : Loop) w₁
    rcases htaken : takenIn (({ l with vars := vars } : Loop).turn w₁).1 with _ | cycle
    · have hnone := repeatedIn_of_not_taken htaken
      rw [htaken, hf₁] at hafter
      rcases ih hafter with ⟨hend, hall⟩ | ⟨before, t, after, rfl, hq, hrep, hp, hall, hlater, hend⟩
      · exact .inl ⟨hend, List.forall_mem_cons.mpr ⟨⟨htaken, hnone⟩, hall⟩⟩
      · exact .inr ⟨_ :: before, t, after, rfl, hq, hrep, hp,
          List.forall_mem_cons.mpr ⟨⟨htaken, hnone⟩, hall⟩, hlater, hend⟩
    · -- This step takes a cycle, so the flag is cleared for all that come after it.
      rw [htaken] at hafter
      obtain ⟨hend, hlater⟩ := rest.of_clear hafter
      rcases ht : ({ l with vars := vars } : Loop).turn w₁ with ⟨cause | t, w₂⟩
      · rw [ht] at htaken
        cases htaken
      · obtain ⟨-, -, queue, hrun, hp, -⟩ := turn_spec ht
        refine .inr ⟨[], t, turns, rfl, ?_, turn_repeated ht hf₁, ?_, by simp, hlater, hend⟩
        · intro hq
          rw [ht] at htaken
          cases htaken.symm.trans (congrArg List.head? hq)
        · rw [hrun]
          exact hp

theorem run_of_step_run {l l' : Loop} {w : Workspace} {item : String} {k : Nat}
    {applied : List (String × Value)} (h : (l.step w).1 = (.ok (.run item k applied), l')) :
    ∃ r, l'.run = some r ∧ r.current = some k := by
  obtain ⟨t, _, queue, _, _, -, hloop, -⟩ := step_run (congrArg Prod.fst h)
  rw [h] at hloop
  exact ⟨_, congrArg Loop.run hloop, rfl⟩

/--
A request that follows a cycle of a loop is granted by the next step of this loop, just once, if no
step of another loop in between takes a cycle. The first one that takes a cycle has the request
instead: it repeats the current cycle of its own loop, and no other step repeats one.
-/
theorem request_goes_to_next_cycle {a a' b : Loop} {w₀ w w' : Workspace} {item : String} {k : Nat}
    {applied : List (String × Value)} {turns : List (Except LoopError Turn)}
    (hrun : (a.step w₀).1 = (.ok (.run item k applied), a'))
    (hrequest : w.flag = some (.int 1)) (hsteps : Meanwhile b w turns w') (vars : Bindings) :
    ∃ r t w₁, a'.run = some r ∧ ({ a' with vars := vars } : Loop).turn w' = (.ok t, w₁) ∧
      t.found = r ∧ t.run.queue.Perm (r.queue ++ t.repeated.toList) ∧
      (({ a' with vars := vars } : Loop).step w').2.flag = some (.int 0) ∧
      ((t.repeated = some k ∧ ∀ turn ∈ turns, takenIn turn = none ∧ repeatedIn turn = none) ∨
      (t.repeated = none ∧ ∃ before first after, turns = before ++ .ok first :: after ∧
        first.run.queue ≠ [] ∧ first.repeated = first.found.current ∧
        first.run.queue.Perm (first.found.queue ++ first.repeated.toList) ∧
        (∀ turn ∈ before, takenIn turn = none ∧ repeatedIn turn = none) ∧
        ∀ turn ∈ after, repeatedIn turn = none)) := by
  obtain ⟨r, hr, hcurrent⟩ := run_of_step_run hrun
  obtain ⟨t, w₁, ht, hfound⟩ := turn_of_run (l := { a' with vars := vars }) hr w'
  obtain ⟨-, -, queue, htrun, hp, -⟩ := turn_spec ht
  have hqueue : t.run.queue.Perm (r.queue ++ t.repeated.toList) := by
    rw [htrun, ← hfound]
    exact hp
  have hflag := step_flag ({ a' with vars := vars } : Loop) w'
  refine ⟨r, t, w₁, hr, ht, hfound, hqueue, ?_⟩
  rcases hsteps.of_request hrequest with
    ⟨hend, hall⟩ | ⟨before, first, after, hturns, hq, hrep, hfirst, hbefore, hlater, hend⟩
  · have hrepeated : t.repeated = some k := by
      rw [turn_repeated ht hend, if_pos rfl, hfound, hcurrent]
    have hmem : k ∈ t.run.queue := hqueue.mem_iff.mpr (by simp [hrepeated])
    have htaken : (takenIn (.ok t)).isSome := List.isSome_head?.mpr (List.ne_nil_of_mem hmem)
    rw [ht, if_pos htaken] at hflag
    exact ⟨hflag, .inl ⟨hrepeated, hall⟩⟩
  · have hrepeated : t.repeated = none := turn_repeated ht hend
    rw [hend, ite_self] at hflag
    exact ⟨hflag, .inr ⟨hrepeated, before, first, after, hturns, hq, hrep, hfirst, hbefore, hlater⟩⟩

/-- A loop of no cycles. -/
def noCycles : Loop :=
  { name := "idle", vars := defaults }

/-- A loop without cycles steps in between, and the request is still there for the other loop. -/
theorem request_goes_to_next_cycle_idle :
    let first := twoCycles.step (.ofSeed .empty 0)
    let w := (Workspace.set "repeat_cycle" (.int 1) first.2).2
    ∃ item applied, first.1.1 = .ok (.run item 0 applied) ∧ w.flag = some (.int 1) ∧
      Meanwhile noCycles w [(noCycles.turn w).1] (noCycles.step w).2 ∧
      ∃ t w₁, first.1.2.turn (noCycles.step w).2 = (.ok t, w₁) ∧ t.repeated = some 0 := by
  intro first w
  have hran : ranIn first.1.1 = some 0 := by decide +kernel
  obtain ⟨item, applied, hresult⟩ := exists_of_ranIn hran
  have hrequest : w.flag = some (.int 1) := (Bindings.get?_set _ _ _ _).trans (if_pos rfl)
  have hsteps : Meanwhile noCycles w [(noCycles.turn w).1] (noCycles.step w).2 :=
    .step defaults rfl (.rest rfl)
  refine ⟨item, applied, hresult, hrequest, hsteps, ?_⟩
  obtain ⟨_, t, w₁, -, ht, -, -, -, ⟨hk, -⟩ | ⟨-, before, other, after, hturns, hq, -⟩⟩ :=
    request_goes_to_next_cycle (Prod.ext hresult rfl) hrequest hsteps first.1.2.vars
  · exact ⟨t, w₁, ht, hk⟩
  · have hmem : .ok other ∈ [(noCycles.turn w).1] := by simp [hturns]
    have hnone : takenIn (noCycles.turn w).1 = none := by decide +kernel
    rw [← List.mem_singleton.mp hmem] at hnone
    exact absurd (List.head?_eq_none_iff.mp hnone) hq

/-- A loop of two cycles in their order, with a variable of its own. -/
def otherTwoCycles : Loop :=
  { twoCycles with name := "other", table := ⟨["m"], #[#[.literal (.int 5)], #[.literal (.int 6)]]⟩ }

/--
One loop runs its first cycle, then another one its own. The request that follows is one for the
other loop, which has the next step, and none for the loop that started first.
-/
theorem request_lost_to_other_loop :
    let first := twoCycles.step (.ofSeed .empty 0)
    let second := otherTwoCycles.step first.2
    let w := (Workspace.set "repeat_cycle" (.int 1) second.2).2
    let w' := (second.1.2.step w).2
    ranIn first.1.1 = some 0 ∧ w.flag.bind Value.int? = some 1 ∧
      (second.1.2.turn w).1.toOption.map Turn.seen = some ([1], some 0, [1, 0], false) ∧
      (first.1.2.turn w').1.toOption.map Turn.seen = some ([1], none, [1], false) :=
  ⟨by decide +kernel, by decide +kernel, by decide +kernel, by decide +kernel⟩

end Loop

end TrialLoop
