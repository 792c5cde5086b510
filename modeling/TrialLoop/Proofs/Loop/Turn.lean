import TrialLoop.Loop.Step
import TrialLoop.Proofs.Random.Permutation
import Mathlib.Data.List.Nodup

namespace TrialLoop

/-- What a step finds and does before it takes a cycle. -/
structure Turn where
  /-- The order of the cycles is random. -/
  random : Bool
  /-- The run that was under way, or else the new one. -/
  found : Run
  /-- The current cycle, if it is to be repeated. -/
  repeated : Option Nat
  /-- The run from whose queue the step takes a cycle. -/
  run : Run

namespace Loop

/-- A step up to the place where it takes a cycle. -/
def turn (l : Loop) : StateM Workspace (Except LoopError Turn) := do
  let random := (← l.setting "order" (.str "random")).text == "random"
  match ← l.currentRun random with
  | .error cause => return .error cause
  | .ok r =>
    let repeated ← repeatedCycle r
    return .ok ⟨random, r, repeated, ← requeue r random repeated⟩

/-- The rest of a step: it takes the next cycle and applies it, or ends the run. -/
def finish (l : Loop) (r : Run) : StateM Workspace (Except LoopError Step × Loop) := do
  match r.queue with
  | [] =>
    Workspace.record (.finished l.name)
    return (.ok .done, { l with run := none })
  | cycle :: queue => l.runCycle r cycle queue

theorem turn_eq (l : Loop) (w : Workspace) :
    l.turn w =
      let (order, w) := l.setting "order" (.str "random") w
      let random := order.text == "random"
      match l.currentRun random w with
      | (.error cause, w) => (.error cause, w)
      | (.ok r, w) =>
        let (repeated, w) := repeatedCycle r w
        let (r', w) := requeue r random repeated w
        (.ok ⟨random, r, repeated, r'⟩, w) := by
  unfold turn
  simp only [bind, StateT.bind]
  rcases l.setting "order" (.str "random") w with ⟨v, w1⟩
  rcases hc : l.currentRun (v.text == "random") w1 with ⟨cause | r, w2⟩
  · simp only [hc]
    rfl
  · simp only [hc]
    rfl

/-- A step is its turn, after which it goes on with the cycle taken unless no run could start. -/
theorem step_eq (l : Loop) (w : Workspace) :
    l.step w =
      match l.turn w with
      | (.error cause, w) => ((.error cause, l), w)
      | (.ok t, w) => l.finish t.run w := by
  rw [turn_eq]
  unfold step
  simp only [bind, StateT.bind]
  rcases l.setting "order" (.str "random") w with ⟨v, w1⟩
  rcases hc : l.currentRun (v.text == "random") w1 with ⟨cause | r, w2⟩
  · simp only [hc]
    rfl
  · simp only [hc]
    rfl

/-- A cycle sets its variables, and its loop goes on unless the condition ends it or fails. -/
theorem runCycle_eq (l : Loop) (r : Run) (cycle : Nat) (queue : List Nat) (w : Workspace) :
    l.runCycle r cycle queue w =
      let l' := l.withCycle r cycle queue
      let (applied, w) := applyCells l.name (r.table.rowCells cycle) w
      let w := (Workspace.set "repeat_cycle" (.int 0) w).2
      let text := l'.breakText w
      match breaks text w with
      | (.error cause, w) => ((.error cause, l'), w)
      | (.ok true, w) =>
        ((.ok .done, { l with run := none }), (Workspace.record (.broken l.name text) w).2)
      | (.ok false, w) =>
        let (item, w) := l'.setting "item" (.str "") w
        ((.ok (.run item.text cycle applied), l'), w) := by
  unfold runCycle
  have hname : (l.withCycle r cycle queue).name = l.name := rfl
  simp only [bind, StateT.bind, hname]
  rcases applyCells l.name (r.table.rowCells cycle) w with ⟨applied, w₁⟩
  have hset : Workspace.set "repeat_cycle" (.int 0) w₁ =
      ((), (Workspace.set "repeat_cycle" (.int 0) w₁).2) := rfl
  generalize (Workspace.set "repeat_cycle" (.int 0) w₁).2 = w₂ at hset
  have hget : (get : StateM Workspace Workspace) w₂ = (w₂, w₂) := rfl
  simp only [hset, hget]
  rcases breaks ((l.withCycle r cycle queue).breakText w₂) w₂ with ⟨cause | ⟨⟨⟩⟩, w₃⟩
  · rfl
  · rfl
  · rfl

theorem runCycle_run {l : Loop} {r r' : Run} {cycle : Nat} {queue : List Nat} {w : Workspace}
    (h : (l.runCycle r cycle queue w).1.2.run = some r') :
    r' = { r with queue := queue, current := some cycle } := by
  rw [runCycle_eq] at h
  dsimp only at h
  split at h
  split at h
  next => exact (Option.some.inj h).symm
  next => cases h
  next => exact (Option.some.inj h).symm

/-- What a step leaves of a run, if it leaves it under way. -/
theorem finish_run {l : Loop} {r r' : Run} {w : Workspace}
    (h : (l.finish r w).1.2.run = some r') :
    ∃ k, r.queue = k :: r'.queue ∧ r' = { r with queue := r'.queue, current := some k } := by
  unfold finish at h
  rcases hq : r.queue with _ | ⟨k, queue⟩
  · simp only [hq] at h
    cases h
  · simp only [hq] at h
    obtain rfl := runCycle_run h
    exact ⟨k, rfl, rfl⟩

theorem step_of_queue_nil {l : Loop} {w w₁ : Workspace} {t : Turn}
    (ht : l.turn w = (.ok t, w₁)) (hq : t.run.queue = []) :
    (l.step w).1 = (.ok .done, { l with run := none }) := by
  rw [step_eq, ht]
  simp only [finish, hq]
  rfl

theorem step_of_queue_cons {l : Loop} {w w₁ : Workspace} {t : Turn} {cycle : Nat}
    {queue : List Nat} (ht : l.turn w = (.ok t, w₁)) (hq : t.run.queue = cycle :: queue) :
    l.step w = l.runCycle t.run cycle queue w₁ := by
  rw [step_eq, ht]
  simp only [finish, hq]

/-- A step that has taken a cycle goes on with it, or ends or fails by its condition. -/
theorem step_taken {l : Loop} {w w₁ : Workspace} {t : Turn} {cycle : Nat} {queue : List Nat}
    (ht : l.turn w = (.ok t, w₁)) (hq : t.run.queue = cycle :: queue) :
    (∃ item applied,
      (l.step w).1 = (.ok (.run item cycle applied), l.withCycle t.run cycle queue)) ∨
    (l.step w).1 = (.ok .done, { l with run := none }) ∨
    ∃ cause, (l.step w).1 = (.error cause, l.withCycle t.run cycle queue) := by
  rw [step_of_queue_cons ht hq, runCycle_eq]
  rcases applyCells l.name (t.run.table.rowCells cycle) w₁ with ⟨applied, w₂⟩
  dsimp only
  split
  next cause _ _ => exact .inr (.inr ⟨cause, rfl⟩)
  next => exact .inr (.inl rfl)
  next => exact .inl ⟨_, applied, rfl⟩

/-- A queue of some rows, each of them at most once. -/
def IsQueueOf (rows : Nat) (queue : List Nat) : Prop :=
  queue.Nodup ∧ ∀ k ∈ queue, k < rows

theorem range_isQueueOf (rows : Nat) : IsQueueOf rows (List.range rows) :=
  ⟨List.nodup_range, fun _ hk => List.mem_range.mp hk⟩

theorem queueFrom_isQueueOf {rows skip : Nat} (h : skip ≤ rows) (offset : Bool) :
    IsQueueOf rows (queueFrom rows skip offset) := by
  have hlate : IsQueueOf rows (List.range' skip (rows - skip)) := by
    refine ⟨List.nodup_range', ?_⟩
    intro k hk
    have := (List.mem_range'_1.mp hk).2
    omega
  cases offset with
  | false => exact hlate
  | true =>
    constructor
    · refine List.Nodup.append hlate.1 List.nodup_range ?_
      intro k hk hs
      have := (List.mem_range'_1.mp hk).1
      have := List.mem_range.mp hs
      omega
    · intro k hk
      rcases List.mem_append.mp hk with hk | hk
      · exact hlate.2 k hk
      · have := List.mem_range.mp hk
        omega

theorem skipOf_le {rows skip : Nat} {v : Value} (h : skipOf rows v = .ok skip) : skip ≤ rows := by
  unfold skipOf at h
  split at h
  next n hn =>
    split at h
    next hb =>
      cases Except.ok.inj h
      omega
    next => cases h
  next => cases h

theorem startQueue_isQueueOf {l : Loop} {rows : Nat} {w : Workspace} {queue : List Nat}
    (h : (l.startQueue rows w).1 = .ok queue) : IsQueueOf rows queue := by
  unfold startQueue at h
  simp only [bind, StateT.bind] at h
  rcases hs : l.setting "skip" (.int 0) w with ⟨v, w1⟩
  rw [hs] at h
  rcases hn : skipOf rows v with cause | skip
  · simp only [hn] at h
    cases h
  · have hb := skipOf_le hn
    cases skip with
    | zero =>
      simp only [hn] at h
      cases Except.ok.inj h
      exact range_isQueueOf rows
    | succ skip =>
      simp only [hn] at h
      cases Except.ok.inj h
      exact queueFrom_isQueueOf hb _

/-- A new run has no current cycle, and its queue holds rows of its own table. -/
theorem start_isQueueOf {l : Loop} {random : Bool} {w : Workspace} {r : Run}
    (h : (l.start random w).1 = .ok r) : r.current = none ∧ IsQueueOf r.table.size r.queue := by
  unfold start at h
  simp only [bind, StateT.bind] at h
  rcases hs : l.setting "repeat" (.int 1) w with ⟨v, w1⟩
  rw [hs] at h
  rcases hr : repeats l.table.size v with cause | n
  · simp only [hr] at h
    cases h
  simp only [hr, bind, StateT.bind] at h
  rcases ho : Workspace.draw (cycleOrder l.table.size n random) w1 with ⟨order, w2⟩
  rw [ho] at h
  rcases ht : (Workspace.within fun scope =>
      Operation.applyAll scope.context l.operations.toList (l.table.pickRows order)) w2
    with ⟨cause | table, w3⟩
  · simp only [ht] at h
    cases h
  simp only [ht, bind, StateT.bind] at h
  rcases hq : l.startQueue table.size w3 with ⟨cause | queue, w4⟩
  · simp only [hq] at h
    cases h
  · simp only [hq] at h
    cases Except.ok.inj h
    exact ⟨rfl, startQueue_isQueueOf (congrArg Prod.fst hq)⟩

/-- A repeated cycle goes to the end of the queue, which a random order then shuffles. -/
theorem requeue_spec (r : Run) (random : Bool) (repeated : Option Nat) (w : Workspace) :
    ∃ queue, (requeue r random repeated w).1 = { r with queue := queue } ∧
      queue.Perm (r.queue ++ repeated.toList) ∧
      (random = false → queue = r.queue ++ repeated.toList) := by
  cases repeated with
  | none => exact ⟨r.queue, rfl, by simp, by simp⟩
  | some k =>
    refine ⟨_, rfl, (shuffleIf_perm random _ _).toList, ?_⟩
    intro hr
    subst hr
    rfl

theorem repeatedCycle_eq_some {r : Run} {w : Workspace} {k : Nat}
    (h : (repeatedCycle r w).1 = some k) : r.current = some k := by
  have he : (repeatedCycle r w).1 =
      if (Workspace.within (fun scope => lookup scope "repeat_cycle") w).1 >>= Value.int? = some 1
      then r.current else none := rfl
  rw [he] at h
  split at h
  next => exact h
  next => cases h

end Loop

end TrialLoop
