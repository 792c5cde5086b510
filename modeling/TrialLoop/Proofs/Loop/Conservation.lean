import TrialLoop.Proofs.Loop.Turn

namespace TrialLoop

/-- What the steps of a run did so far. -/
structure History where
  /-- The rows of the run. -/
  table : Table
  /-- The queue that the run started with. -/
  committed : List Nat
  /-- A step found a random order. -/
  random : Bool := false
  /-- The cycles that steps were to repeat, in the order of the steps. -/
  repeated : List Nat := []
  /-- The cycles that steps took from the queue, in the order of the steps. -/
  taken : List Nat := []
  /-- The queue that the last step left. -/
  queue : List Nat

namespace History

/-- The history of a run before its first step takes a cycle. -/
def ofRun (r : Run) : History :=
  { table := r.table, committed := r.queue, queue := r.queue }

/-- The history with one more step. -/
def after (h : History) (t : Turn) : History :=
  { h with
    random := h.random || t.random
    repeated := h.repeated ++ t.repeated.toList
    taken := h.taken ++ t.run.queue.head?.toList
    queue := t.run.queue.tail }

end History

/--
The loops that the steps of one run lead to, with the history of the run. Before each step the
settings of the loop and the whole workspace, with its variables and its random stream, may be
changed in any way.
-/
inductive RunReach : Loop → History → Prop
  | first {l : Loop} {w w' : Workspace} {t : Turn} : l.run = none → l.turn w = (.ok t, w') →
      RunReach (l.step w).1.2 ((History.ofRun t.found).after t)
  | next {l : Loop} {h : History} {w w' : Workspace} {t : Turn} (vars : Bindings) :
      RunReach l h → l.run.isSome → ({ l with vars := vars } : Loop).turn w = (.ok t, w') →
      RunReach (({ l with vars := vars } : Loop).step w).1.2 (h.after t)

/-- A run agrees with a history on its queue, its current cycle and its rows. -/
def Run.Agrees (r : Run) (h : History) : Prop :=
  r.queue = h.queue ∧ r.current = h.taken.getLast? ∧ r.table = h.table

/-- The cycles of a history are those committed and those repeated, and all of them are rows. -/
structure History.Kept (h : History) : Prop where
  nodup : h.committed.Nodup
  rows : ∀ k ∈ h.committed ++ h.repeated, k < h.table.size
  perm : (h.taken ++ h.queue).Perm (h.committed ++ h.repeated)
  order : h.random = false → h.taken ++ h.queue = h.committed ++ h.repeated

theorem History.Kept.ofRun {r : Run} (h : Loop.IsQueueOf r.table.size r.queue) :
    (History.ofRun r).Kept where
  nodup := h.1
  rows := by simpa [History.ofRun] using h.2
  perm := by simp [History.ofRun]
  order := by simp [History.ofRun]

/-- What a turn does to the queue, and what it may repeat. -/
theorem turn_spec {l : Loop} {w w' : Workspace} {t : Turn} (h : l.turn w = (.ok t, w')) :
    (∃ w₁, (l.currentRun t.random w₁).1 = .ok t.found) ∧
    (∀ k, t.repeated = some k → t.found.current = some k) ∧
    ∃ queue, t.run = { t.found with queue := queue } ∧
      queue.Perm (t.found.queue ++ t.repeated.toList) ∧
      (t.random = false → queue = t.found.queue ++ t.repeated.toList) := by
  rw [Loop.turn_eq] at h
  rcases hs : l.setting "order" (.str "random") w with ⟨v, w₁⟩
  rcases hc : l.currentRun (v.text == "random") w₁ with ⟨cause | r, w₂⟩
  · simp only [hs, hc] at h
    cases h
  · simp only [hs, hc] at h
    cases h
    refine ⟨⟨w₁, congrArg Prod.fst hc⟩, ?_, Loop.requeue_spec r _ _ _⟩
    intro k hk
    exact Loop.repeatedCycle_eq_some hk

/-- The cycle that a step takes is the first of the queue, so the order stays as it was. -/
theorem History.after_taken_queue (h : History) (t : Turn) :
    (h.after t).taken ++ (h.after t).queue = h.taken ++ t.run.queue := by
  have hq : t.run.queue.head?.toList ++ t.run.queue.tail = t.run.queue := by
    cases t.run.queue <;> rfl
  show h.taken ++ t.run.queue.head?.toList ++ t.run.queue.tail = _
  rw [List.append_assoc, hq]

/-- A turn of a run that agrees with its history keeps the cycles of the history. -/
theorem History.Kept.after {h : History} {t : Turn} (hk : h.Kept) (ha : t.found.Agrees h)
    (hr : ∀ k, t.repeated = some k → t.found.current = some k)
    (hp : t.run.queue.Perm (h.queue ++ t.repeated.toList))
    (ho : t.random = false → t.run.queue = h.queue ++ t.repeated.toList) : (h.after t).Kept where
  nodup := hk.nodup
  rows := by
    intro k hm
    rcases List.mem_append.mp hm with hm | hm
    · exact hk.rows k (List.mem_append_left _ hm)
    · rcases List.mem_append.mp hm with hm | hm
      · exact hk.rows k (List.mem_append_right _ hm)
      · -- A repeated cycle was taken last, so it is one of those kept so far.
        have hc := hr k (Option.mem_toList.mp hm)
        have hl : k ∈ h.taken := List.mem_of_getLast? (ha.2.1 ▸ hc)
        exact hk.rows k (hk.perm.subset (List.mem_append_left _ hl))
  perm := by
    rw [h.after_taken_queue t]
    calc
      (h.taken ++ t.run.queue).Perm (h.taken ++ (h.queue ++ t.repeated.toList)) := hp.append_left _
      _ = h.taken ++ h.queue ++ t.repeated.toList := (List.append_assoc _ _ _).symm
      List.Perm _ (h.committed ++ h.repeated ++ t.repeated.toList) := hk.perm.append_right _
      _ = h.committed ++ (h.repeated ++ t.repeated.toList) := List.append_assoc _ _ _
  order := by
    intro hn
    have hn' : h.random = false ∧ t.random = false := Bool.or_eq_false_iff.mp hn
    rw [h.after_taken_queue t, ho hn'.2, ← List.append_assoc, hk.order hn'.1]
    exact List.append_assoc _ _ _

theorem agrees_after {l : Loop} {h : History} {t : Turn} {w : Workspace}
    (ht : t.run.table = h.table) {r : Run} (hr : (l.finish t.run w).1.2.run = some r) :
    r.Agrees (h.after t) := by
  obtain ⟨k, hq, he⟩ := Loop.finish_run hr
  rw [he]
  refine ⟨?_, ?_, ht⟩
  · simp [History.after, hq]
  · simp [History.after, hq]

/-- The invariant of a run: every step keeps its cycles and agrees with its history. -/
theorem runReach_kept {l : Loop} {h : History} (reach : RunReach l h) :
    h.Kept ∧ ∀ r, l.run = some r → r.Agrees h := by
  induction reach with
  | @first l w w' t hn ht =>
    obtain ⟨⟨w₁, hs⟩, hrep, queue, hrun, hp, ho⟩ := turn_spec ht
    simp only [Loop.currentRun, hn] at hs
    obtain ⟨hcur, hq⟩ := Loop.start_isQueueOf hs
    have hstep : l.step w = l.finish t.run w' := by rw [Loop.step_eq, ht]
    rw [hstep]
    constructor
    · refine (History.Kept.ofRun hq).after ⟨rfl, hcur, rfl⟩ hrep ?_ ?_
      · rw [hrun]
        exact hp
      · rw [hrun]
        exact ho
    · intro r hr
      exact agrees_after (by rw [hrun]; rfl) hr
  | @next l h w w' t vars reach hsome ht ih =>
    obtain ⟨⟨w₁, hs⟩, hrep, queue, hrun, hp, ho⟩ := turn_spec ht
    obtain ⟨r, hr⟩ := Option.isSome_iff_exists.mp hsome
    simp only [Loop.currentRun, hr] at hs
    have hfound : r = t.found := Except.ok.inj hs
    have ha : t.found.Agrees h := hfound ▸ ih.2 r hr
    have hstep : ({ l with vars := vars } : Loop).step w =
        ({ l with vars := vars } : Loop).finish t.run w' := by rw [Loop.step_eq, ht]
    rw [hstep]
    rw [ha.1] at hp ho
    constructor
    · refine ih.1.after ha hrep ?_ ?_
      · rw [hrun]
        exact hp
      · rw [hrun]
        exact ho
    · intro r' hr'
      exact agrees_after (by rw [hrun]; exact ha.2.2) hr'

/-- A loop of two cycles in the order of its table. -/
def twoCycles : Loop :=
  { name := "block"
    vars := Loop.defaults.set "order" (.str "sequential")
    table := ⟨["n"], #[#[.literal (.int 1)], #[.literal (.int 2)]]⟩ }

/-- What is seen of a turn in its history. -/
def Turn.seen (t : Turn) : List Nat × Option Nat × List Nat × Bool :=
  (t.found.queue, t.repeated, t.run.queue, t.random)

end TrialLoop
