import TrialLoop.Proofs.Interpolation.Related
import TrialLoop.Store.Lookup

namespace TrialLoop

/-- The session while variables are looked up, with the names whose texts are being interpolated. -/
structure Nesting where
  session : Session
  /-- How many texts may still be interpolated before the outermost lookup ends. -/
  budget : Nat := maxWork
  /-- The names whose texts are being interpolated, the innermost first. -/
  active : List String := []
  /-- All stacks of active names that there were, the latest first. -/
  history : List (List String) := []
  /-- How many interpolations were started. -/
  started : Nat := 0
  /-- Some lookup was nested deeper than the fuel allowed. -/
  exhausted : Bool := false

namespace Nesting

def record (w : Nesting) (e : Event) : Nesting :=
  { w with session := w.session.record e }

/-- With a full budget, unless this is inside another lookup. -/
def refill (w : Nesting) : Nesting :=
  { w with budget := if w.active = [] then maxWork else w.budget }

/-- With a name on the stack, whose text is now interpolated. -/
def enter (name : String) (w : Nesting) : Nesting :=
  { w with
    budget := w.budget - 1
    active := name :: w.active
    history := (name :: w.active) :: w.history
    started := w.started + 1 }

/-- Without the last name on the stack. -/
def leave (w : Nesting) : Nesting :=
  { w with active := w.active.tail, history := w.active.tail :: w.history }

/-- The result of a function while variables are looked up. -/
def call (name : String) (arguments : List Value) : Eval Nesting Value := fun w =>
  let (result, session) := Session.draw (callFunction name arguments) w.session
  (result, { w with session := session })

/--
The value of a variable whose raw one is a text with references, which may be one inside another.
-/
def interpolated (inner : String → StateM Nesting (Option Value)) (name : String) (raw : Value)
    (text : String) : StateM Nesting (Option Value) := do
  let w ← get
  if w.active.contains name then
    modify (record · (.selfReference name))
    return some raw
  else if maxDepth ≤ w.active.length ∨ w.budget = 0 then
    modify (record · (.tooDeep name))
    return some raw
  else
    modify (enter name)
    let result ← interpolate ⟨inner, call⟩ text
    modify leave
    match result with
    | .ok v => return some v
    | .error cause =>
      modify (record · (.notInterpolated name cause))
      return some raw

/--
The value of a variable, as `TrialLoop.lookup` gives it, with one stack of names that every lookup
changes and one budget that an outermost lookup fills. A lookup takes some fuel from those in it.
-/
def lookup (scope : Scope) : (fuel : Nat) → String → StateM Nesting (Option Value)
  | 0, _ => do
    modify ({ · with exhausted := true })
    return none
  | fuel + 1, name =>
    match scope.raw? name with
    | none => return none
    | some raw =>
      match raw.reference? with
      | none => return some raw
      | some text => do
        modify refill
        interpolated (lookup scope fuel) name raw text

theorem interpolated_eq (inner : String → StateM Nesting (Option Value)) (name : String)
    (raw : Value) (text : String) (w : Nesting) :
    interpolated inner name raw text w =
      if w.active.contains name then (some raw, w.record (.selfReference name))
      else if maxDepth ≤ w.active.length ∨ w.budget = 0 then (some raw, w.record (.tooDeep name))
      else
        match interpolate ⟨inner, call⟩ text (w.enter name) with
        | (.ok v, w) => (some v, w.leave)
        | (.error cause, w) => (some raw, w.leave.record (.notInterpolated name cause)) := by
  have hget : (get : StateM Nesting Nesting) w = (w, w) := rfl
  rw [interpolated]
  simp only [bind, StateT.bind, hget]
  split
  next => rfl
  split
  next => rfl
  next =>
    have henter : (modify (enter name) : StateM Nesting Unit) w = ((), w.enter name) := rfl
    simp only [bind, StateT.bind, henter]
    rcases interpolate ⟨inner, call⟩ text (w.enter name) with ⟨cause | v, w₁⟩
    · rfl
    · rfl

theorem lookup_eq (scope : Scope) (fuel : Nat) (name : String) (w : Nesting) :
    lookup scope (fuel + 1) name w =
      match scope.raw? name with
      | none => (none, w)
      | some raw =>
        match raw.reference? with
        | none => (some raw, w)
        | some text => interpolated (lookup scope fuel) name raw text w.refill := by
  rw [lookup]
  cases scope.raw? name with
  | none => rfl
  | some raw =>
    dsimp only
    cases raw.reference? with
    | none => rfl
    | some text => rfl

end Nesting

/-- An event in the log of the session. -/
def Lookup.noted (s : Lookup) (e : Event) : Lookup :=
  { s with session := s.session.record e }

theorem lookupWithin_eq (scope : Scope) (room : Nat) (within : List String) (name : String)
    (s : Lookup) :
    lookupWithin scope room within name s =
      match scope.raw? name with
      | none => (none, s)
      | some raw =>
        match raw.reference? with
        | none => (some raw, s)
        | some text =>
          if within.contains name then (some raw, s.noted (.selfReference name))
          else
            match room with
            | 0 => (some raw, s.noted (.tooDeep name))
            | room + 1 =>
              if s.budget = 0 then (some raw, s.noted (.tooDeep name))
              else
                match interpolate ⟨lookupWithin scope room (name :: within), Lookup.call⟩ text
                    { s with budget := s.budget - 1 } with
                | (.ok v, s) => (some v, s)
                | (.error cause, s) => (some raw, s.noted (.notInterpolated name cause)) := by
  rw [lookupWithin.eq_def]
  dsimp only
  cases scope.raw? name with
  | none => rfl
  | some raw =>
    dsimp only
    cases raw.reference? with
    | none => rfl
    | some text =>
      dsimp only
      by_cases hin : within.contains name = true
      · simp only [hin, if_true]
        rfl
      simp only [hin, Bool.false_eq_true, if_false]
      cases room with
      | zero => rfl
      | succ room =>
        have hget : (get : StateM Lookup Lookup) s = (s, s) := rfl
        simp only [bind, StateT.bind, hget]
        by_cases hb : s.budget = 0
        · simp only [hb, if_true]
          rfl
        have hmodify : (modify fun s => { s with budget := s.budget - 1 } : StateM Lookup Unit) s =
          ((), { s with budget := s.budget - 1 }) := rfl
        simp only [hb, if_false, bind, StateT.bind, hmodify]
        rcases interpolate ⟨lookupWithin scope room (name :: within), Lookup.call⟩ text
          { s with budget := s.budget - 1 } with ⟨cause | v, s₁⟩
        · rfl
        · rfl

namespace Nesting

/-- A stack of names as it may be: none is there twice, and there are not too many. -/
def Allowed (names : List String) : Prop := names.Nodup ∧ names.length ≤ maxDepth

/-- Everything that was started since an earlier state has ended, and kept to the limits. -/
structure Unwound (start w : Nesting) : Prop where
  active : w.active = start.active
  exhausted : w.exhausted = start.exhausted
  work : w.started + w.budget = start.started + start.budget
  history : ∃ new, w.history = new ++ start.history ∧ ∀ names ∈ new, Allowed names

namespace Unwound

theorem refl (w : Nesting) : Unwound w w := ⟨rfl, rfl, rfl, [], rfl, by simp⟩

theorem trans {u v w : Nesting} (h : Unwound u v) (h' : Unwound v w) : Unwound u w := by
  obtain ⟨new, hnew, hallowed⟩ := h.history
  obtain ⟨new', hnew', hallowed'⟩ := h'.history
  refine ⟨h'.active.trans h.active, h'.exhausted.trans h.exhausted, h'.work.trans h.work,
    new' ++ new, by rw [hnew', hnew, List.append_assoc], ?_⟩
  intro names hnames
  rcases List.mem_append.mp hnames with hnames | hnames
  · exact hallowed' names hnames
  · exact hallowed names hnames

theorem record {start w : Nesting} (h : Unwound start w) (e : Event) :
    Unwound start (w.record e) := ⟨h.active, h.exhausted, h.work, h.history⟩

/-- Of the work that was to be had for a name nothing is left but its stack in the history. -/
theorem leave {start w : Nesting} {name : String} (h : Unwound (start.enter name) w)
    (hbudget : start.budget ≠ 0) (hnew : Allowed (name :: start.active)) :
    Unwound start w.leave := by
  have htail : w.active.tail = start.active := by rw [h.active]; rfl
  obtain ⟨new, hhistory, hallowed⟩ := h.history
  refine ⟨htail, h.exhausted, ?_, start.active :: (new ++ [name :: start.active]), ?_, ?_⟩
  · have hwork : w.started + w.budget = start.started + 1 + (start.budget - 1) := h.work
    show w.started + w.budget = start.started + start.budget
    omega
  · simp [Nesting.leave, htail, hhistory, Nesting.enter]
  · have hactive : Allowed start.active :=
      ⟨(List.nodup_cons.mp hnew.1).2, Nat.le_of_succ_le hnew.2⟩
    intro names hnames
    rcases List.mem_cons.mp hnames with rfl | hnames
    · exact hactive
    rcases List.mem_append.mp hnames with hnames | hnames
    · exact hallowed names hnames
    · rw [List.mem_singleton.mp hnames]
      exact hnew

end Unwound

/-- The same session and budget as in another account, and all is unwound since an earlier state. -/
structure Agrees (start w : Nesting) (s : Lookup) : Prop where
  unwound : Unwound start w
  session : w.session = s.session
  budget : w.budget = s.budget

theorem Agrees.record {start w : Nesting} {s : Lookup} (h : Agrees start w s) (e : Event) :
    Agrees start (w.record e) (s.noted e) := by
  refine ⟨h.unwound.record e, ?_, h.budget⟩
  show w.session.record e = s.session.record e
  rw [h.session]

theorem call_related (start : Nesting) (name : String) (arguments : List Value) :
    EvalRelated (Agrees start) (call name arguments) (Lookup.call name arguments) := by
  intro w ⟨session, budget⟩ ⟨⟨hactive, hexhausted, hwork, hhistory⟩, hsession, hbudget⟩
  cases hsession
  exact ⟨rfl, ⟨hactive, hexhausted, hwork, hhistory⟩, rfl, hbudget⟩

/--
Where the stack and some room together are as deep as can be, a lookup with some fuel agrees with
the one that is handed the stack and the room.
-/
def Follows (scope : Scope) (room fuel : Nat) : Prop :=
  ∀ name w s, w.active.Nodup → w.active.length + room = maxDepth → w.refill = w → Agrees w w s →
    (lookup scope fuel name w).1 = (lookupWithin scope room w.active name s).1 ∧
      Agrees w (lookup scope fuel name w).2 (lookupWithin scope room w.active name s).2

theorem refill_of_ne {w : Nesting} (h : w.active ≠ []) : w.refill = w := by
  unfold refill
  rw [if_neg h]

/-- Inside a lookup the stack is not empty, so that no other one there fills the budget. -/
theorem Follows.context {scope : Scope} {room fuel : Nat} (h : Follows scope room fuel)
    {name : String} {w : Nesting} (hnew : (name :: w.active).Nodup)
    (hroom : w.active.length + (room + 1) = maxDepth) :
    ContextRelated (Agrees (w.enter name)) ⟨lookup scope fuel, call⟩
      ⟨lookupWithin scope room (name :: w.active), Lookup.call⟩ := by
  refine ⟨fun other v s hv => ?_, call_related _⟩
  have hactive : v.active = name :: w.active := hv.unwound.active
  have hsame : Agrees v v s := ⟨.refl v, hv.session, hv.budget⟩
  have hother := h other v s (hactive ▸ hnew) (by rw [hactive, List.length_cons]; omega)
    (refill_of_ne (by simp [hactive])) hsame
  rw [hactive] at hother
  obtain ⟨hvalue, hagrees⟩ := hother
  exact ⟨hvalue, hv.unwound.trans hagrees.unwound, hagrees.session, hagrees.budget⟩

theorem Follows.of_lt (scope : Scope) {room fuel : Nat} (hfuel : room < fuel) :
    Follows scope room fuel := by
  induction room using Nat.strongRecOn generalizing fuel with
  | ind room ih =>
    intro name w s hnodup hroom hrefill hsame
    obtain ⟨fuel, rfl⟩ := Nat.exists_eq_add_one_of_ne_zero (Nat.ne_zero_of_lt hfuel)
    rw [lookup_eq, lookupWithin_eq]
    cases scope.raw? name with
    | none => exact ⟨rfl, hsame⟩
    | some raw =>
      dsimp only
      cases raw.reference? with
      | none => exact ⟨rfl, hsame⟩
      | some text =>
        dsimp only
        rw [hrefill, interpolated_eq]
        by_cases hin : w.active.contains name = true
        · rw [if_pos hin, if_pos hin]
          exact ⟨rfl, hsame.record _⟩
        rw [if_neg hin, if_neg hin]
        cases room with
        | zero =>
          rw [if_pos (Or.inl (by omega))]
          exact ⟨rfl, hsame.record _⟩
        | succ room =>
          dsimp only
          rw [← hsame.budget]
          by_cases hnone : w.budget = 0
          · rw [if_pos (Or.inr hnone), if_pos hnone]
            exact ⟨rfl, hsame.record _⟩
          rw [if_neg (by omega), if_neg hnone]
          have hnew : (name :: w.active).Nodup :=
            List.nodup_cons.mpr ⟨by simpa using hin, hnodup⟩
          have hdeep : (name :: w.active).length ≤ maxDepth := by rw [List.length_cons]; omega
          have hinner := (ih room (Nat.lt_succ_self room) (Nat.lt_of_succ_lt_succ hfuel)).context
            hnew hroom
          have hspent : Agrees (w.enter name) (w.enter name) { s with budget := w.budget - 1 } :=
            ⟨.refl _, hsame.session, rfl⟩
          have hresult := hinner.interpolate text _ _ hspent
          simp only [ExceptT.run] at hresult
          generalize interpolate ⟨lookup scope fuel, call⟩ text (w.enter name) = ended at hresult ⊢
          generalize interpolate ⟨lookupWithin scope room (name :: w.active), Lookup.call⟩ text
            { s with budget := w.budget - 1 } = ended' at hresult ⊢
          obtain ⟨result, w'⟩ := ended
          obtain ⟨result', s'⟩ := ended'
          obtain ⟨rfl, hagrees⟩ := hresult
          have hleft : Agrees w w'.leave s' :=
            ⟨hagrees.unwound.leave hnone ⟨hnew, hdeep⟩, hagrees.session, hagrees.budget⟩
          cases result with
          | ok v => exact ⟨rfl, hleft⟩
          | error cause => exact ⟨rfl, hleft.record _⟩

theorem interpolated_isSome (inner : String → StateM Nesting (Option Value)) (name : String)
    (raw : Value) (text : String) (w : Nesting) :
    (interpolated inner name raw text w).1.isSome := by
  rw [interpolated_eq]
  split
  next => rfl
  split
  next => rfl
  split
  next => rfl
  next => rfl

/-- A variable has a value exactly if it is set, whatever happens to its text. -/
theorem lookup_isSome (scope : Scope) (fuel : Nat) (name : String) (w : Nesting) :
    (lookup scope (fuel + 1) name w).1.isSome = (scope.raw? name).isSome := by
  rw [lookup_eq]
  split
  next => simp [*]
  next =>
    split
    next => simp [*]
    next => simp [*, interpolated_isSome]

theorem refill_refill (w : Nesting) : w.refill.refill = w.refill := by
  unfold refill
  split <;> rfl

/-- A full budget before the lookup changes no more of the result than the budget that is left. -/
theorem lookup_refill (scope : Scope) (fuel : Nat) (name : String) (w : Nesting) :
    ∃ left, lookup scope (fuel + 1) name w =
      ((lookup scope (fuel + 1) name w.refill).1,
        { (lookup scope (fuel + 1) name w.refill).2 with budget := left }) := by
  rw [lookup_eq, lookup_eq, refill_refill]
  cases scope.raw? name with
  | none => exact ⟨w.budget, rfl⟩
  | some raw =>
    dsimp only
    cases raw.reference? with
    | none => exact ⟨w.budget, rfl⟩
    | some text => exact ⟨_, rfl⟩

theorem lookup_unwound (scope : Scope) {fuel : Nat} (name : String) {w : Nesting}
    (hfuel : maxDepth < fuel) (hallowed : Allowed w.active) :
    Unwound w.refill (lookup scope fuel name w.refill).2 := by
  have hfollows : Follows scope (maxDepth - w.active.length) fuel := Follows.of_lt scope (by omega)
  have hroom : w.refill.active.length + (maxDepth - w.active.length) = maxDepth :=
    Nat.add_sub_cancel' hallowed.2
  have hstart : Agrees w.refill w.refill ⟨w.session, w.refill.budget⟩ := ⟨.refl _, rfl, rfl⟩
  exact (hfollows name w.refill _ hallowed.1 hroom (refill_refill w) hstart).2.unwound

/-- With no name on the stack this is the lookup that a session makes. -/
theorem lookup_outermost (scope : Scope) {fuel : Nat} (name : String) {w : Nesting}
    (hfuel : maxDepth < fuel) (hactive : w.active = []) :
    TrialLoop.lookup scope name w.session =
      ((lookup scope fuel name w.refill).1, (lookup scope fuel name w.refill).2.session) := by
  have hnil : w.refill.active = [] := hactive
  have hstart : Agrees w.refill w.refill ⟨w.session, maxWork⟩ := ⟨.refl _, rfl, if_pos hactive⟩
  obtain ⟨hvalue, hagrees⟩ := Follows.of_lt scope hfuel name w.refill ⟨w.session, maxWork⟩
    (hnil ▸ List.nodup_nil) (by rw [hnil, List.length_nil, Nat.zero_add]) (refill_refill w) hstart
  rw [hvalue, hagrees.session, hnil]
  rfl

/--
A lookup ends, whatever the variables are, and its stack is what it was. No stack there was while it
lasted has a name twice or too many names, and an outermost lookup starts a bounded number of
interpolations, leaves a full budget to the next one and gives what the session looks up.
-/
theorem lookup_within_limits (scope : Scope) {fuel : Nat} (name : String) (w : Nesting)
    (hfuel : maxDepth < fuel) (hallowed : Allowed w.active) :
    ∃ v after, lookup scope fuel name w = (v, after) ∧ after.exhausted = w.exhausted ∧
      v.isSome = (scope.raw? name).isSome ∧ after.active = w.active ∧
      (∃ new, after.history = new ++ w.history ∧
        ∀ names ∈ new, names.Nodup ∧ names.length ≤ maxDepth) ∧
      after.started ≤ w.started + w.refill.budget ∧
      (w.active = [] → after.started ≤ w.started + maxWork ∧ after.refill.budget = maxWork ∧
        TrialLoop.lookup scope name w.session = (v, after.session)) := by
  have hunwound := lookup_unwound scope name hfuel hallowed
  have houter := lookup_outermost scope name (w := w) hfuel
  obtain ⟨fuel, rfl⟩ := Nat.exists_eq_add_one_of_ne_zero (Nat.ne_zero_of_lt hfuel)
  obtain ⟨left, hleft⟩ := lookup_refill scope fuel name w
  have hwork : (lookup scope (fuel + 1) name w.refill).2.started ≤ w.started + w.refill.budget :=
    Nat.le_trans (Nat.le_add_right _ _) (Nat.le_of_eq hunwound.work)
  refine ⟨_, _, hleft, hunwound.exhausted, lookup_isSome scope fuel name _, hunwound.active,
    hunwound.history, hwork, fun hactive => ⟨?_, ?_, houter hactive⟩⟩
  · rwa [show w.refill.budget = maxWork from if_pos hactive] at hwork
  · exact if_pos (hunwound.active.trans hactive)

/-- Two variables whose texts refer to each other. -/
def mutualScope : Scope := [(Bindings.empty.set "a" (.str "x[b]")).set "b" (.str "y[a]")]

theorem lookup_within_limits_mutual :
    ∃ v after, lookup mutualScope 33 "a" { session := .ofSeed 1, budget := 0 } = (v, after) ∧
      v.map Value.text = some "xyx[b]" ∧ after.exhausted = false ∧ after.active = [] ∧
      after.started ≤ maxWork ∧
      TrialLoop.lookup mutualScope "a" (.ofSeed 1) = (v, after.session) := by
  have htext : (lookup mutualScope 33 "a" { session := .ofSeed 1, budget := 0 }).1.map
      Value.text = some "xyx[b]" := by decide +kernel
  obtain ⟨v, after, heq, hexhausted, -, hactive, -, -, houter⟩ :=
    lookup_within_limits mutualScope "a" { session := .ofSeed 1, budget := 0 }
      (show maxDepth < 33 by decide) ⟨List.nodup_nil, Nat.zero_le _⟩
  obtain ⟨hstarted, -, hsession⟩ := houter rfl
  rw [heq] at htext
  rw [Nat.zero_add] at hstarted
  exact ⟨v, after, heq, htext, hexhausted, hactive, hstarted, hsession⟩

end Nesting

end TrialLoop
