import TrialLoop.Proofs.Interpolation.Nesting

namespace TrialLoop

/-- A lookup was answered with the raw text because it goes in circles, too deep or too far. -/
def Event.isStop : Event → Bool
  | selfReference _ => true
  | tooDeep _ => true
  | _ => false

/-- How many lookups were stopped in a session. -/
def Session.stops (s : Session) : Nat :=
  s.events.countP Event.isStop

theorem Session.stops_record (s : Session) (e : Event) :
    (s.record e).stops = s.stops + if e.isStop then 1 else 0 :=
  Array.countP_push

namespace Nesting

/-- What a lookup gives and leaves behind once the text of its variable is interpolated. -/
def conclude (name : String) (raw : Value) :
    Except EvalError Value × Nesting → Option Value × Nesting
  | (.ok v, w) => (some v, w.leave)
  | (.error cause, w) => (some raw, w.leave.record (.notInterpolated name cause))

/-- The same for a lookup with limits. -/
def concludeWithin (name : String) (raw : Value) :
    Except EvalError Value × Lookup → Option Value × Lookup
  | (.ok v, s) => (some v, s)
  | (.error cause, s) => (some raw, s.noted (.notInterpolated name cause))

/--
The value of a variable whose references are followed without any limit, but for the fuel that each
lookup takes from those in it.
-/
def unguarded (scope : Scope) : (fuel : Nat) → String → StateM Nesting (Option Value)
  | 0, _ => fun w => (none, { w with exhausted := true })
  | fuel + 1, name => fun w =>
    match scope.raw? name with
    | none => (none, w)
    | some raw =>
      match raw.reference? with
      | none => (some raw, w)
      | some text =>
        conclude name raw (interpolate ⟨unguarded scope fuel, call⟩ text (w.enter name))

/-- The references of a variable come to an end if there is enough fuel. -/
def Resolves (scope : Scope) (name : String) (s : Session) (v : Option Value) (w : Nesting) :
    Prop :=
  ∃ fuel, unguarded scope fuel name { session := s } = (v, w) ∧ w.exhausted = false

/-- All that an earlier state has on record is still there. -/
structure Extends (start w : Nesting) : Prop where
  history : start.history <:+ w.history
  started : start.started ≤ w.started
  exhausted : start.exhausted = true → w.exhausted = true

namespace Extends

theorem refl (w : Nesting) : Extends w w := ⟨List.suffix_rfl, Nat.le_refl _, id⟩

theorem trans {u v w : Nesting} (h : Extends u v) (h' : Extends v w) : Extends u w :=
  ⟨h.history.trans h'.history, Nat.le_trans h.started h'.started, h'.exhausted ∘ h.exhausted⟩

theorem enter (name : String) (w : Nesting) : Extends w (w.enter name) :=
  ⟨List.suffix_cons _ _, Nat.le_succ _, id⟩

theorem conclude (name : String) (raw : Value) (r : Except EvalError Value × Nesting) :
    Extends r.2 (conclude name raw r).2 := by
  obtain ⟨cause | v, w⟩ := r
  · exact ⟨List.suffix_cons _ _, Nat.le_refl _, id⟩
  · exact ⟨List.suffix_cons _ _, Nat.le_refl _, id⟩

end Extends

theorem call_extends (start : Nesting) (function : String) (vs : List Value) :
    StateKeeps (Extends start) (call function vs).run :=
  fun _ h => ⟨h.history, h.started, h.exhausted⟩

theorem unguarded_text {scope : Scope} {name text : String} {raw : Value}
    (hraw : scope.raw? name = some raw) (htext : raw.reference? = some text) (fuel : Nat)
    (w : Nesting) :
    unguarded scope (fuel + 1) name w =
      conclude name raw (interpolate ⟨unguarded scope fuel, call⟩ text (w.enter name)) := by
  simp only [unguarded, hraw, htext]

theorem extends_unguarded_text {scope : Scope} {name text : String} {raw : Value}
    (hraw : scope.raw? name = some raw) (htext : raw.reference? = some text) {fuel : Nat}
    {start w : Nesting} (hkeeps : ContextKeeps (Extends start) ⟨unguarded scope fuel, call⟩)
    (h : Extends start (w.enter name)) :
    Extends start (unguarded scope (fuel + 1) name w).2 := by
  rw [unguarded_text hraw htext]
  exact ((Consults.interpolate text).keeps hkeeps _ h).trans (.conclude name raw _)

/-- Whatever happens while a text is interpolated is on record after the lookup of its variable. -/
theorem unguarded_extends (scope : Scope) (fuel : Nat) (name : String) (start : Nesting) :
    StateKeeps (Extends start) (unguarded scope fuel name) := by
  induction fuel generalizing name start with
  | zero => exact fun w h => ⟨h.history, h.started, fun _ => rfl⟩
  | succ fuel ih =>
    intro w h
    cases hraw : scope.raw? name with
    | none => simpa only [unguarded, hraw] using h
    | some raw =>
      cases htext : raw.reference? with
      | none => simpa only [unguarded, hraw, htext] using h
      | some text =>
        exact extends_unguarded_text hraw htext ⟨fun other => ih other start, call_extends start⟩
          (h.trans (.enter name w))

/-- What stays true while the record grows stays true while variables are looked up. -/
theorem unguarded_keeps {P : Nesting → Prop} (hP : ∀ u w, Extends u w → P u → P w)
    (scope : Scope) (fuel : Nat) : ContextKeeps P ⟨unguarded scope fuel, call⟩ :=
  ⟨fun name w h => hP w _ (unguarded_extends scope fuel name w w (.refl w)) h,
    fun function vs w h => hP w _ (call_extends w function vs w (.refl w)) h⟩

theorem exhausted_of_extends (u w : Nesting) (h : Extends u w) (hu : u.exhausted = true) :
    w.exhausted = true :=
  h.exhausted hu

/-- More fuel changes nothing where some fuel was enough. -/
theorem unguarded_mono (scope : Scope) {fuel more : Nat} (hle : fuel ≤ more) (name : String) :
    RelatedUnless (· = ·) (·.exhausted = true) (fun _ => True) (unguarded scope fuel name)
      (unguarded scope more name) := by
  induction fuel generalizing more name with
  | zero => exact fun w _ _ => .inl ⟨rfl, trivial⟩
  | succ fuel ih =>
    obtain ⟨more, rfl⟩ := Nat.exists_eq_add_one_of_ne_zero (Nat.ne_zero_of_lt hle)
    rintro w _ rfl
    cases hraw : scope.raw? name with
    | none =>
      simp only [unguarded, hraw]
      exact .inr ⟨trivial, trivial⟩
    | some raw =>
      cases htext : raw.reference? with
      | none =>
        simp only [unguarded, hraw, htext]
        exact .inr ⟨trivial, trivial⟩
      | some text =>
        have hcontexts : ContextRelatedUnless (· = ·) (·.exhausted = true) (fun _ => True)
            ⟨unguarded scope fuel, call⟩ ⟨unguarded scope more, call⟩ :=
          ⟨unguarded_keeps exhausted_of_extends scope fuel, ⟨fun _ _ h => h, fun _ _ _ h => h⟩,
            fun other => ih (Nat.le_of_succ_le_succ hle) other,
            fun function vs u _ h => .inr (h ▸ ⟨rfl, rfl⟩)⟩
        rw [unguarded_text hraw htext, unguarded_text hraw htext]
        rcases (Consults.interpolate text).relatedUnless hcontexts (w.enter name) _ rfl with
          ⟨hexhausted, -⟩ | ⟨hvalue, hstate⟩
        · exact .inl ⟨(Extends.conclude name raw _).exhausted hexhausted, trivial⟩
        · have hsame := Prod.ext hvalue hstate
          simp only [ExceptT.run] at hsame
          rw [hsame]
          exact .inr ⟨rfl, rfl⟩

theorem Resolves.of_fuel_le {scope : Scope} {name : String} {s : Session} {v : Option Value}
    {w : Nesting} (h : Resolves scope name s v w) :
    ∃ least, ∀ fuel, least ≤ fuel → unguarded scope fuel name { session := s } = (v, w) := by
  obtain ⟨least, heq, hexhausted⟩ := h
  refine ⟨least, fun fuel hle => ?_⟩
  rcases unguarded_mono scope hle name { session := s } _ rfl with ⟨h, -⟩ | ⟨hvalue, hstate⟩
  · rw [heq, hexhausted] at h
    cases h
  · exact (Prod.ext hvalue hstate).symm.trans heq

/-- A variable has no more than one value without limits. -/
theorem Resolves.unique {scope : Scope} {name : String} {s : Session} {v v' : Option Value}
    {w w' : Nesting} (h : Resolves scope name s v w) (h' : Resolves scope name s v' w') :
    v = v' ∧ w = w' := by
  obtain ⟨least, hleast⟩ := h.of_fuel_le
  obtain ⟨least', hleast'⟩ := h'.of_fuel_le
  exact Prod.mk.inj ((hleast _ (Nat.le_max_left least least')).symm.trans
    (hleast' _ (Nat.le_max_right least least')))

/-- No name was inside itself, not too many were inside each other, and there were not too many. -/
def Limited (w : Nesting) : Prop :=
  (∀ names ∈ w.history, Allowed names) ∧ w.started ≤ maxWork

instance (names : List String) : Decidable (Allowed names) := inferInstanceAs (Decidable (_ ∧ _))

instance (w : Nesting) : Decidable w.Limited := inferInstanceAs (Decidable (_ ∧ _))

theorem Limited.of_extends {u w : Nesting} (h : Extends u w) (hw : w.Limited) : u.Limited :=
  ⟨fun names hnames => hw.1 names (h.history.subset hnames), Nat.le_trans h.started hw.2⟩

/-- The stops of a session only become more. -/
theorem lookupWithin_stops (scope : Scope) (n room : Nat) (within : List String) (name : String) :
    StateKeeps (fun s => n ≤ s.session.stops) (lookupWithin scope room within name) := by
  have hnoted : ∀ (s : Lookup) (e : Event),
      n ≤ s.session.stops → n ≤ (s.noted e).session.stops := by
    intro s e h
    show n ≤ (s.session.record e).stops
    rw [Session.stops_record]
    exact Nat.le_add_right_of_le h
  induction room using Nat.strongRecOn generalizing within name with
  | ind room ih =>
    intro s h
    rw [lookupWithin_eq]
    split
    next => exact h
    split
    next => exact h
    next text _ =>
      split
      next => exact hnoted s _ h
      split
      next => exact hnoted s _ h
      next room =>
        split
        next => exact hnoted s _ h
        next =>
          have hkeeps : ContextKeeps (fun s : Lookup => n ≤ s.session.stops)
              ⟨lookupWithin scope room (name :: within), Lookup.call⟩ :=
            ⟨fun other => ih room (Nat.lt_succ_self room) _ other, fun _ _ _ h => h⟩
          have hinner := (Consults.interpolate text).keeps hkeeps
            { s with budget := s.budget - 1 } h
          simp only [ExceptT.run] at hinner
          split
          next heq => rwa [heq] at hinner
          next heq =>
            rw [heq] at hinner
            exact hnoted _ _ hinner

/-- The lookup with limits and the one without are at the same place, within the limits. -/
structure Abreast (n : Nat) (within : List String) (s : Lookup) (w : Nesting) : Prop where
  session : s.session = w.session
  stops : s.session.stops = n
  work : s.budget + w.started = maxWork
  active : w.active = within
  history : ∀ names ∈ w.history, Allowed names
  exhausted : w.exhausted = false

namespace Abreast

variable {n : Nat} {within : List String} {name : String} {s : Lookup} {w : Nesting}

theorem enter (h : Abreast n within s w) (hbudget : s.budget ≠ 0)
    (hnew : Allowed (name :: within)) :
    Abreast n (name :: within) { s with budget := s.budget - 1 } (w.enter name) := by
  have hwork := h.work
  have hactive : (w.enter name).active = name :: within := congrArg (name :: ·) h.active
  refine ⟨h.session, h.stops, ?_, hactive, ?_, h.exhausted⟩
  · show s.budget - 1 + (w.started + 1) = maxWork
    omega
  · intro names hnames
    rcases List.mem_cons.mp hnames with rfl | hnames
    · rwa [h.active]
    · exact h.history names hnames

theorem leave (h : Abreast n (name :: within) s w) (hwithin : Allowed within) :
    Abreast n within s w.leave := by
  have htail : w.active.tail = within := by rw [h.active]; rfl
  refine ⟨h.session, h.stops, h.work, htail, ?_, h.exhausted⟩
  intro names hnames
  rcases List.mem_cons.mp hnames with rfl | hnames
  · rwa [htail]
  · exact h.history names hnames

theorem record (h : Abreast n within s w) {e : Event} (he : e.isStop = false) :
    Abreast n within (s.noted e) (w.record e) := by
  have hstops : (s.session.record e).stops = n := by
    rw [Session.stops_record, he, h.stops]
    rfl
  exact ⟨congrArg (·.record e) h.session, hstops, h.work, h.active, h.history, h.exhausted⟩

/-- A lookup that is stopped goes beyond a limit where nothing stops it. -/
theorem stopped (h : Abreast n within s w) {e : Event} (he : e.isStop = true)
    (hbeyond : ¬Allowed (name :: within) ∨ s.budget = 0) {w' : Nesting}
    (hw : Extends (w.enter name) w') : n < (s.noted e).session.stops ∧ ¬w'.Limited := by
  constructor
  · show n < (s.session.record e).stops
    rw [Session.stops_record, he, h.stops]
    exact Nat.lt_succ_self n
  · intro hlimited
    obtain ⟨hallowed, hstarted⟩ := hlimited.of_extends hw
    rcases hbeyond with hbeyond | hbudget
    · refine hbeyond (hallowed _ ?_)
      rw [← h.active]
      exact List.mem_cons_self
    · have hwork := h.work
      have hone : w.started + 1 ≤ maxWork := hstarted
      omega

/-- Both lookups note the same once the text of their variable is interpolated. -/
theorem conclude (hwithin : Allowed within) (raw : Value) {r : Except EvalError Value × Lookup}
    {r' : Except EvalError Value × Nesting}
    (h : (n < r.2.session.stops ∧ ¬r'.2.Limited) ∨
      r.1 = r'.1 ∧ Abreast n (name :: within) r.2 r'.2) :
    (n < (concludeWithin name raw r).2.session.stops ∧
        ¬(Nesting.conclude name raw r').2.Limited) ∨
      (concludeWithin name raw r).1 = (Nesting.conclude name raw r').1 ∧
        Abreast n within (concludeWithin name raw r).2 (Nesting.conclude name raw r').2 := by
  rcases h with ⟨hstops, hlimited⟩ | ⟨hresult, habreast⟩
  · refine .inl ⟨?_, fun h => hlimited (h.of_extends (.conclude name raw r'))⟩
    obtain ⟨cause | v, s⟩ := r
    · show n < (s.session.record _).stops
      rw [Session.stops_record]
      exact Nat.lt_of_lt_of_le hstops (Nat.le_add_right _ _)
    · exact hstops
  · refine .inr ?_
    obtain ⟨result, s⟩ := r
    obtain ⟨result', w⟩ := r'
    obtain rfl : result = result' := hresult
    cases result with
    | ok v => exact ⟨rfl, habreast.leave hwithin⟩
    | error cause => exact ⟨rfl, (habreast.leave hwithin).record rfl⟩

end Abreast

theorem call_abreast (n : Nat) (within : List String) (function : String) (vs : List Value) :
    RelatedUnless (Abreast n within) (n < ·.session.stops) (¬·.Limited)
      (Lookup.call function vs).run (call function vs).run := by
  rintro ⟨session, budget⟩ w h
  obtain rfl : session = w.session := h.session
  exact .inr ⟨rfl, rfl, h.stops, h.work, h.active, h.history, h.exhausted⟩

/--
The lookup with limits and the one without stay side by side, until one of them is stopped and the
other goes beyond a limit.
-/
theorem lookupWithin_abreast (scope : Scope) (n : Nat) {room fuel : Nat} (hfuel : room < fuel)
    {within : List String} (hnodup : within.Nodup) (hroom : within.length + room = maxDepth)
    (name : String) :
    RelatedUnless (Abreast n within) (n < ·.session.stops) (¬·.Limited)
      (lookupWithin scope room within name) (unguarded scope fuel name) := by
  induction fuel generalizing room within name with
  | zero => exact absurd hfuel (Nat.not_lt_zero room)
  | succ fuel ih =>
    intro s w h
    rw [lookupWithin_eq]
    cases hraw : scope.raw? name with
    | none =>
      simp only [unguarded, hraw]
      exact .inr ⟨trivial, h⟩
    | some raw =>
      cases htext : raw.reference? with
      | none =>
        simp only [unguarded, hraw, htext]
        exact .inr ⟨trivial, h⟩
      | some text =>
        have hentered : Extends (w.enter name) (unguarded scope (fuel + 1) name w).2 :=
          extends_unguarded_text hraw htext
            (unguarded_keeps (fun _ _ huv hu => hu.trans huv) scope fuel) (.refl _)
        simp only [htext]
        -- A lookup is stopped for one of three reasons, each of which is beyond a limit.
        by_cases hin : within.contains name = true
        · rw [if_pos hin]
          have hcircle : ¬Allowed (name :: within) := fun hnew =>
            (List.nodup_cons.mp hnew.1).1 (by simpa using hin)
          exact .inl (h.stopped rfl (.inl hcircle) hentered)
        rw [if_neg hin]
        cases room with
        | zero =>
          have hdeep : ¬Allowed (name :: within) := by
            rintro ⟨-, hlength⟩
            rw [List.length_cons] at hlength
            omega
          exact .inl (h.stopped rfl (.inl hdeep) hentered)
        | succ room =>
          dsimp only
          by_cases hbudget : s.budget = 0
          · rw [if_pos hbudget]
            exact .inl (h.stopped rfl (.inr hbudget) hentered)
          rw [if_neg hbudget]
          have hnew : Allowed (name :: within) :=
            ⟨List.nodup_cons.mpr ⟨by simpa using hin, hnodup⟩, by rw [List.length_cons]; omega⟩
          have hwithin : Allowed within := ⟨hnodup, by omega⟩
          have hcontexts : ContextRelatedUnless (Abreast n (name :: within))
              (n < ·.session.stops) (¬·.Limited)
              ⟨lookupWithin scope room (name :: within), Lookup.call⟩
              ⟨unguarded scope fuel, call⟩ :=
            ⟨⟨lookupWithin_stops scope (n + 1) room _, fun _ _ _ h => h⟩,
              unguarded_keeps (fun _ _ huv hu hv => hu (hv.of_extends huv)) scope fuel,
              ih (Nat.lt_of_succ_lt_succ hfuel) hnew.1 (by rw [List.length_cons]; omega),
              call_abreast n _⟩
          rw [unguarded_text hraw htext]
          exact Abreast.conclude hwithin raw
            ((Consults.interpolate text).relatedUnless hcontexts _ _ (h.enter hbudget hnew))

theorem lookup_or_beyond (scope : Scope) (name : String) (s : Session) {fuel : Nat}
    (hfuel : maxDepth < fuel) {v : Option Value} {w : Nesting}
    (hrun : unguarded scope fuel name { session := s } = (v, w)) :
    (s.stops < (TrialLoop.lookup scope name s).2.stops ∧ ¬w.Limited) ∨
      (TrialLoop.lookup scope name s).2.stops = s.stops ∧ w.exhausted = false ∧
        TrialLoop.lookup scope name s = (v, w.session) := by
  have hstart : Abreast s.stops [] ⟨s, maxWork⟩ { session := s } :=
    ⟨rfl, rfl, rfl, rfl, fun _ h => absurd h List.not_mem_nil, rfl⟩
  have hrelated := lookupWithin_abreast scope s.stops hfuel List.nodup_nil (Nat.zero_add _) name
    _ _ hstart
  rw [hrun] at hrelated
  refine hrelated.imp id fun ⟨hvalue, habreast⟩ =>
    ⟨habreast.stops, habreast.exhausted, Prod.ext hvalue habreast.session⟩

/--
The limits of a lookup change no answer that they do not have to: unless a lookup in it is stopped,
the references come to an end without limits and give the same value, random stream and log. No
lookup is stopped if they come to an end within the limits.
-/
theorem lookup_unguarded (scope : Scope) (name : String) (s : Session) :
    ((TrialLoop.lookup scope name s).2.stops = s.stops →
      (∃ v w, Resolves scope name s v w) ∧
        ∀ v w, Resolves scope name s v w → TrialLoop.lookup scope name s = (v, w.session)) ∧
    ∀ v w, Resolves scope name s v w → w.Limited →
      (TrialLoop.lookup scope name s).2.stops = s.stops ∧
        TrialLoop.lookup scope name s = (v, w.session) := by
  constructor
  · intro hstops
    have hrun : ∀ fuel, maxDepth < fuel → ∀ v w,
        unguarded scope fuel name { session := s } = (v, w) →
        w.exhausted = false ∧ TrialLoop.lookup scope name s = (v, w.session) := by
      intro fuel hfuel v w heq
      rcases lookup_or_beyond scope name s hfuel heq with ⟨hmore, -⟩ | ⟨-, hsame⟩
      · exact absurd hstops (Nat.ne_of_gt hmore)
      · exact hsame
    refine ⟨⟨_, _, maxDepth + 1, rfl, (hrun _ (Nat.lt_succ_self _) _ _ rfl).1⟩, fun v w h => ?_⟩
    obtain ⟨least, hleast⟩ := h.of_fuel_le
    exact (hrun _ (Nat.lt_of_lt_of_le (Nat.lt_succ_self _) (Nat.le_max_left _ least)) v w
      (hleast _ (Nat.le_max_right (maxDepth + 1) _))).2
  · intro v w h hlimited
    obtain ⟨least, hleast⟩ := h.of_fuel_le
    have hfuel : maxDepth < max (maxDepth + 1) least :=
      Nat.lt_of_lt_of_le (Nat.lt_succ_self _) (Nat.le_max_left _ _)
    rcases lookup_or_beyond scope name s hfuel (hleast _ (Nat.le_max_right _ _)) with
      ⟨-, hbeyond⟩ | ⟨hstops, -, hsame⟩
    · exact absurd hlimited hbeyond
    · exact ⟨hstops, hsame⟩

/-- A variable whose text has another one twice, which has an expression of a third. -/
def chainScope : Scope :=
  [((Bindings.empty.set "a" (.str "[b]-[b]")).set "b" (.str "[=c + 1]")).set "c" (.int 4)]

theorem lookup_unguarded_chain :
    ∃ v w, Resolves chainScope "a" (.ofSeed 1) v w ∧ v.map Value.text = some "5-5" ∧
      w.started = 3 ∧ w.Limited ∧
      (TrialLoop.lookup chainScope "a" (.ofSeed 1)).2.stops = (Session.ofSeed 1).stops ∧
      TrialLoop.lookup chainScope "a" (.ofSeed 1) = (v, w.session) := by
  let run := unguarded chainScope 4 "a" { session := .ofSeed 1 }
  have hresolves : Resolves chainScope "a" (.ofSeed 1) run.1 run.2 :=
    ⟨4, rfl, by decide +kernel⟩
  have hlimited : run.2.Limited := by decide +kernel
  obtain ⟨hplain, hwithin⟩ := lookup_unguarded chainScope "a" (.ofSeed 1)
  obtain ⟨hstops, -⟩ := hwithin run.1 run.2 hresolves hlimited
  exact ⟨run.1, run.2, hresolves, by decide +kernel, by decide +kernel, hlimited, hstops,
    (hplain hstops).2 run.1 run.2 hresolves⟩

end Nesting

end TrialLoop
