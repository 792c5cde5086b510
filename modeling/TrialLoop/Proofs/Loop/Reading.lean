import TrialLoop.Program.Trace
import TrialLoop.Proofs.Interpolation.Nesting
import TrialLoop.Proofs.Interpolation.Segments
import TrialLoop.Proofs.Loop.Row

namespace TrialLoop

/-- The context in which the text of a variable is interpolated when the variable is read. -/
def Scope.inside (scope : Scope) (name : String) : Context Lookup :=
  ⟨lookupWithin scope (maxDepth - 1) [name], Lookup.call⟩

/-- A text with an opening bracket is interpolated by a read, unless this fails. -/
theorem lookup_eq_of_raw {scope : Scope} {name : String} {v : Value}
    (h : scope.raw? name = some v) (s : Session) :
    (lookup scope name s).1 = some (match v.reference? with
      | none => v
      | some text => (interpolate (scope.inside name) text ⟨s, maxWork - 1⟩).1.toOption.getD v) := by
  rw [lookup, maxDepth, lookupWithin_eq, h]
  dsimp only
  cases v.reference? with
  | none => rfl
  | some text =>
    have hcontext : Scope.inside scope name = ⟨lookupWithin scope 31 [name], Lookup.call⟩ := rfl
    have hbudget : maxWork ≠ 0 := by decide
    rw [hcontext]
    simp only [List.contains_nil, Bool.false_eq_true, if_false, if_neg hbudget]
    rcases interpolate ⟨lookupWithin scope 31 [name], Lookup.call⟩ text ⟨s, maxWork - 1⟩ with
      ⟨cause | v', s'⟩
    · rfl
    · rfl

/-- A value that needs no interpolation is found as it is. -/
theorem lookupWithin_of_not_reference {scope : Scope} {name : String} {v : Value}
    (h : scope.raw? name = some v) (hv : v.reference? = none) (s : Lookup) {room : Nat}
    {within : List String} : lookupWithin scope room within name s = (some v, s) := by
  rw [lookupWithin_eq, h]
  dsimp only
  rw [hv]

/-- A variable is read as its value is just if no interpolation gives another one. -/
theorem lookup_eq_self_iff {scope : Scope} {name : String} {v : Value}
    (h : scope.raw? name = some v) (s : Session) :
    (lookup scope name s).1 = some v ↔
      ∀ text v', v.reference? = some text →
        (interpolate (scope.inside name) text ⟨s, maxWork - 1⟩).1 = .ok v' → v' = v := by
  rw [lookup_eq_of_raw h]
  cases v.reference? with
  | none => simp
  | some text =>
    rcases he : (interpolate (scope.inside name) text ⟨s, maxWork - 1⟩).1 with cause | v'
    · refine ⟨fun _ _ _ htext hv => ?_, fun _ => by simp [he, Except.toOption]⟩
      cases htext
      cases he.symm.trans hv
    · simp only [he, Except.toOption, Option.getD_some, Option.some.injEq]
      refine ⟨fun hsame _ _ htext hv => ?_, fun hall => hall text v' rfl he⟩
      cases htext
      exact (Except.ok.inj (he.symm.trans hv)) ▸ hsame

theorem raw?_singleton (vars : Bindings) (name : String) :
    Scope.raw? [vars] name = vars.get? name := by
  rw [Scope.raw?, List.findSome?_cons]
  cases vars.get? name <;> rfl

/-- A cell that has one value in every context gives it wherever it stands in a row. -/
theorem Fills.mem_of_cellValue {loop : String} {w w' : Workspace} {cells : List (String × Cell)}
    {results : List (String × Except EvalError Value)} (h : Fills loop w cells results w')
    {column : String} {cell : Cell} {v : Value}
    (hv : ∀ context : Context Session, Loop.cellValue context cell = pure v)
    (hm : (column, cell) ∈ cells) : (column, .ok v) ∈ results := by
  induction h with
  | done => cases hm
  | cell hresult _ ih =>
    rcases List.mem_cons.mp hm with he | hm
    · cases he
      rw [hv] at hresult
      cases hresult
      exact List.mem_cons_self
    · exact List.mem_cons_of_mem _ (ih hm)

theorem mem_valuesSet {results : List (String × Except EvalError Value)} {name : String}
    {v : Value} : (name, v) ∈ valuesSet results ↔ (name, .ok v) ∈ results := by
  simp only [valuesSet, List.mem_filterMap, Option.map_eq_some_iff, Prod.exists, Prod.mk.injEq]
  constructor
  · rintro ⟨column, result, hm, v', hv, rfl, rfl⟩
    cases result with
    | error cause => cases hv
    | ok v => cases hv; exact hm
  · exact fun hm => ⟨name, .ok v, hm, v, rfl, rfl, rfl⟩

namespace Loop

/-- What a step did that runs an item: it took a cycle, filled its row and set the flag. -/
theorem step_run {l : Loop} {w : Workspace} {item : String} {k : Nat}
    {applied : List (String × Value)} (h : (l.step w).1.1 = .ok (.run item k applied)) :
    ∃ t w₁ queue results w₂, l.turn w = (.ok t, w₁) ∧
      (l.step w).1.2 = l.withCycle t.run k queue ∧
      Fills l.name w₁ (t.run.table.rowCells k) results w₂ ∧ applied = valuesSet results ∧
      (l.step w).2.vars = w₂.vars.set "repeat_cycle" (.int 0) := by
  rcases ht : l.turn w with ⟨cause | t, w₁⟩
  · rw [step_eq, ht] at h
    cases h
  rcases hq : t.run.queue with _ | ⟨cycle, queue⟩
  · rw [step_of_queue_nil ht hq] at h
    cases h
  have hstep := step_of_queue_cons ht hq
  obtain ⟨results, hfills, hset⟩ := applyCells_fills l.name (t.run.table.rowCells cycle) w₁
  obtain ⟨rfl, rfl⟩ := (l.runCycle_loop t.run cycle queue w₁).2 item k applied (hstep ▸ h)
  refine ⟨t, w₁, queue, results, _, rfl, ?_, hfills, hset, ?_⟩
  · rcases step_taken ht hq with ⟨item', applied', hs⟩ | hs | ⟨cause, hs⟩
    · exact congrArg Prod.snd hs
    · cases (congrArg Prod.fst hs).symm.trans h
    · cases (congrArg Prod.fst hs).symm.trans h
  · rw [hstep, runCycle_vars]

/--
What a step reports is the value of the variable. A read gives it back unless it is a text that is
interpolated once more, to another value.
-/
theorem step_reported_read_iff {l : Loop} {w : Workspace} {item : String} {k : Nat}
    {applied : List (String × Value)} {r : Run} {name : String} {v : Value}
    (h : (l.step w).1.1 = .ok (.run item k applied)) (hr : (l.step w).1.2.run = some r)
    (hn : r.table.columns.Nodup) (hm : (name, v) ∈ applied) (hne : name ≠ "repeat_cycle") :
    let after := (l.step w).2
    after.vars.get? name = some v ∧
    ((lookup [after.vars] name after.session).1 = some v ↔
      ∀ text v', v.reference? = some text →
        (interpolate (Scope.inside [after.vars] name) text ⟨after.session, maxWork - 1⟩).1 =
          .ok v' → v' = v) := by
  obtain ⟨t, w₁, queue, results, w₂, -, hloop, hfills, rfl, hvars⟩ := step_run h
  rw [hloop] at hr
  cases hr
  have hget : (l.step w).2.vars.get? name = some v := by
    rw [hvars, Bindings.get?_set, if_neg hne]
    exact hfills.get?_of_mem (Table.rowCells_nodup hn k) (mem_valuesSet.mp hm)
  exact ⟨hget, lookup_eq_self_iff ((raw?_singleton _ _).trans hget) _⟩

end Loop

/-- A text that is a reference has the value that is found for it. -/
theorem interpolate_of_lookup {σ : Type} {context : Context σ} {x : ReferenceName} {u : Value}
    {s : σ} (h : context.lookup (String.ofList x.chars) s = (some u, s)) :
    interpolate context (String.ofList x.text) s = (.ok u, s) := by
  have hlift : (liftM (context.lookup (String.ofList x.chars)) : Eval σ (Option Value)) s =
      (.ok (some u), s) := by
    show (Except.ok (context.lookup (String.ofList x.chars) s).1,
      (context.lookup (String.ofList x.chars) s).2) = _
    rw [h]
  rw [interpolate_name, ReferenceName.value]
  simp only [bind, ExceptT.bind, ExceptT.mk, StateT.bind, hlift]
  rfl

/-- A reference after a backslash has itself as its text. -/
theorem cellValue_escaped (x : ReferenceName) (context : Context Session) :
    Loop.cellValue context (.literal (.str (String.ofList ('\\' :: x.text)))) =
      pure (.str (String.ofList x.text)) := by
  have htext : '\\' :: x.text = '\\' :: '[' :: (x.chars ++ [']'] ++ []) := by
    simp [ReferenceName.text]
  have hplain := fillText_plain context x.plain ['['] []
  rw [Loop.cellValue, htext, interpolate_unreferenced context (by simp)]
  have hfill : fillText context [] 0 ('\\' :: '[' :: (x.chars ++ [']'] ++ [])) =
    fillText context ['['] 0 (x.chars ++ [']'] ++ []) := rfl
  rw [hfill, hplain]
  simp [fillText, ReferenceName.text]

namespace Loop

/--
A cell with an escaped reference is reported as the reference, but read as the value of the variable
that it refers to.
-/
theorem step_escaped_reference {l : Loop} {w : Workspace} {item : String} {k : Nat}
    {applied : List (String × Value)} {r : Run} {column : String} {x : ReferenceName} {u : Value}
    (h : (l.step w).1.1 = .ok (.run item k applied)) (hr : (l.step w).1.2.run = some r)
    (hn : r.table.columns.Nodup) (hne : column ≠ "repeat_cycle")
    (hcell : r.table.get? k column = some (.literal (.str (String.ofList ('\\' :: x.text)))))
    (hx : (l.step w).2.vars.get? (String.ofList x.chars) = some u) (hu : u.reference? = none) :
    (column, .str (String.ofList x.text)) ∈ applied ∧
    (lookup [(l.step w).2.vars] column (l.step w).2.session).1 = some u ∧
    u ≠ .str (String.ofList x.text) := by
  obtain ⟨t, w₁, queue, results, w₂, -, hloop, hfills, rfl, hvars⟩ := step_run h
  rw [hloop] at hr
  cases hr
  set reference : Value := .str (String.ofList x.text) with href
  have hresult : (column, .ok reference) ∈ results :=
    hfills.mem_of_cellValue (cellValue_escaped x) ((Table.mem_rowCells hn).mpr ⟨hcell, rfl⟩)
  have hget : (l.step w).2.vars.get? column = some reference := by
    rw [hvars, Bindings.get?_set, if_neg hne]
    exact hfills.get?_of_mem (Table.rowCells_nodup hn k) hresult
  have hopen : reference.reference? = some (String.ofList x.text) := by
    simp [href, Value.reference?, ReferenceName.text]
  refine ⟨mem_valuesSet.mpr hresult, ?_, ?_⟩
  · rw [lookup_eq_of_raw ((raw?_singleton _ _).trans hget), hopen]
    dsimp only
    rw [interpolate_of_lookup (lookupWithin_of_not_reference ((raw?_singleton _ _).trans hx) hu _)]
    rfl
  · rintro rfl
    rw [hopen] at hu
    cases hu

/-- A loop of one cycle, with an escaped reference in its only cell. -/
def escapedRow : Loop :=
  { name := "block"
    vars := defaults.set "order" (.str "sequential")
    table := ⟨["c"], #[#[.literal (.str "\\[x]")]]⟩ }

/-- The step reports the text of the reference, but the variable is read as the referred value. -/
theorem escapedRow_read :
    let w : Workspace := .ofSeed (Bindings.empty.set "x" (.int 7)) 0
    let (trace, after) := escapedRow.goOn 1 #[] w
    (trace.cycles.toList.map fun c => c.applied.map fun (name, v) => (name, v.text)) =
      [[("c", "[x]")]] ∧
    (lookup [after.vars] "c" after.session).1.map Value.text = some "7" :=
  ⟨by decide +kernel, by decide +kernel⟩

end Loop

end TrialLoop
