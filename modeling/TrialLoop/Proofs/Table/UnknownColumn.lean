import TrialLoop.Loop.Operation
import TrialLoop.Proofs.Table.Columns

namespace TrialLoop

variable {t : Table} {columns : List String} {c : String}

/-- The result is not that a column is unknown. -/
def KnowsColumns {α : Type} (r : Except ValidationError α) : Prop :=
  ∀ c, r ≠ .error (.unknownColumn c)

theorem KnowsColumns.bind {α β : Type} {r : Except ValidationError α}
    {f : α → Except ValidationError β} (h : KnowsColumns r) (hf : ∀ a, KnowsColumns (f a)) :
    KnowsColumns (r >>= f) := by
  cases r with
  | error cause => exact fun c hc => h c (congrArg Except.error (Except.error.inj hc))
  | ok a => exact hf a

theorem firstArgument_known (what : String) (arguments : List String) :
    KnowsColumns (firstArgument what arguments) := by
  unfold firstArgument
  split
  next => nofun
  next => nofun

theorem integerArgument_known (what s : String) : KnowsColumns (integerArgument what s) := by
  unfold integerArgument
  split
  next => nofun
  next => nofun

namespace Table

theorem reorder_of_unknown (h : t.unknown? columns = some c) (order : Array Nat) :
    t.reorder columns order = .error (.unknownColumn c) := by
  have hne : columns ≠ [] := by
    rintro rfl
    cases h
  rw [reorder, if_neg hne, columnSet_of_unknown h]
  rfl

theorem shuffleRows_of_unknown (h : t.unknown? columns = some c) (s : RandomStream) :
    (t.shuffleRows columns s).1 = .error (.unknownColumn c) :=
  reorder_of_unknown h _

theorem shuffleCells_of_unknown (h : t.unknown? columns = some c) (s : RandomStream) :
    (t.shuffleCells columns s).1 = .error (.unknownColumn c) := by
  rw [shuffleCells, columnSet_of_unknown h]
  rfl

theorem reverse_of_unknown (h : t.unknown? columns = some c) :
    t.reverse columns = .error (.unknownColumn c) :=
  reorder_of_unknown h _

/-- A table without rows is returned before its columns are looked up. -/
theorem roll_of_unknown (h : t.unknown? columns = some c) (steps : Int64) :
    t.roll steps columns = if t.size = 0 then .ok t else .error (.unknownColumn c) := by
  unfold roll
  dsimp only
  rw [reorder_of_unknown h]

theorem sortColumn_of_unknown (h : c ∉ t.columns) :
    t.sortColumn c = .error (.unknownColumn c) := by
  rw [sortColumn, columnIndex_of_unknown h]
  rfl

theorem sortBy_of_unknown (h : c ∉ t.columns) : t.sortBy c = .error (.unknownColumn c) := by
  rw [sortBy, columnIndex_of_unknown h]
  rfl

theorem weight_of_unknown (h : c ∉ t.columns) : t.weight c = .error (.unknownColumn c) := by
  rw [weight, columnIndex_of_unknown h]
  rfl

theorem reorder_known (h : ∀ c ∈ columns, c ∈ t.columns) (order : Array Nat) :
    KnowsColumns (t.reorder columns order) := by
  unfold reorder
  split
  next => nofun
  next =>
    rw [columnSet_of_mem h]
    nofun

theorem roll_known (h : ∀ c ∈ columns, c ∈ t.columns) (steps : Int64) :
    KnowsColumns (t.roll steps columns) := by
  unfold roll
  dsimp only
  split
  next => nofun
  next => exact reorder_known h _

theorem shuffleCells_known (h : ∀ c ∈ columns, c ∈ t.columns) (s : RandomStream) :
    KnowsColumns (t.shuffleCells columns s).1 := by
  rw [shuffleCells, columnSet_of_mem h]
  nofun

theorem sortColumn_known (h : c ∈ t.columns) : KnowsColumns (t.sortColumn c) := by
  rw [sortColumn, columnIndex_of_mem h]
  nofun

theorem sortBy_known (h : c ∈ t.columns) : KnowsColumns (t.sortBy c) := by
  rw [sortBy, columnIndex_of_mem h]
  nofun

theorem weightOf_known (column row : Nat) (cells : Array Cell) :
    KnowsColumns (weightOf column row cells) := by
  unfold weightOf
  dsimp only
  split
  next =>
    split
    next => nofun
    next => nofun
  next => nofun

theorem weightsFrom_known (column row total : Nat) (rows : List (Array Cell)) :
    KnowsColumns (weightsFrom column row total rows) := by
  induction rows generalizing row total with
  | nil => nofun
  | cons cells rows ih =>
    refine (weightOf_known column row cells).bind fun w => ?_
    split
    next => exact (ih (row + 1) (total + w)).bind fun _ => nofun
    next => nofun

theorem weight_known (h : c ∈ t.columns) : KnowsColumns (t.weight c) := by
  rw [weight, columnIndex_of_mem h]
  exact (weightsFrom_known _ 0 0 t.rows.toList).bind fun _ => nofun

theorem fullDesign_known (t : Table) : KnowsColumns t.fullDesign := by
  unfold fullDesign
  split
  next => nofun
  next =>
    split
    next =>
      split
      next => nofun
      next => nofun
    next => nofun

end Table

namespace OperationKind

/-- The arguments that name columns. -/
def columnNames : OperationKind → List String → List String
  | shuffle, arguments | shuffleHoriz, arguments | reverse, arguments => arguments
  | roll, arguments => arguments.drop 1
  | sort, arguments | sortBy, arguments | weight, arguments => arguments.take 1
  | fullFactorial, _ | slice, _ => []

/-- A single column is named by the first argument. -/
theorem firstArgument_of_unknown {arguments : List String}
    {change : String → Except ValidationError Table}
    (hchange : ∀ c, c ∉ t.columns → change c = .error (.unknownColumn c))
    (h : t.unknown? (arguments.take 1) = some c) :
    (firstArgument "column" arguments >>= change) = .error (.unknownColumn c) := by
  cases arguments with
  | nil => cases h
  | cons d arguments =>
    have hd : d ∉ t.columns := by
      intro hd
      simp [Table.unknown?, hd] at h
    obtain rfl : d = c := by simpa [Table.unknown?, hd] using h
    exact hchange d hd

theorem run_of_unknown {kind : OperationKind} {arguments : List String}
    (h : t.unknown? (kind.columnNames arguments) = some c) (hkind : kind ≠ .roll)
    (s : RandomStream) : (kind.run arguments t s).1 = .error (.unknownColumn c) := by
  cases kind with
  | fullFactorial => cases h
  | slice => cases h
  | roll => exact absurd rfl hkind
  | shuffle => exact Table.shuffleRows_of_unknown h s
  | shuffleHoriz => exact Table.shuffleCells_of_unknown h s
  | reverse => exact Table.reverse_of_unknown h
  | sort => exact firstArgument_of_unknown (fun _ => Table.sortColumn_of_unknown) h
  | sortBy => exact firstArgument_of_unknown (fun _ => Table.sortBy_of_unknown) h
  | weight => exact firstArgument_of_unknown (fun _ => Table.weight_of_unknown) h

/-- The steps of a shift are read before its columns are looked up. -/
theorem run_roll_of_unknown {arguments : List String}
    (h : t.unknown? (roll.columnNames arguments) = some c) (s : RandomStream) :
    (roll.run arguments t s).1 =
      (firstArgument "steps" arguments >>= integerArgument "steps" >>= fun _ =>
        if t.size = 0 then .ok t else .error (.unknownColumn c)) := by
  have hroll (steps : Int64) : t.roll steps (arguments.drop 1) =
      if t.size = 0 then .ok t else .error (.unknownColumn c) := Table.roll_of_unknown h steps
  rw [bind_assoc, ← funext hroll]
  rfl

/-- An operation with an unknown column is refused, unless it is a shift of no rows. -/
theorem run_unknown_iff {kind : OperationKind} {arguments : List String}
    (h : ∃ c ∈ kind.columnNames arguments, c ∉ t.columns) (s : RandomStream) :
    (∃ cause, (kind.run arguments t s).1 = .error cause) ↔
      ¬ (kind = .roll ∧ t.size = 0 ∧
        ∃ steps, (firstArgument "steps" arguments >>= integerArgument "steps") = .ok steps) := by
  obtain ⟨c, hc⟩ := Table.exists_unknown h
  by_cases hkind : kind = .roll
  · subst hkind
    rw [run_roll_of_unknown hc]
    cases hsteps : firstArgument "steps" arguments >>= integerArgument "steps" with
    | error cause => exact iff_of_true ⟨cause, rfl⟩ (by simp)
    | ok steps =>
      by_cases hn : t.size = 0
      · refine iff_of_false ?_ fun hnot => hnot ⟨rfl, hn, steps, rfl⟩
        rintro ⟨cause, hcause⟩
        cases (if_pos hn).symm.trans hcause
      · exact iff_of_true ⟨.unknownColumn c, if_neg hn⟩ (by simp [hn])
  · exact iff_of_true ⟨_, run_of_unknown hc hkind s⟩ fun hroll => hkind hroll.1

theorem firstArgument_of_known {arguments : List String}
    {change : String → Except ValidationError Table}
    (hchange : ∀ c ∈ t.columns, KnowsColumns (change c))
    (h : ∀ c ∈ arguments.take 1, c ∈ t.columns) :
    KnowsColumns (firstArgument "column" arguments >>= change) := by
  cases arguments with
  | nil => nofun
  | cons d arguments => exact hchange d (h d (by simp))

theorem run_known {kind : OperationKind} {arguments : List String}
    (h : ∀ c ∈ kind.columnNames arguments, c ∈ t.columns) (s : RandomStream) :
    KnowsColumns (kind.run arguments t s).1 := by
  cases kind with
  | fullFactorial => exact t.fullDesign_known
  | slice =>
    have hstop : KnowsColumns ((arguments[1]?).mapM (integerArgument "to")) := by
      cases arguments[1]? with
      | none => nofun
      | some a => exact (integerArgument_known "to" a).bind fun _ => nofun
    refine (firstArgument_known "from" arguments).bind fun a => ?_
    exact (integerArgument_known "from" a).bind fun _ => hstop.bind fun _ => nofun
  | shuffle => exact Table.reorder_known h _
  | shuffleHoriz => exact Table.shuffleCells_known h s
  | reverse => exact Table.reorder_known h _
  | roll =>
    refine (firstArgument_known "steps" arguments).bind fun a => ?_
    exact (integerArgument_known "steps" a).bind fun steps => Table.roll_known h steps
  | sort => exact firstArgument_of_known (fun _ => Table.sortColumn_known) h
  | sortBy => exact firstArgument_of_known (fun _ => Table.sortBy_known) h
  | weight => exact firstArgument_of_known (fun _ => Table.weight_known) h

/--
An operation reports the first of its names that is no column, unless it is a shift that does not
look its columns up.
-/
theorem run_eq_unknownColumn_iff {kind : OperationKind} {arguments : List String}
    (s : RandomStream) : (kind.run arguments t s).1 = .error (.unknownColumn c) ↔
      t.unknown? (kind.columnNames arguments) = some c ∧ (kind = .roll → t.size ≠ 0 ∧
        ∃ steps, (firstArgument "steps" arguments >>= integerArgument "steps") = .ok steps) := by
  by_cases hknown : ∀ d ∈ kind.columnNames arguments, d ∈ t.columns
  · have hnone : t.unknown? (kind.columnNames arguments) = none := by
      simpa [Table.unknown?] using hknown
    simp [run_known hknown s c, hnone]
  · obtain ⟨d, hd⟩ := Table.exists_unknown (by simpa using hknown)
    rw [hd, Option.some_inj]
    by_cases hkind : kind = .roll
    · subst hkind
      rw [run_roll_of_unknown hd]
      cases hsteps : firstArgument "steps" arguments >>= integerArgument "steps" with
      | error cause =>
        refine iff_of_false ?_ (by simp)
        have hread := (firstArgument_known "steps" arguments).bind (integerArgument_known "steps")
        rw [hsteps] at hread
        exact fun he => hread c (congrArg Except.error (Except.error.inj he))
      | ok steps =>
        by_cases hn : t.size = 0
        · simp [hn, bind, Except.bind]
        · simp [hn, bind, Except.bind]
    · rw [run_of_unknown hd hkind]
      simp [hkind]

end OperationKind

/-- An operation whose arguments have values does with them what its kind says. -/
theorem Operation.apply_of_arguments {op : Operation} {context : Context Session} {s : Session}
    {arguments : List String} (h : (arguments? context op.arguments s).1 = .ok arguments)
    (t : Table) : ∃ stream, (op.apply context t s).1 =
      ((op.kind.run arguments t stream).1).mapError .validation := by
  refine ⟨(arguments? context op.arguments s).2.random, ?_⟩
  unfold Operation.apply
  simp only [bind, StateT.bind]
  rcases ha : arguments? context op.arguments s with ⟨values, s'⟩
  obtain rfl : values = .ok arguments := by rw [← h, ha]
  rfl

/--
An operation of which one argument names no column is refused with a validation error exactly if
it is no shift of a table without rows.
-/
theorem Operation.apply_unknown_iff {op : Operation} {context : Context Session} {s : Session}
    {arguments : List String} (h : (arguments? context op.arguments s).1 = .ok arguments)
    (hunknown : ∃ c ∈ op.kind.columnNames arguments, c ∉ t.columns) :
    (∃ cause, (op.apply context t s).1 = .error (.validation cause)) ↔
      ¬ (op.kind = .roll ∧ t.size = 0 ∧
        ∃ steps, (firstArgument "steps" arguments >>= integerArgument "steps") = .ok steps) := by
  obtain ⟨stream, happly⟩ := apply_of_arguments h t
  rw [← OperationKind.run_unknown_iff hunknown stream, happly]
  cases (op.kind.run arguments t stream).1 with
  | error cause => simp [Except.mapError]
  | ok u => simp [Except.mapError]

namespace Table

/-- A table without rows is rolled in a column that it does not have, but not reversed in it. -/
theorem emptyTable_rolled :
    let t : Table := ⟨["a"], #[]⟩
    "b" ∉ t.columns ∧ t.roll 1 ["b"] = .ok t ∧ t.reverse ["b"] = .error (.unknownColumn "b") :=
  ⟨by decide, rfl, rfl⟩

end Table

end TrialLoop
