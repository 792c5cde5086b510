import TrialLoop.Proofs.Interpolation.Segments
import TrialLoop.Proofs.Loop.CycleLines
import TrialLoop.Proofs.Table.UnknownColumn

namespace TrialLoop

/-- The arguments of an operation that names columns: a shift has its steps in front of them. -/
def OperationKind.naming (kind : OperationKind) (steps : Int64) (columns : List String) :
    List String :=
  match kind with
  | roll => intText steps.toInt :: columns
  | _ => columns

/-- What an operation does in a session with the values of its arguments. -/
def OperationKind.runIn (kind : OperationKind) (arguments : List String) (t : Table) :
    StateM Session (Except LoopError Table) := do
  return (← Session.draw (kind.run arguments t)).mapError .validation

theorem bracket_not_mem_intText (n : Int) : '[' ∉ (intText n).toList := by
  intro h
  rw [intText_eq, String.toList_ofList, signedDigits] at h
  have hdigit : '[' ∉ digits n.natAbs := fun hd => absurd (isDigit_of_mem_digits hd) (by decide)
  split at h
  next => exact (List.mem_cons.mp h).elim (by decide) hdigit
  next => exact hdigit h

theorem integerArgument_intText (what : String) (n : Int64) :
    integerArgument what (intText n.toInt) = .ok n := by
  rw [integerArgument, Value.ofText, readNumber?_intText]
  rfl

theorem OperationKind.steps_naming (steps : Int64) (columns : List String) :
    (firstArgument "steps" (roll.naming steps columns) >>= integerArgument "steps") =
      .ok steps := by
  have hfirst : firstArgument "steps" (roll.naming steps columns) = pure (intText steps.toInt) :=
    rfl
  rw [hfirst, pure_bind, integerArgument_intText]

namespace Operation

variable {context : Context Session} {kind : OperationKind} {steps : Int64}
  {columns : List String} {c : String}

/-- An argument in quotes is taken out of them once, and what it then is once more. -/
theorem argument_quote (h : '[' ∉ c.toList) :
    argument context (quote c) = pure (unquote c) := by
  rw [argument, unquote_quote, interpolate_of_not_mem context h, pure_bind]
  rfl

theorem argument_intText (n : Int) : argument context (intText n) = pure (intText n) := by
  have hunquote := (isBare_intText n).unquote
  rw [argument, hunquote, interpolate_of_not_mem context (bracket_not_mem_intText n), pure_bind]
  exact congrArg pure hunquote

theorem arguments?_cons {s a : String} (h : argument context s = pure a) (ss : List String) :
    arguments? context (s :: ss) = List.cons a <$> arguments? context ss := by
  rw [arguments?, h, pure_bind]
  rfl

theorem arguments?_map_quote (h : ∀ c ∈ columns, '[' ∉ c.toList) :
    arguments? context (columns.map quote) = pure (columns.map unquote) := by
  induction columns with
  | nil => rfl
  | cons c columns ih =>
    obtain ⟨hc, hcolumns⟩ := List.forall_mem_cons.mp h
    rw [List.map_cons, arguments?_cons (argument_quote hc), ih hcolumns]
    rfl

theorem arguments?_naming (h : ∀ c ∈ columns, '[' ∉ c.toList) :
    arguments? context (kind.naming steps (columns.map quote)) =
      pure (kind.naming steps (columns.map unquote)) := by
  have hcolumns := @arguments?_map_quote context columns h
  cases kind with
  | roll =>
    rw [OperationKind.naming, arguments?_cons (argument_intText _), hcolumns]
    rfl
  | _ => exact hcolumns

/-- An operation whose columns are given in quotes acts on the names without a second pair. -/
theorem apply_naming (h : ∀ c ∈ columns, '[' ∉ c.toList) (t : Table) :
    (Operation.mk kind (kind.naming steps (columns.map quote))).apply context t =
      kind.runIn (kind.naming steps (columns.map unquote)) t := by
  rw [Operation.apply, arguments?_naming h]
  rfl

theorem mapError_eq_validation {r : Except ValidationError Table} {cause : ValidationError} :
    r.mapError LoopError.validation = .error (.validation cause) ↔ r = .error cause := by
  cases r with
  | error cause' => simp [Except.mapError]
  | ok t => simp [Except.mapError]

/-- The first column that is reported as unknown is the first that has no such name. -/
theorem apply_naming_eq_unknown_iff (h : ∀ c ∈ columns, '[' ∉ c.toList) {t : Table}
    (hrows : t.size ≠ 0) {d : String} (s : Session) :
    ((Operation.mk kind (kind.naming steps (columns.map quote))).apply context t s).1 =
        .error (.validation (.unknownColumn d)) ↔
      t.unknown? (kind.columnNames (kind.naming steps (columns.map unquote))) = some d := by
  have hsteps : kind = .roll → t.size ≠ 0 ∧ ∃ n, (firstArgument "steps"
      (kind.naming steps (columns.map unquote)) >>= integerArgument "steps") = .ok n := by
    rintro rfl
    exact ⟨hrows, steps, OperationKind.steps_naming steps _⟩
  have happly : ((Operation.mk kind (kind.naming steps (columns.map quote))).apply context t s).1 =
      (kind.run (kind.naming steps (columns.map unquote)) t s.random).1.mapError .validation := by
    rw [apply_naming h]
    rfl
  rw [happly, mapError_eq_validation, OperationKind.run_eq_unknownColumn_iff, and_iff_left hsteps]

end Operation

namespace OperationKind

variable {kind : OperationKind} {word : String}

theorem word_of_ofName? (h : ofName? word = some kind) :
    IsBare word ∧ '\n' ∉ word.toList ∧ word ≠ "set" ∧
      word.toList.head? ≠ some '#' ∧ word.toList.head? ≠ some '_' := by
  unfold ofName? at h
  split at h <;> cases h <;> decide

/-- A line that starts with the name of an operation gives its arguments as they are written. -/
theorem tells (h : ofName? word = some kind) {arguments : List String}
    (hwords : ∀ a ∈ arguments, IsWord a) (hfeed : ∀ a ∈ arguments, '\n' ∉ a.toList) :
    Tells (wordLine word arguments) (.command word arguments) := by
  obtain ⟨hbare, hline, hset, hhead⟩ := word_of_ofName? h
  have hall : ∀ w ∈ word :: arguments, IsWord w := List.forall_mem_cons.mpr ⟨.inl hbare, hwords⟩
  refine tells_wordLine hall (List.forall_mem_cons.mpr ⟨hline, hfeed⟩) hhead ?_
  unfold Directive.ofLine
  rw [words_wordLine hall]
  simp only [bind, Except.bind]

/-- Such a line is an operation of the loop. -/
theorem addDirective_operation (h : ofName? word = some kind) (b : Loop.Built) (line : Nat)
    (arguments : List String) :
    Loop.addDirective b line (.command word arguments) =
      { b with loop :=
          { b.loop with operations := b.loop.operations.push ⟨kind, arguments⟩ } } := by
  unfold ofName? at h
  split at h <;> cases h <;> rfl

theorem forall_mem_naming {p : String → Prop} (kind : OperationKind) {steps : Int64}
    {columns : List String} (hsteps : p (intText steps.toInt)) (hcolumns : ∀ c ∈ columns, p c) :
    ∀ a ∈ kind.naming steps columns, p a := by
  cases kind with
  | roll => exact List.forall_mem_cons.mpr ⟨hsteps, hcolumns⟩
  | _ => exact hcolumns

theorem columnNames_naming (hkind : kind ≠ fullFactorial ∧ kind ≠ slice) (steps : Int64)
    (c : String) : kind.columnNames (kind.naming steps [c]) = [c] := by
  cases kind with
  | fullFactorial => exact absurd rfl hkind.1
  | slice => exact absurd rfl hkind.2
  | _ => rfl

end OperationKind

namespace Loop

variable {kind : OperationKind} {word c : String}

/-- A script that makes a column and an operation on it, both with the column's name in quotes. -/
def columnScript (word c : String) (arguments : List String) : String :=
  "\n".intercalate ["setcycle 0 " ++ quote c ++ " 1", wordLine word arguments]

/-- The cell that the first line of such a script sets. -/
def firstCell (c : String) : PlacedCell :=
  ⟨0, c, .literal (.int 1)⟩

theorem line_firstCell (c : String) :
    (firstCell c).line = "setcycle 0 " ++ quote c ++ " 1" := by
  have hzero : intText 0 = "0" := by decide
  have hone : (Cell.literal (.int 1)).written = "1" := by decide
  simp [PlacedCell.line, wordLine, PlacedCell.arguments, firstCell, hzero, hone, String.ext_iff]

theorem writable_firstCell (h : '\n' ∉ c.toList) : (firstCell c).Writable := by
  have hrow : 0 < maxRows := by decide
  have htext : '\n' ∉ (intText 1).toList := by decide
  exact ⟨hrow, h, htext, rfl⟩

theorem setCell_firstCell (c : String) :
    Table.setCell {} (firstCell c).row (firstCell c).column (firstCell c).cell =
      ⟨[c], #[#[.literal (.int 1)]]⟩ := by
  simp [firstCell, Table.setCell, Table.addColumn, Table.growTo]

/-- The script gives the loop the column with this name and the operation. -/
theorem ofScript_columnScript (h : OperationKind.ofName? word = some kind)
    (hfeed : '\n' ∉ c.toList) (steps : Int64) (name : String) :
    let arguments := kind.naming steps [quote c]
    lineErrors (columnScript word c arguments) = [] ∧
      ofScript name (columnScript word c arguments) = { loop := { empty name with
        table := ⟨[c], #[#[.literal (.int 1)]]⟩, operations := #[⟨kind, arguments⟩] } } := by
  intro arguments
  have hcell := writable_firstCell hfeed
  have hsteps := isBare_intText steps.toInt
  have hoperation : Tells (wordLine word arguments) (.command word arguments) :=
    OperationKind.tells h
      (kind.forall_mem_naming (.inl hsteps) (List.forall_mem_singleton.mpr (isWord_quote c)))
      (kind.forall_mem_naming hsteps.feed_not_mem
        (List.forall_mem_singleton.mpr (mt feed_mem_quote.mp hfeed)))
  let commands := [("setcycle", (firstCell c).arguments), (word, arguments)]
  have htells : ∀ p ∈ commands, Tells (wordLine p.1 p.2) (.command p.1 p.2) := by
    simp only [commands, List.forall_mem_cons]
    exact ⟨hcell.tells, hoperation, by simp⟩
  have hscript : columnScript word c arguments =
      "\n".intercalate (commands.map fun p => wordLine p.1 p.2) := by
    rw [columnScript, ← line_firstCell]
    rfl
  have hds : scriptEntries (columnScript word c arguments) =
      [(1, Directive.command "setcycle" (firstCell c).arguments), (2, .command word arguments)].map
        fun d => ⟨d.1, .ok d.2⟩ :=
    scriptEntries_tells htells (hscript ▸ lines_tells htells)
  refine ⟨lineErrors_of_entries hds, ?_⟩
  rw [ofScript, directives_of_entries hds, List.foldl_cons, List.foldl_cons, List.foldl_nil]
  dsimp only
  rw [addDirective_cycle hcell, OperationKind.addDirective_operation h]
  simp only [empty, setCell_firstCell]
  rfl

/--
An operation on a column that a script made reports it as unknown exactly if the name is in quote
marks of its own, of which it takes one pair too many away; it acts on the name without this pair.
-/
theorem quotedColumn_found_iff (h : OperationKind.ofName? word = some kind)
    (hkind : kind ≠ .fullFactorial ∧ kind ≠ .slice) (hbracket : '[' ∉ c.toList)
    (hfeed : '\n' ∉ c.toList) (steps : Int64) (name : String) :
    let t : Table := ⟨[c], #[#[.literal (.int 1)]]⟩
    let op : Operation := ⟨kind, kind.naming steps [quote c]⟩
    let script := columnScript word c op.arguments
    (lineErrors script = [] ∧
      ofScript name script = { loop := { empty name with table := t, operations := #[op] } }) ∧
    ∀ context s,
      op.apply context t s = kind.runIn (kind.naming steps [unquote c]) t s ∧
      ((∀ d, (op.apply context t s).1 ≠ .error (.validation (.unknownColumn d))) ↔
        enclosingMark? c.toList = none) := by
  intro t op script
  have hbrackets : ∀ d ∈ [c], '[' ∉ d.toList := List.forall_mem_singleton.mpr hbracket
  have hrows : t.size ≠ 0 := Nat.one_ne_zero
  refine ⟨ofScript_columnScript h hfeed steps name, fun context s => ⟨?_, ?_⟩⟩
  · exact congrFun (Operation.apply_naming hbrackets t) s
  · have hunknown (d : String) : (op.apply context t s).1 =
        .error (.validation (.unknownColumn d)) ↔ t.unknown? [unquote c] = some d := by
      rw [← OperationKind.columnNames_naming hkind steps (unquote c)]
      exact Operation.apply_naming_eq_unknown_iff hbrackets hrows s
    have hfound : (∀ d, t.unknown? [unquote c] ≠ some d) ↔ unquote c ∈ [c] := by
      rw [← Option.eq_none_iff_forall_ne_some]
      simp [Table.unknown?, t]
    rw [← unquote_eq_self_iff, ← List.mem_singleton, ← hfound]
    exact forall_congr' fun d => not_congr (hunknown d)

/-- The column whose name is the letter a in double quotes is looked up without them. -/
theorem enclosedName_unknown :
    let c := "\"a\""
    let script := "setcycle 0 \"\\\"a\\\"\" 1\nreverse \"\\\"a\\\"\""
    let t : Table := ⟨[c], #[#[.literal (.int 1)]]⟩
    let op : Operation := ⟨.reverse, [quote c]⟩
    (lineErrors script = [] ∧
      ofScript "loop" script = { loop := { empty "loop" with table := t, operations := #[op] } }) ∧
    ∀ context s, (op.apply context t s).1 = .error (.validation (.unknownColumn "a")) := by
  intro c script t op
  have hscript : script = columnScript "reverse" c [quote c] := by decide +kernel
  have hkind : OperationKind.ofName? "reverse" = some .reverse := rfl
  have hfeed : '\n' ∉ c.toList := by decide
  have hbracket : ∀ d ∈ [c], '[' ∉ d.toList := by decide
  have hrows : t.size ≠ 0 := Nat.one_ne_zero
  refine ⟨hscript ▸ ofScript_columnScript hkind hfeed 0 "loop", fun context s => ?_⟩
  have hunknown :=
    @Operation.apply_naming_eq_unknown_iff context .reverse 0 [c] hbracket t hrows "a" s
  exact hunknown.mpr (by decide +kernel)

end Loop

end TrialLoop
