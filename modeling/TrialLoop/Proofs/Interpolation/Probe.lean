import TrialLoop.Proofs.Interpolation.Related

namespace TrialLoop

variable {σ ρ : Type}

/-- A context beside a record that it leaves as it is. -/
def Context.beside (context : Context σ) (ρ : Type) : Context (σ × ρ) where
  lookup name w := ((context.lookup name w.1).1, (context.lookup name w.1).2, w.2)
  call function vs := ExceptT.mk fun w =>
    (((context.call function vs).run w.1).1, ((context.call function vs).run w.1).2, w.2)

/--
The value of a reference, with a record of the inline expressions that are evaluated for it. Each
is known by the number of characters after its opening bracket.
-/
def readRecorded (context : Context σ) : Nat → List Char → Eval (σ × List Nat) (Option Found)
  | 0, _ => return none
  | _ + 1, '=' :: cs => do
    if (closingBracket? 0 0 none cs).isSome then
      modify fun w => (w.1, w.2 ++ [cs.length + 1])
    readInline (context.beside (List Nat)) cs
  | depth + 1, cs =>
    readName (context.beside (List Nat)) (readRecorded context depth) [] 0 0 cs

/-- What came of reading the reference at a bracket of a text. -/
structure Probe where
  /-- The inline expressions that were evaluated for it, from left to right. -/
  evaluated : List Nat
  /-- There is no such reference, so that the bracket stands for itself. -/
  givenUp : Bool

/-- A reading with a record of its own, from which a probe is made. -/
def probe (m : Eval (σ × List Nat) (Option Found)) : Eval (σ × List Probe) (Option Found) :=
  ExceptT.mk fun w =>
    let (r, s, evaluated) := m.run (w.1, [])
    let givenUp := match r with
      | .ok none => true
      | _ => false
    (r, s, w.2 ++ [⟨evaluated, givenUp⟩])

/-- A text is filled in with a record of the probes for its references. -/
def fillRecorded (context : Context σ) :
    (out : List Char) → (skip : Nat) → List Char → Eval (σ × List Probe) String
  | out, _, [] => return String.ofList out.reverse
  | out, skip + 1, _ :: cs => fillRecorded context out skip cs
  | out, 0, c :: cs =>
    if c = '\\' ∧ bracketFollows cs then fillRecorded context (cs.take 1 ++ out) 1 cs
    else if c = '[' then do
      match ← probe (readRecorded context maxReferences cs) with
      | some found =>
        fillRecorded context (found.value.text.toList.reverse ++ out) found.length cs
      | none => fillRecorded context ('[' :: out) 0 cs
    else fillRecorded context (c :: out) 0 cs

/-- The value of a text with a record of the probes for its references. -/
def interpolateRecorded (context : Context σ) (text : String) : Eval (σ × List Probe) Value :=
  match text.toList with
  | '[' :: cs => do
    match ← probe (readRecorded context maxReferences cs) with
    | some found =>
      if found.length = cs.length then return found.value
      else return .str (← fillRecorded context found.value.text.toList.reverse found.length cs)
    | none => return .str (← fillRecorded context ['['] 0 cs)
  | cs => return .str (← fillRecorded context [] 0 cs)

/-- A state and the same with a record beside it. -/
def Beside (s : σ) (w : σ × ρ) : Prop := w.1 = s

theorem beside_related (context : Context σ) :
    ContextRelated (Beside (ρ := ρ)) context (context.beside ρ) where
  lookup name := by
    rintro s w rfl
    exact ⟨rfl, rfl⟩
  call function vs := by
    rintro s w rfl
    exact ⟨rfl, rfl⟩

section

variable {τ : Type} {R : σ → τ → Prop} {c : Context σ} {d : Context τ}

theorem readName_related (hc : ContextRelated R c d) {inner : List Char → Eval σ (Option Found)}
    {inner' : List Char → Eval τ (Option Found)}
    (hinner : ∀ cs, EvalRelated R (inner cs) (inner' cs)) (name : List Char) (length skip : Nat)
    (cs : List Char) :
    EvalRelated R (readName c inner name length skip cs)
      (readName d inner' name length skip cs) := by
  induction cs generalizing name length skip with
  | nil => exact .pure _
  | cons x cs ih =>
    cases skip with
    | succ skip => exact ih _ _ _
    | zero =>
      unfold readName
      split
      next => exact (Consults.findVariable _ _).related hc
      split
      next =>
        refine (hinner cs).bind fun found => ?_
        cases found with
        | none => exact .pure _
        | some found => exact ih _ _ _
      split
      next => exact ih _ _ _
      next => exact .pure _

end

variable (context : Context σ)

theorem readRecorded_related (depth : Nat) (cs : List Char) :
    EvalRelated Beside (readReference context depth cs) (readRecorded context depth cs) := by
  induction depth generalizing cs with
  | zero => exact .pure _
  | succ depth ih =>
    have hcontext := beside_related (ρ := List Nat) context
    by_cases hcs : ∃ ds, cs = '=' :: ds
    · obtain ⟨ds, rfl⟩ := hcs
      have hinline := (Consults.readInline ds).related hcontext
      rw [readReference, readRecorded]
      split
      next =>
        rintro s w rfl
        exact hinline _ (w.1, w.2 ++ [ds.length + 1]) rfl
      next => simpa using hinline
    · rw [readReference, readRecorded]
      · exact readName_related hcontext ih _ _ _ _
      · exact fun ds he => hcs ⟨ds, he⟩
      · exact fun ds he => hcs ⟨ds, he⟩

theorem probe_related {m : Eval σ (Option Found)} {n : Eval (σ × List Nat) (Option Found)}
    (h : EvalRelated Beside m n) : EvalRelated Beside m (probe n) := by
  rintro s w rfl
  exact h w.1 (w.1, []) rfl

theorem fillRecorded_related (out : List Char) (skip : Nat) (cs : List Char) :
    EvalRelated Beside (fillText context out skip cs) (fillRecorded context out skip cs) := by
  induction cs generalizing out skip with
  | nil => exact .pure _
  | cons x cs ih =>
    cases skip with
    | succ skip => exact ih _ _
    | zero =>
      unfold fillText fillRecorded
      split
      next => exact ih _ _
      split
      next =>
        refine (probe_related (readRecorded_related context _ cs)).bind fun found => ?_
        cases found with
        | none => exact ih _ _
        | some found => exact ih _ _
      next => exact ih _ _

/-- The record of its probes changes nothing about what a text is. -/
theorem interpolateRecorded_related (text : String) :
    EvalRelated Beside (interpolate context text) (interpolateRecorded context text) := by
  have hfilled (out : List Char) (skip : Nat) (cs : List Char) :
      EvalRelated Beside (do return Value.str (← fillText context out skip cs))
        (do return Value.str (← fillRecorded context out skip cs)) :=
    (fillRecorded_related context out skip cs).bind fun _ => .pure _
  by_cases hopen : ∃ cs, text.toList = '[' :: cs
  · obtain ⟨cs, hcs⟩ := hopen
    rw [interpolate, interpolateRecorded, hcs]
    refine (probe_related (readRecorded_related context _ cs)).bind fun found => ?_
    cases found with
    | none => exact hfilled _ _ _
    | some found =>
      dsimp only
      split
      next => exact .pure _
      next => exact hfilled _ _ _
  · have hplain : interpolate context text =
        (do return Value.str (← fillText context [] 0 text.toList)) := by
      unfold interpolate
      split
      next cs hcs => exact absurd ⟨cs, hcs⟩ hopen
      next => rfl
    have hrecorded : interpolateRecorded context text =
        (do return Value.str (← fillRecorded context [] 0 text.toList)) := by
      unfold interpolateRecorded
      split
      next cs hcs => exact absurd ⟨cs, hcs⟩ hopen
      next => rfl
    rw [hplain, hrecorded]
    exact hfilled _ _ _

/-- The probes for references that the interpolation of a text makes, in their order. -/
def probes (text : String) (s : σ) : List Probe :=
  ((interpolateRecorded context text).run (s, [])).2.2

/-- The inline expressions that the interpolation of a text evaluates, in their order. -/
def evaluations (text : String) (s : σ) : List Nat :=
  (probes context text s).flatMap Probe.evaluated

end TrialLoop
