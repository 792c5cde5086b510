import TrialLoop.Proofs.Interpolation.Segments
import Mathlib.Data.List.Infix

namespace TrialLoop

/--
A text without its escapes: of two backslashes before an opening bracket one is kept, and a single
one is dropped.
-/
def unescapeOpening : List Char → List Char
  | '\\' :: '\\' :: '[' :: cs => '\\' :: '[' :: unescapeOpening cs
  | '\\' :: '[' :: cs => '[' :: unescapeOpening cs
  | c :: cs => c :: unescapeOpening cs
  | [] => []

example : unescapeOpening "\\\\[a] \\[b] \\\\\\[c] \\d]".toList = "\\[a] [b] \\\\[c] \\d]".toList :=
  rfl

section

variable {c : Char} {cs : List Char}

theorem unescapeOpening_of_bracketFollows (h : bracketFollows cs = true) :
    unescapeOpening ('\\' :: cs) = cs.take 1 ++ unescapeOpening (cs.drop 1) := by
  unfold bracketFollows at h
  split at h
  next => rfl
  next => rfl
  next => cases h

theorem unescapeOpening_cons (h : ¬(c = '\\' ∧ bracketFollows cs = true)) :
    unescapeOpening (c :: cs) = c :: unescapeOpening cs := by
  rw [unescapeOpening]
  · rintro ds rfl rfl
    exact h ⟨rfl, rfl⟩
  · rintro ds rfl rfl
    exact h ⟨rfl, rfl⟩

theorem reverse_take_one : (cs.take 1).reverse = cs.take 1 := by
  cases cs <;> rfl

end

/-- The text has no inline expression, not even the start of one. -/
def NoInline (cs : List Char) : Prop := ¬['[', '='] <:+: cs

instance (cs : List Char) : Decidable (NoInline cs) :=
  inferInstanceAs (Decidable (¬['[', '='] <:+: cs))

theorem NoInline.tail {c : Char} {cs : List Char} (h : NoInline (c :: cs)) : NoInline cs :=
  fun hc => h (hc.trans (List.suffix_cons c cs).isInfix)

theorem not_noInline (cs : List Char) : ¬NoInline ('[' :: '=' :: cs) :=
  fun h => h ⟨[], cs, rfl⟩

variable {σ α β : Type}

/-- From every state the computation has a result, which has a property. -/
def Succeeds (P : α → Prop) (m : Eval σ α) : Prop :=
  ∀ s, ∃ a, (m.run s).1 = .ok a ∧ P a

namespace Succeeds

variable {P Q : α → Prop} {R : β → Prop}

theorem pure {a : α} (h : P a) : Succeeds P (Pure.pure a : Eval σ α) := fun _ => ⟨a, rfl, h⟩

theorem mono {m : Eval σ α} (h : Succeeds P m) (hPQ : ∀ a, P a → Q a) : Succeeds Q m := by
  intro s
  obtain ⟨a, hok, ha⟩ := h s
  exact ⟨a, hok, hPQ a ha⟩

theorem bind {m : Eval σ α} {f : α → Eval σ β} (h : Succeeds P m)
    (hf : ∀ a, P a → Succeeds R (f a)) : Succeeds R (m >>= f) := by
  intro s
  obtain ⟨a, hok, ha⟩ := h s
  obtain ⟨b, hb, hR⟩ := hf a ha (m.run s).2
  refine ⟨b, ?_, hR⟩
  change (ExceptT.bindCont f (m.run s).1 (m.run s).2).1 = .ok b
  rw [hok]
  exact hb

theorem lift {m : StateM σ α} (h : ∀ s, P (m s).1) : Succeeds P (liftM m : Eval σ α) :=
  fun s => ⟨(m s).1, rfl, h s⟩

end Succeeds

/-- No variable has a value, in whatever state it is looked up. -/
def KnowsNothing (context : Context σ) : Prop :=
  ∀ name s, (context.lookup name s).1 = none

/-- The computation succeeds, with a result that is known where no variable is. -/
def Settles (context : Context σ) (m : Eval σ α) (a : α) : Prop :=
  Succeeds (fun b => KnowsNothing context → b = a) m

variable (context : Context σ)

theorem findVariable_settles (name : List Char) (length : Nat) :
    Settles context (findVariable context name length) none := by
  unfold findVariable
  split
  next => exact .pure fun _ => rfl
  next =>
    refine .bind (.lift (P := fun v => KnowsNothing context → v = none) fun s hk => hk _ s) ?_
    intro v hv
    cases v with
    | none => exact .pure fun _ => rfl
    | some v => exact .pure fun hk => absurd (hv hk) (Option.some_ne_none _)

/-- The names of references are put together without failure if the references in them are. -/
theorem readName_settles {inner : List Char → Eval σ (Option Found)}
    (hinner : ∀ cs, NoInline ('[' :: cs) → Settles context (inner cs) none) {cs : List Char}
    (h : NoInline cs) (name : List Char) (length skip : Nat) :
    Settles context (readName context inner name length skip cs) none := by
  induction cs generalizing name length skip with
  | nil => exact .pure fun _ => rfl
  | cons c cs ih =>
    cases skip with
    | succ skip => exact ih h.tail _ _ _
    | zero =>
      unfold readName
      split
      next => exact findVariable_settles context _ _
      split
      next hc =>
        subst hc
        refine .bind (hinner cs h) fun found hfound => ?_
        cases found with
        | none => exact .pure fun _ => rfl
        | some found => exact ih h.tail _ _ _
      split
      next => exact ih h.tail _ _ _
      next => exact .pure fun _ => rfl

theorem readReference_settles (depth : Nat) {cs : List Char} (h : NoInline ('[' :: cs)) :
    Settles context (readReference context depth cs) none := by
  induction depth generalizing cs with
  | zero => exact .pure fun _ => rfl
  | succ depth ih =>
    rw [readReference]
    · exact readName_settles context (fun _ => ih) h.tail _ _ _
    · rintro ds rfl
      exact not_noInline ds h

/--
Whatever was written and skipped before, a text is filled in to its end, and each bracket of which
no reference is read stands for itself.
-/
theorem fillText_settles {cs : List Char} (h : NoInline cs) (out : List Char) (skip : Nat) :
    Settles context (fillText context out skip cs)
      (String.ofList (out.reverse ++ unescapeOpening (cs.drop skip))) := by
  induction cs generalizing out skip with
  | nil => exact .pure fun _ => by simp [unescapeOpening]
  | cons c cs ih =>
    cases skip with
    | succ skip => exact ih h.tail _ _
    | zero =>
      rw [List.drop_zero]
      unfold fillText
      split
      next hc =>
        obtain ⟨rfl, hc⟩ := hc
        rw [unescapeOpening_of_bracketFollows hc, ← List.append_assoc]
        simpa [reverse_take_one] using ih h.tail (cs.take 1 ++ out) 1
      next hc =>
        rw [unescapeOpening_cons hc]
        have hkept := ih h.tail (c :: out) 0
        rw [List.reverse_cons, List.append_assoc, List.singleton_append, List.drop_zero] at hkept
        split
        next hopen =>
          subst hopen
          refine .bind (readReference_settles context maxReferences h) fun found hfound => ?_
          cases found with
          | none => exact hkept
          | some found =>
            -- Some variable is known here, so only success is left to show.
            exact (ih h.tail _ _).mono fun _ _ hk => absurd (hfound hk) (Option.some_ne_none _)
        next => exact hkept

/--
Only an inline expression can make the interpolation of a text fail. Where no variable is known, a
text without one loses its escapes and stays as it is otherwise.
-/
theorem interpolate_without_inline {text : String} (h : NoInline text.toList) (s : σ) :
    ∃ v, ((interpolate context text).run s).1 = .ok v ∧
      (KnowsNothing context → v = .str (String.ofList (unescapeOpening text.toList))) := by
  have htext {out cs : List Char} (hcs : NoInline cs)
      (hall : out.reverse ++ unescapeOpening cs = unescapeOpening text.toList) :
      Settles context (do return Value.str (← fillText context out 0 cs))
        (.str (String.ofList (unescapeOpening text.toList))) := by
    refine .bind (fillText_settles context hcs out 0) fun t ht => .pure fun hk => ?_
    rw [ht hk, List.drop_zero, hall]
  suffices hsettles : Settles context (interpolate context text)
      (.str (String.ofList (unescapeOpening text.toList))) from hsettles s
  unfold interpolate
  split
  next cs hcs =>
    rw [hcs] at h
    refine .bind (readReference_settles context maxReferences h) fun found hfound => ?_
    cases found with
    | none =>
      refine htext h.tail ?_
      rw [hcs, unescapeOpening_cons (fun hc => absurd hc.1 (by decide))]
      rfl
    | some found =>
      dsimp only
      split
      next => exact .pure fun hk => absurd (hfound hk) (Option.some_ne_none _)
      next =>
        exact .bind (fillText_settles context h.tail _ _)
          fun _ _ => .pure fun hk => absurd (hfound hk) (Option.some_ne_none _)
  next => exact htext h rfl

/-- A context without any variable or function. -/
def emptyContext : Context Unit where
  lookup _ := return none
  call name _ := throw (.unknownFunction name)

theorem interpolate_without_inline_nested :
    NoInline "\\\\[a[b]] \\[c] [[".toList ∧
      ((interpolate emptyContext "\\\\[a[b]] \\[c] [[").run ()).1 =
        .ok (.str "\\[a[b]] [c] [[") := by
  have htext : NoInline "\\\\[a[b]] \\[c] [[".toList := by decide +kernel
  obtain ⟨v, hok, hv⟩ := interpolate_without_inline emptyContext htext ()
  refine ⟨htext, ?_⟩
  rw [hok, hv fun _ _ => rfl]
  rfl

end TrialLoop
