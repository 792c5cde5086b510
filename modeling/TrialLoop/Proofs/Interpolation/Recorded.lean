import TrialLoop.Proofs.Interpolation.Probe
import Mathlib.Data.List.Infix

namespace TrialLoop

variable {σ ρ α β : Type}

/--
From every state the computation adds some entries to its record, and these and what it gives have
a property.
-/
def Records (P : Except EvalError α → List ρ → Prop) (m : Eval (σ × List ρ) α) : Prop :=
  ∀ w, ∃ added, (m.run w).2.2 = w.2 ++ added ∧ P (m.run w).1 added

namespace Records

variable {P : Except EvalError α → List ρ → Prop} {Q : Except EvalError β → List ρ → Prop}
  {m : Eval (σ × List ρ) α}

theorem pure {a : α} (h : P (.ok a) []) : Records P (Pure.pure a : Eval (σ × List ρ) α) :=
  fun _ => ⟨[], (List.append_nil _).symm, h⟩

theorem mono {P' : Except EvalError α → List ρ → Prop} (h : Records P m)
    (hP : ∀ r added, P r added → P' r added) : Records P' m := by
  intro w
  obtain ⟨added, hadded, hr⟩ := h w
  exact ⟨added, hadded, hP _ _ hr⟩

/-- What is known of all that a computation adds is known of what it adds to a record. -/
theorem of_added (h : Records P m) {w : σ × List ρ} {added : List ρ}
    (hadded : (m.run w).2.2 = w.2 ++ added) : P (m.run w).1 added := by
  obtain ⟨added', hadded', hr⟩ := h w
  obtain rfl := List.append_cancel_left (hadded.symm.trans hadded')
  exact hr

theorem and {P' : Except EvalError α → List ρ → Prop} (h : Records P m) (h' : Records P' m) :
    Records (fun r added => P r added ∧ P' r added) m := by
  intro w
  obtain ⟨added, hadded, hr⟩ := h w
  exact ⟨added, hadded, hr, h'.of_added hadded⟩

theorem bind {f : α → Eval (σ × List ρ) β} (h : Records P m)
    (hok : ∀ a before, P (.ok a) before →
      Records (fun r added => Q r (before ++ added)) (f a))
    (herror : ∀ cause before, P (.error cause) before → Q (.error cause) before) :
    Records Q (m >>= f) := by
  intro w
  obtain ⟨before, hbefore, hm⟩ := h w
  change ∃ added, (ExceptT.bindCont f (m.run w).1 (m.run w).2).2.2 = w.2 ++ added ∧
    Q (ExceptT.bindCont f (m.run w).1 (m.run w).2).1 added
  cases hr : (m.run w).1 with
  | error cause =>
    rw [hr] at hm
    exact ⟨before, hbefore, herror cause before hm⟩
  | ok a =>
    rw [hr] at hm
    obtain ⟨added, hadded, hf⟩ := hok a before hm (m.run w).2
    refine ⟨before ++ added, ?_, hf⟩
    rw [← List.append_assoc, ← hbefore]
    exact hadded

theorem lookup (context : Context σ) (name : String) :
    Records (fun r added => added = [] ∧ ∃ v, r = .ok v)
      (liftM ((context.beside (List ρ)).lookup name) : Eval (σ × List ρ) (Option Value)) :=
  fun _ => ⟨[], (List.append_nil _).symm, rfl, _, rfl⟩

/-- What only consults its context adds nothing to a record beside it. -/
theorem of_consults {n : (σ : Type) → Context σ → Eval σ α} (h : Consults n)
    (context : Context σ) :
    Records (fun _ added => added = []) (n _ (context.beside (List ρ))) := by
  intro w
  have hkeeps : ContextKeeps (fun v : σ × List ρ => v.2 = w.2) (context.beside (List ρ)) :=
    ⟨fun _ _ h => h, fun _ _ _ h => h⟩
  exact ⟨[], (h.keeps hkeeps w rfl).trans (List.append_nil _).symm, rfl⟩

end Records

/-- The characters of a reference but for those of its inline expressions. -/
def IsPart (c : Char) : Prop :=
  c = '[' ∨ c = ']' ∨ isNameChar c = true

theorem IsPart.ne {c : Char} (h : IsPart c) : c ≠ '=' ∧ c ≠ '\\' := by
  rcases h with rfl | rfl | h
  · decide
  · decide
  · constructor <;> rintro rfl <;> revert h <;> decide

/-- An inline expression that has an end, from its equals sign on. -/
def IsInline (cs : List Char) : Prop :=
  ∃ source, cs = '=' :: source ∧ (closingBracket? 0 0 none source).isSome = true

/--
Some characters stand before the bracket of an inline expression of a text, and they are parts of
references.
-/
structure FirstInline (cs before rest : List Char) : Prop where
  text : cs = before ++ '[' :: rest
  parts : ∀ c ∈ before, IsPart c
  inline : IsInline rest

theorem FirstInline.cons {c : Char} {cs before rest : List Char} (hc : IsPart c)
    (h : FirstInline cs before rest) : FirstInline (c :: cs) (c :: before) rest :=
  ⟨by rw [h.text, List.cons_append], List.forall_mem_cons.mpr ⟨hc, h.parts⟩, h.inline⟩

/-- The first inline expression of a text, before which there are only parts of references. -/
def LeadsTo (cs : List Char) (place : Nat) : Prop :=
  ∃ before rest, FirstInline cs before rest ∧ place = rest.length

theorem LeadsTo.cons {c : Char} {cs : List Char} {place : Nat} (hc : IsPart c)
    (h : LeadsTo cs place) : LeadsTo (c :: cs) place := by
  obtain ⟨before, rest, hleads, rfl⟩ := h
  exact ⟨c :: before, rest, hleads.cons hc, rfl⟩

/-- What a reading of a name, of which some characters were read, finds and evaluates. -/
structure ReadsOn (length skip : Nat) (cs : List Char) (r : Except EvalError (Option Found))
    (places : List Nat) : Prop where
  order : places.Pairwise (· > ·)
  behind : ∀ p ∈ places, p + skip < cs.length
  length_le : ∀ f, r = .ok (some f) →
    length + skip < f.length ∧ f.length ≤ length + cs.length
  within : ∀ f, r = .ok (some f) → ∀ p ∈ places, length + cs.length ≤ p + f.length
  leads : (∀ c ∈ cs.take skip, IsPart c) → ∀ p ∈ places.head?, LeadsTo cs p
  parts : (∀ c ∈ cs.take skip, IsPart c) → places = [] → ∀ f, r = .ok (some f) →
    ∀ c ∈ cs.take (f.length - length), IsPart c

/-- What a reading of a reference finds and evaluates. -/
structure Reads (cs : List Char) (r : Except EvalError (Option Found)) (places : List Nat) :
    Prop where
  order : places.Pairwise (· > ·)
  behind : ∀ p ∈ places, p ≤ cs.length
  length_le : ∀ f, r = .ok (some f) → f.length ≤ cs.length
  within : ∀ f, r = .ok (some f) → ∀ p ∈ places, cs.length ≤ p + f.length
  leads : ∀ p ∈ places.head?, LeadsTo ('[' :: cs) p
  leads_none : r = .ok none → ∀ p ∈ places.head?, LeadsTo cs p
  parts : places = [] → ∀ f, r = .ok (some f) → ∀ c ∈ cs.take f.length, IsPart c

namespace ReadsOn

variable {length skip : Nat} {c : Char} {cs : List Char} {r : Except EvalError (Option Found)}
  {places : List Nat}

/-- Nothing is evaluated, and at most the reference that ends here is found. -/
theorem stop (hfound : ∀ f, r = .ok (some f) → f.length = length + 1 ∧ ∃ rest, cs = ']' :: rest) :
    ReadsOn length 0 cs r [] where
  order := .nil
  behind := by simp
  length_le := by
    intro f hf
    obtain ⟨hlength, rest, rfl⟩ := hfound f hf
    simp only [List.length_cons]
    omega
  within := by simp
  leads := by simp
  parts := by
    intro _ _ f hf d hd
    obtain ⟨hlength, rest, rfl⟩ := hfound f hf
    rw [hlength, Nat.add_sub_cancel_left, List.take_succ_cons, List.take_zero,
      List.mem_singleton] at hd
    exact .inr (.inl hd)

/-- A character is skipped, or it belongs to the name itself. -/
theorem step {skip' : Nat} (h : ReadsOn (length + 1) skip cs r places) (hskip : skip' ≤ skip + 1)
    (hparts : (∀ d ∈ (c :: cs).take skip', IsPart d) →
      IsPart c ∧ ∀ d ∈ cs.take skip, IsPart d) :
    ReadsOn length skip' (c :: cs) r places where
  order := h.order
  behind := by
    intro p hp
    have := h.behind p hp
    rw [List.length_cons]
    omega
  length_le := by
    intro f hf
    have := h.length_le f hf
    rw [List.length_cons]
    omega
  within := by
    intro f hf p hp
    have := h.within f hf p hp
    rw [List.length_cons]
    omega
  leads := by
    intro htake p hp
    obtain ⟨hc, hcs⟩ := hparts htake
    exact (h.leads hcs p hp).cons hc
  parts := by
    intro htake hnil f hf
    obtain ⟨hc, hcs⟩ := hparts htake
    have hlength := h.length_le f hf
    have htake : f.length - length = f.length - (length + 1) + 1 := by omega
    rw [htake, List.take_succ_cons]
    exact List.forall_mem_cons.mpr ⟨hc, h.parts hcs hnil f hf⟩

end ReadsOn

theorem closingBracket?_lt {place depth : Nat} {mark : Option Char} {cs : List Char} {n : Nat}
    (h : closingBracket? place depth mark cs = some n) : n < place + cs.length := by
  fun_induction closingBracket? place depth mark cs <;> simp_all <;> omega

namespace Reads

variable {cs : List Char} {r : Except EvalError (Option Found)} {places : List Nat}

theorem of_name (h : ReadsOn 0 0 cs r places) : Reads cs r places where
  order := h.order
  behind p hp := Nat.le_of_lt (h.behind p hp)
  length_le f hf := by simpa using (h.length_le f hf).2
  within f hf p hp := by simpa using h.within f hf p hp
  leads p hp := (h.leads (by simp) p hp).cons (.inl rfl)
  leads_none _ := h.leads (by simp)
  parts hnil f hf := h.parts (by simp) hnil f hf

theorem of_inline {source : List Char} {n : Nat}
    (hn : closingBracket? 0 0 none source = some n) (hr : r ≠ .ok none)
    (hfound : ∀ f, r = .ok (some f) → f.length = n + 2) :
    Reads ('=' :: source) r [source.length + 1] where
  order := List.pairwise_singleton _ _
  behind := by simp
  length_le f hf := by
    have := closingBracket?_lt hn
    rw [hfound f hf, List.length_cons]
    omega
  within f _ p hp := by
    rw [List.mem_singleton.mp hp, List.length_cons]
    exact Nat.le_add_right _ _
  leads := by
    rintro p ⟨⟩
    have hinline : IsInline ('=' :: source) := ⟨source, rfl, by rw [hn]; rfl⟩
    exact ⟨[], '=' :: source, ⟨rfl, by simp, hinline⟩, rfl⟩
  leads_none h := absurd h hr
  parts := by simp

/-- A reference in the name is not found, or its expression fails. -/
theorem inner_stop {r' : Except EvalError (Option Found)} (h : Reads cs r places)
    {length : Nat} (hr : ∀ f, r' ≠ .ok (some f)) : ReadsOn length 0 ('[' :: cs) r' places where
  order := h.order
  behind := by
    intro p hp
    have := h.behind p hp
    rw [List.length_cons]
    omega
  length_le f hf := absurd hf (hr f)
  within f hf := absurd hf (hr f)
  leads _ := h.leads
  parts _ _ f hf := absurd hf (hr f)

/-- A reference in the name is found, and the reading goes on behind it. -/
theorem inner {f : Found} {more : List Nat} {length : Nat} (h : Reads cs (.ok (some f)) places)
    (hrest : ReadsOn (length + 1) f.length cs r more) :
    ReadsOn length 0 ('[' :: cs) r (places ++ more) := by
  have hlength := h.length_le f rfl
  have hwithin := h.within f rfl
  constructor
  case order =>
    refine List.pairwise_append.mpr ⟨h.order, hrest.order, fun p hp q hq => ?_⟩
    have := hwithin p hp
    have := hrest.behind q hq
    omega
  case behind =>
    intro p hp
    rw [List.length_cons]
    rcases List.mem_append.mp hp with hp | hp
    · have := h.behind p hp
      omega
    · have := hrest.behind p hp
      omega
  case length_le =>
    intro g hg
    have := hrest.length_le g hg
    rw [List.length_cons]
    omega
  case within =>
    intro g hg p hp
    rw [List.length_cons]
    rcases List.mem_append.mp hp with hp | hp
    · have := hwithin p hp
      have := hrest.length_le g hg
      omega
    · have := hrest.within g hg p hp
      omega
  case leads =>
    intro _ p hp
    cases places with
    | nil => exact (hrest.leads (h.parts rfl f rfl) p hp).cons (.inl rfl)
    | cons q places => exact h.leads p hp
  case parts =>
    intro _ hnil g hg
    obtain ⟨rfl, hmore⟩ := List.append_eq_nil_iff.mp hnil
    have := hrest.length_le g hg
    have htake : g.length - length = g.length - (length + 1) + 1 := by omega
    rw [htake, List.take_succ_cons]
    exact List.forall_mem_cons.mpr ⟨.inl rfl, hrest.parts (h.parts rfl f rfl) hmore g hg⟩

end Reads

variable (context : Context σ)

theorem findVariable_records (name : List Char) (length : Nat) :
    Records (fun r added => added = [] ∧ ∃ found, r = .ok found ∧ ∀ f ∈ found, f.length = length)
      (findVariable (context.beside (List ρ)) name length) := by
  unfold findVariable
  split
  next => exact .pure ⟨rfl, none, rfl, by simp⟩
  next =>
    refine (Records.lookup context _).bind (fun v before hbefore => ?_)
      (fun cause before hbefore => ?_)
    · obtain ⟨rfl, -⟩ := hbefore
      cases v with
      | none => exact .pure ⟨rfl, none, rfl, by simp⟩
      | some v => exact .pure ⟨rfl, some ⟨v, length⟩, rfl, by simp⟩
    · obtain ⟨-, v, hv⟩ := hbefore
      cases hv

theorem readName_records {inner : List Char → Eval (σ × List Nat) (Option Found)}
    (hinner : ∀ cs, Records (Reads cs) (inner cs)) (name : List Char) (length : Nat) {skip : Nat}
    {cs : List Char} (hskip : skip ≤ cs.length) :
    Records (ReadsOn length skip cs)
      (readName (context.beside (List Nat)) inner name length skip cs) := by
  induction cs generalizing name length skip with
  | nil =>
    cases Nat.le_zero.mp hskip
    exact .pure (.stop fun f hf => by cases hf)
  | cons c cs ih =>
    cases skip with
    | succ skip =>
      refine (ih name (length + 1) (Nat.le_of_succ_le_succ hskip)).mono fun r places h => ?_
      exact h.step (Nat.le_refl _) (fun htake => List.forall_mem_cons.mp htake)
    | zero =>
      unfold readName
      split
      next hc =>
        subst hc
        refine (findVariable_records context _ _).mono fun r places => ?_
        rintro ⟨rfl, found, rfl, hfound⟩
        refine .stop fun f hf => ⟨hfound f (by cases hf; rfl), cs, rfl⟩
      split
      next hc =>
        subst hc
        refine (hinner cs).bind (fun found places h => ?_) (fun cause places h => ?_)
        · cases found with
          | none =>
            refine .pure ?_
            rw [List.append_nil]
            exact h.inner_stop fun f hf => by cases hf
          | some f =>
            exact (ih _ (length + 1) (h.length_le f rfl)).mono fun r more hrest => h.inner hrest
        · exact h.inner_stop fun f hf => by cases hf
      split
      next hc =>
        refine (ih _ (length + 1) (Nat.zero_le _)).mono fun r places h => ?_
        exact h.step (Nat.zero_le _) (fun _ => ⟨.inr (.inr hc), by simp⟩)
      next => exact .pure (.stop fun f hf => by cases hf)

theorem readRecorded_inline (depth : Nat) (source : List Char) :
    Records (fun r places => (closingBracket? 0 0 none source = none ∧ places = [] ∧ r = .ok none) ∨
      ∃ n, closingBracket? 0 0 none source = some n ∧ places = [source.length + 1] ∧
        ∀ found, r = .ok found → ∃ f, found = some f ∧ f.length = n + 2)
      (readRecorded context (depth + 1) ('=' :: source)) := by
  rw [readRecorded, readInline]
  cases hn : closingBracket? 0 0 none source with
  | none => exact .pure (.inl ⟨rfl, rfl, rfl⟩)
  | some n =>
    have hnote : Records (fun r places => r = .ok () ∧ places = [source.length + 1])
        (modify fun w => (w.1, w.2 ++ [source.length + 1]) : Eval (σ × List Nat) Unit) :=
      fun w => ⟨_, rfl, rfl, rfl⟩
    simp only [Option.isSome_some, if_true]
    refine hnote.bind (fun _ before hbefore => ?_) (fun cause before hbefore => ?_)
    · obtain ⟨-, rfl⟩ := hbefore
      refine (Records.of_consults (.evalText _) context).bind (fun v before hbefore => ?_)
        (fun cause before hbefore => ?_)
      · subst hbefore
        exact .pure (.inr ⟨n, rfl, rfl,
          fun found hfound => ⟨⟨v, n + 2⟩, by cases hfound; rfl, rfl⟩⟩)
      · subst hbefore
        exact .inr ⟨n, rfl, rfl, fun found hfound => by cases hfound⟩
    · cases hbefore.1

theorem readRecorded_reads (depth : Nat) (cs : List Char) :
    Records (Reads cs) (readRecorded context depth cs) := by
  induction depth generalizing cs with
  | zero => exact .pure (.of_name (.stop nofun))
  | succ depth ih =>
    by_cases hcs : ∃ source, cs = '=' :: source
    · obtain ⟨source, rfl⟩ := hcs
      refine (readRecorded_inline context depth source).mono fun r places h => ?_
      rcases h with ⟨-, rfl, rfl⟩ | ⟨n, hn, rfl, hfound⟩
      · exact .of_name (.stop nofun)
      · refine .of_inline hn ?_ ?_
        · rintro rfl
          obtain ⟨f, hf, -⟩ := hfound none rfl
          cases hf
        · rintro f rfl
          obtain ⟨g, hg, hlength⟩ := hfound _ rfl
          cases hg
          exact hlength
    · rw [readRecorded]
      · exact (readName_records context ih _ _ (Nat.zero_le _)).mono fun _ _ => .of_name
      · exact fun source he => hcs ⟨source, he⟩

/-- A reading meets an expression first, or it ends before it without any and without failure. -/
def Meets (bound : Nat) (rest : List Char) (r : Except EvalError (Option Found))
    (places : List Nat) : Prop :=
  places.head? = some rest.length ∨
    places = [] ∧ ∃ found, r = .ok found ∧ ∀ f ∈ found, f.length ≤ bound

theorem Meets.of_head {bound : Nat} {rest : List Char} {r : Except EvalError (Option Found)}
    {places : List Nat} (h : places.head? = some rest.length) (more : List Nat) :
    Meets bound rest r (places ++ more) := by
  left
  rw [List.head?_append, h]
  rfl

theorem readName_meets {inner : List Char → Eval (σ × List Nat) (Option Found)}
    {rest : List Char} (hreads : ∀ cs, Records (Reads cs) (inner cs))
    (hinner : ∀ before, (∀ c ∈ before, IsPart c) →
      Records (Meets before.length rest) (inner (before ++ '[' :: rest)))
    (hfirst : Records (fun r places => places.head? = some rest.length ∨
      places = [] ∧ r = .ok none) (inner rest))
    {before : List Char} (hbefore : ∀ c ∈ before, IsPart c) (name : List Char) (length : Nat)
    {skip : Nat} (hskip : skip ≤ before.length) :
    Records (Meets (length + before.length) rest)
      (readName (context.beside (List Nat)) inner name length skip (before ++ '[' :: rest)) := by
  induction before generalizing name length skip with
  | nil =>
    cases Nat.le_zero.mp hskip
    rw [List.nil_append, readName, if_neg (by decide), if_pos rfl]
    refine (hfirst.and (hreads rest)).bind (fun found places h => ?_) (fun cause places h => ?_)
    · obtain ⟨hhead | ⟨rfl, hr⟩, hplaces⟩ := h
      · cases found with
        | none => exact .pure (.of_head hhead [])
        | some f =>
          exact (readName_records context hreads _ _ (hplaces.length_le f rfl)).mono
            fun _ more _ => .of_head hhead more
      · cases hr
        exact .pure (.inr ⟨rfl, none, rfl, by simp⟩)
    · obtain ⟨hhead | ⟨rfl, hr⟩, -⟩ := h
      · exact .inl hhead
      · cases hr
  | cons c before ih =>
    obtain ⟨hc, hbefore⟩ := List.forall_mem_cons.mp hbefore
    have hbound : length + (c :: before).length = length + 1 + before.length := by
      rw [List.length_cons]
      omega
    rw [hbound]
    cases skip with
    | succ skip => exact ih hbefore name (length + 1) (Nat.le_of_succ_le_succ hskip)
    | zero =>
      rw [List.cons_append]
      unfold readName
      split
      next =>
        refine (findVariable_records context _ _).mono fun r places => ?_
        rintro ⟨rfl, found, rfl, hfound⟩
        exact .inr ⟨rfl, found, rfl, fun f hf => by rw [hfound f hf]; omega⟩
      split
      next =>
        refine ((hinner before hbefore).and (hreads _)).bind (fun found places h => ?_)
          (fun cause places h => ?_)
        · obtain ⟨hhead | ⟨rfl, g, hg, hlength⟩, hplaces⟩ := h
          · cases found with
            | none => exact .pure (.of_head hhead [])
            | some f =>
              exact (readName_records context hreads _ _ (hplaces.length_le f rfl)).mono
                fun _ more _ => .of_head hhead more
          · cases hg
            cases found with
            | none => exact .pure (.inr ⟨rfl, none, rfl, by simp⟩)
            | some f => exact ih hbefore _ (length + 1) (hlength f rfl)
        · obtain ⟨hhead | ⟨rfl, g, hg, -⟩, -⟩ := h
          · exact .inl hhead
          · cases hg
      split
      next => exact ih hbefore _ (length + 1) (Nat.zero_le _)
      next => exact .pure (.inr ⟨rfl, none, rfl, by simp⟩)

theorem readRecorded_first (depth : Nat) {rest : List Char} (hrest : IsInline rest) :
    Records (fun r places => places.head? = some rest.length ∨
      depth = 0 ∧ places = [] ∧ r = .ok none) (readRecorded context depth rest) := by
  obtain ⟨source, rfl, hclosed⟩ := hrest
  cases depth with
  | zero => exact .pure (.inr ⟨rfl, rfl, rfl⟩)
  | succ depth =>
    refine (readRecorded_inline context depth source).mono fun r places h => ?_
    rcases h with ⟨hn, -⟩ | ⟨n, -, rfl, -⟩
    · rw [hn] at hclosed
      cases hclosed
    · exact .inl rfl

theorem readRecorded_meets (depth : Nat) {rest before : List Char} (hrest : IsInline rest)
    (hbefore : ∀ c ∈ before, IsPart c) :
    Records (Meets before.length rest) (readRecorded context depth (before ++ '[' :: rest)) := by
  induction depth generalizing before with
  | zero => exact .pure (.inr ⟨rfl, none, rfl, by simp⟩)
  | succ depth ih =>
    rw [readRecorded]
    · have hfirst := (readRecorded_first context depth hrest).mono fun _ _ h => h.imp id And.right
      have hmeets := readName_meets context (readRecorded_reads context depth) (fun _ => ih) hfirst
        hbefore [] 0 (Nat.zero_le _)
      rwa [Nat.zero_add] at hmeets
    · intro source he
      cases before with
      | nil => cases he
      | cons c before =>
        cases he
        exact (hbefore '=' List.mem_cons_self).ne.1 rfl

theorem probe_records {P : Except EvalError (Option Found) → List Nat → Prop}
    {m : Eval (σ × List Nat) (Option Found)} (h : Records P m) :
    Records (fun r probes => ∃ evaluated givenUp, probes = [⟨evaluated, givenUp⟩] ∧
      P r evaluated ∧ (givenUp = true ↔ r = .ok none)) (probe m) := by
  intro w
  obtain ⟨added, hadded, hr⟩ := h (w.1, [])
  rw [List.nil_append] at hadded
  subst hadded
  refine ⟨_, rfl, _, _, rfl, hr, ?_⟩
  split
  next heq => exact ⟨fun _ => heq, fun _ => rfl⟩
  next hne => exact ⟨nofun, fun heq => absurd heq hne⟩

end TrialLoop
