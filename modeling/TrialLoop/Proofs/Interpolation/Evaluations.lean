import TrialLoop.Proofs.Interpolation.Recorded
import Mathlib

namespace TrialLoop

/-- The inline expressions that are evaluated in some probes, in their order. -/
def placesOf (probes : List Probe) : List Nat :=
  probes.flatMap Probe.evaluated

theorem placesOf_cons (p : Probe) (ps : List Probe) :
    placesOf (p :: ps) = p.evaluated ++ placesOf ps := rfl

/-- No expression was evaluated for a bracket that is given up then. -/
def NoneWasted (probes : List Probe) : Prop :=
  ∀ p ∈ probes, p.givenUp = true → p.evaluated = []

/-- What the probes for the references of a text evaluate, of which some characters are skipped. -/
structure FillsIn (skip : Nat) (cs : List Char) (probes : List Probe) : Prop where
  behind : ∀ p ∈ placesOf probes, p + skip < cs.length
  order : NoneWasted probes → (placesOf probes).Pairwise (· > ·)
  noneWasted : (placesOf probes).Nodup → NoneWasted probes
  count_le : ∀ p, (placesOf probes).count p ≤ (cs.take (cs.length - p)).count '['
  first : ∀ before rest, FirstInline cs before rest → skip ≤ before.length →
    (placesOf probes).head? = some rest.length
  nested : ∀ p ∈ probes, p.givenUp = true → ∀ q ∈ p.evaluated.head?,
    ∃ start tail, cs = start ++ '[' :: tail ∧ LeadsTo tail q

namespace FillsIn

variable {skip : Nat} {c : Char} {cs : List Char} {probes : List Probe}

/-- Nothing is left to fill in. -/
theorem done (cs : List Char) : FillsIn cs.length cs [] where
  behind := nofun
  order _ := .nil
  noneWasted _ := nofun
  count_le := by simp [placesOf]
  first := by
    intro before rest hleads hskip
    have hlength := congrArg List.length hleads.text
    rw [List.length_append, List.length_cons] at hlength
    omega
  nested := nofun

/-- A character is skipped or stands for itself. -/
theorem step {skip' : Nat} (h : FillsIn skip cs probes) (hskip : skip' ≤ skip + 1)
    (hopen : skip' = 0 → c ≠ '[') (hpart : IsPart c → skip ≤ skip' - 1) :
    FillsIn skip' (c :: cs) probes where
  behind := by
    intro p hp
    have := h.behind p hp
    rw [List.length_cons]
    omega
  order := h.order
  noneWasted := h.noneWasted
  count_le := by
    intro p
    refine (h.count_le p).trans ?_
    rw [List.length_cons]
    rcases Nat.lt_or_ge cs.length p with hp | hp
    · simp [Nat.sub_eq_zero_of_le (Nat.le_of_lt hp)]
    · rw [Nat.succ_sub hp, List.take_succ_cons]
      exact List.count_le_count_cons
  first := by
    rintro (_ | ⟨d, before⟩) rest ⟨htext, hparts, hrest⟩ hlength
    · cases htext
      exact absurd rfl (hopen (Nat.le_zero.mp hlength))
    · cases htext
      obtain ⟨hc, hparts⟩ := List.forall_mem_cons.mp hparts
      have := hpart hc
      rw [List.length_cons] at hlength
      exact h.first before rest ⟨rfl, hparts, hrest⟩ (by omega)
  nested := by
    intro p hp hgiven q hq
    obtain ⟨start, tail, rfl, hleads⟩ := h.nested p hp hgiven q hq
    exact ⟨c :: start, tail, rfl, hleads⟩

section

variable {places : List Nat} {r : Except EvalError (Option Found)}

theorem behind_open (h : FillsIn skip cs probes) (hreads : Reads cs r places) :
    ∀ p ∈ places ++ placesOf probes, p < ('[' :: cs).length := by
  intro p hp
  rw [List.length_cons]
  rcases List.mem_append.mp hp with hp | hp
  · exact Nat.lt_succ_of_le (hreads.behind p hp)
  · have := h.behind p hp
    omega

theorem count_open (h : FillsIn skip cs probes) (hreads : Reads cs r places) (p : Nat) :
    (places ++ placesOf probes).count p ≤
      (('[' :: cs).take (('[' :: cs).length - p)).count '[' := by
  have hrest := h.count_le p
  rw [List.count_append, List.length_cons]
  rcases Nat.lt_or_ge cs.length p with hp | hp
  · have hout : p ∉ places := fun hmem => absurd (hreads.behind p hmem) (Nat.not_le.mpr hp)
    rw [Nat.sub_eq_zero_of_le (Nat.le_of_lt hp), List.take_zero, List.count_nil] at hrest
    rw [List.count_eq_zero_of_not_mem hout, Nat.zero_add]
    exact hrest.trans (Nat.zero_le _)
  · have hone := List.nodup_iff_count_le_one.mp (hreads.order.imp fun h => Nat.ne_of_gt h) p
    rw [Nat.succ_sub hp, List.take_succ_cons, List.count_cons_self]
    omega

theorem first_open (h : FillsIn skip cs probes)
    (hinline : IsInline cs → places.head? = some cs.length)
    (hmeets : ∀ before rest, FirstInline cs before rest →
      places.head? = some rest.length ∨ places = [] ∧ skip ≤ before.length) :
    ∀ before rest, FirstInline ('[' :: cs) before rest →
      (places ++ placesOf probes).head? = some rest.length := by
  rintro before rest ⟨htext, hparts, hrest⟩
  rw [List.head?_append]
  cases before with
  | nil =>
    cases htext
    rw [hinline hrest]
    rfl
  | cons d before =>
    cases htext
    have hleads : FirstInline (before ++ '[' :: rest) before rest :=
      ⟨rfl, (List.forall_mem_cons.mp hparts).2, hrest⟩
    rcases hmeets before rest hleads with hhead | ⟨rfl, hskip⟩
    · rw [hhead]
      rfl
    · exact h.first before rest hleads hskip

theorem nested_open (h : FillsIn skip cs probes) :
    ∀ p ∈ probes, p.givenUp = true → ∀ q ∈ p.evaluated.head?,
      ∃ start tail, '[' :: cs = start ++ '[' :: tail ∧ LeadsTo tail q := by
  intro p hp hgiven q hq
  obtain ⟨start, tail, rfl, hleads⟩ := h.nested p hp hgiven q hq
  exact ⟨'[' :: start, tail, rfl, hleads⟩

/-- Everything that is evaluated later is behind what was evaluated for a bracket. -/
theorem kept (h : FillsIn skip cs probes) (hreads : Reads cs r places)
    (hafter : ∀ p ∈ places, ∀ q ∈ placesOf probes, q < p)
    (hinline : IsInline cs → places.head? = some cs.length)
    (hmeets : ∀ before rest, FirstInline cs before rest →
      places.head? = some rest.length ∨ places = [] ∧ skip ≤ before.length) :
    FillsIn 0 ('[' :: cs) (⟨places, false⟩ :: probes) where
  behind := h.behind_open hreads
  order hwasted := List.pairwise_append.mpr
    ⟨hreads.order, h.order (List.forall_mem_cons.mp hwasted).2, hafter⟩
  noneWasted hnodup := List.forall_mem_cons.mpr
    ⟨nofun, h.noneWasted (List.nodup_append.mp hnodup).2.1⟩
  count_le := h.count_open hreads
  first before rest hleads _ := h.first_open hinline hmeets before rest hleads
  nested := List.forall_mem_cons.mpr ⟨nofun, h.nested_open⟩

/-- The first expression that was evaluated for a bracket is evaluated again if it is given up. -/
theorem givenUp (h : FillsIn 0 cs probes) (hreads : Reads cs (.ok none) places)
    (hinline : IsInline cs → places.head? = some cs.length)
    (hmeets : ∀ before rest, FirstInline cs before rest →
      places.head? = some rest.length ∨ places = []) :
    FillsIn 0 ('[' :: cs) (⟨places, true⟩ :: probes) where
  behind := h.behind_open hreads
  order := by
    intro hwasted
    obtain ⟨hnil, hwasted⟩ := List.forall_mem_cons.mp hwasted
    rw [placesOf_cons, show places = [] from hnil rfl]
    exact h.order hwasted
  noneWasted := by
    intro hnodup
    obtain ⟨-, hnodup, hdisjoint⟩ := List.nodup_append.mp hnodup
    refine List.forall_mem_cons.mpr ⟨fun _ => ?_, h.noneWasted hnodup⟩
    cases places with
    | nil => rfl
    | cons p places =>
      obtain ⟨before, rest, hleads, rfl⟩ := hreads.leads_none rfl p rfl
      have hagain := List.mem_of_head? (h.first before rest hleads (Nat.zero_le _))
      exact absurd rfl (hdisjoint _ List.mem_cons_self _ hagain)
  count_le := h.count_open hreads
  first before rest hleads _ := h.first_open hinline
    (fun before rest hleads => (hmeets before rest hleads).imp id (⟨·, Nat.zero_le _⟩))
    before rest hleads
  nested := List.forall_mem_cons.mpr
    ⟨fun _ q hq => ⟨[], cs, rfl, hreads.leads_none rfl q hq⟩, h.nested_open⟩

end

end FillsIn

/-- What the reading at a bracket of a text finds and evaluates, and which expression it meets. -/
structure ReadsFirst (cs : List Char) (r : Except EvalError (Option Found)) (places : List Nat) :
    Prop where
  reads : Reads cs r places
  inline : IsInline cs → places.head? = some cs.length
  meets : ∀ before rest, FirstInline cs before rest → Meets before.length rest r places

section

variable {σ α : Type} (context : Context σ)

theorem readRecorded_readsFirst (cs : List Char) :
    Records (ReadsFirst cs) (readRecorded context maxReferences cs) := by
  intro w
  obtain ⟨places, hplaces, hreads⟩ := readRecorded_reads context maxReferences cs w
  refine ⟨places, hplaces, hreads, fun hinline => ?_, fun before rest hleads => ?_⟩
  · exact ((readRecorded_first context _ hinline).of_added hplaces).resolve_right nofun
  · obtain ⟨rfl, hparts, hrest⟩ := hleads
    exact (readRecorded_meets context _ hrest hparts).of_added hplaces

/-- The text is filled in behind a bracket, or with the bracket itself if it is given up. -/
theorem probe_fills {cs : List Char} {f : Option Found → Eval (σ × List Probe) α}
    (hnone : Records (fun _ probes => FillsIn 0 cs probes) (f none))
    (hfound : ∀ found, found.length ≤ cs.length →
      Records (fun _ probes => FillsIn found.length cs probes) (f (some found))) :
    Records (fun _ probes => FillsIn 0 ('[' :: cs) probes)
      (probe (readRecorded context maxReferences cs) >>= f) := by
  refine (probe_records (readRecorded_readsFirst context cs)).bind (fun found before h => ?_)
    (fun cause before h => ?_)
  · obtain ⟨places, givenUp, rfl, ⟨hreads, hinline, hmeets⟩, hgiven⟩ := h
    cases found with
    | none =>
      obtain rfl : givenUp = true := hgiven.mpr rfl
      exact hnone.mono fun _ _ h => h.givenUp hreads hinline fun before rest hleads =>
        (hmeets before rest hleads).imp id And.left
    | some found =>
      obtain rfl : givenUp = false := by simpa using hgiven
      refine (hfound found (hreads.length_le found rfl)).mono fun _ probes h => ?_
      refine h.kept hreads (fun p hp q hq => ?_) hinline fun before rest hleads => ?_
      · have := hreads.within found rfl p hp
        have := h.behind q hq
        omega
      · refine (hmeets before rest hleads).imp id ?_
        rintro ⟨hnil, g, hg, hlength⟩
        cases hg
        exact ⟨hnil, hlength found rfl⟩
  · obtain ⟨places, givenUp, rfl, ⟨hreads, hinline, hmeets⟩, hgiven⟩ := h
    obtain rfl : givenUp = false := by simpa using hgiven
    refine (FillsIn.done cs).kept hreads (fun _ _ _ => nofun) hinline fun before rest hleads => ?_
    refine .inl ((hmeets before rest hleads).resolve_right ?_)
    rintro ⟨-, g, hg, -⟩
    cases hg

theorem fillRecorded_fills (out : List Char) {skip : Nat} {cs : List Char}
    (hskip : skip ≤ cs.length) :
    Records (fun _ probes => FillsIn skip cs probes) (fillRecorded context out skip cs) := by
  induction cs generalizing out skip with
  | nil =>
    cases Nat.le_zero.mp hskip
    exact .pure (.done [])
  | cons c cs ih =>
    cases skip with
    | succ skip =>
      exact (ih out (Nat.le_of_succ_le_succ hskip)).mono fun _ _ h =>
        h.step (Nat.le_refl _) nofun fun _ => Nat.le_refl _
    | zero =>
      unfold fillRecorded
      split
      next hc =>
        obtain ⟨rfl, hfollows⟩ := hc
        have hlength : 1 ≤ cs.length := by
          cases cs with
          | nil => cases hfollows
          | cons => exact Nat.succ_le_succ (Nat.zero_le _)
        exact (ih _ hlength).mono fun _ _ h =>
          h.step (Nat.zero_le _) (fun _ => by decide) fun hpart => absurd rfl hpart.ne.2
      split
      next hc =>
        subst hc
        exact probe_fills context (ih _ (Nat.zero_le _)) fun _ => ih _
      next hc =>
        exact (ih _ (Nat.zero_le _)).mono fun _ _ h =>
          h.step (Nat.zero_le _) (fun _ => hc) fun _ => Nat.zero_le _

theorem interpolateRecorded_fills (text : String) :
    Records (fun _ probes => FillsIn 0 text.toList probes) (interpolateRecorded context text) := by
  have hfilled {out : List Char} {skip : Nat} {cs : List Char} (hskip : skip ≤ cs.length) :
      Records (fun _ probes => FillsIn skip cs probes)
        (do return Value.str (← fillRecorded context out skip cs)) := by
    refine (fillRecorded_fills context out hskip).bind (fun _ probes h => .pure ?_)
      fun _ _ h => h
    rwa [List.append_nil]
  unfold interpolateRecorded
  split
  next cs hcs =>
    rw [hcs]
    refine probe_fills context (hfilled (Nat.zero_le _)) fun found hlength => ?_
    dsimp only
    split
    next hall =>
      rw [hall]
      exact .pure (.done cs)
    next => exact hfilled hlength
  next => exact hfilled (Nat.zero_le _)

theorem probes_fills (text : String) (s : σ) :
    FillsIn 0 text.toList (probes context text s) := by
  obtain ⟨added, hadded, hfills⟩ := interpolateRecorded_fills context text (s, [])
  rw [probes, hadded]
  exact hfills

/--
The interpolation of a text evaluates each inline expression at most once exactly if no expression
is evaluated for a bracket that turns out to be none of a reference. Each expression is evaluated
at most once for every opening bracket up to its own.
-/
theorem evaluations_nodup_iff (text : String) (s : σ) :
    ((evaluations context text s).Nodup ↔ NoneWasted (probes context text s)) ∧
      ∀ p, (evaluations context text s).count p ≤
        (text.toList.take (text.toList.length - p)).count '[' := by
  have hfills := probes_fills context text s
  refine ⟨⟨hfills.noneWasted, fun hwasted => ?_⟩, hfills.count_le⟩
  exact (hfills.order hwasted).imp fun h => Nat.ne_of_gt h

/-- A context without variables, whose functions say how often one was called. -/
def callCounter : Context Nat where
  lookup _ := return none
  call _ _ := fun n => (.ok (.int (.ofNat (n + 1))), n + 1)

set_option maxRecDepth 4000 in
/--
The outer bracket is none of a reference because of the space in it, and the expression inside is
evaluated once for it and once for itself. What is shown is the second value.
-/
theorem evaluated_for_lost_bracket :
    evaluations callCounter "[[=f()] ]" 0 = [7, 7] ∧
      (interpolate callCounter "[[=f()] ]").run 0 = (.ok (.str "[2 ]"), 2) := by
  constructor <;> cbv

/-- No inline expression of a text stands in the name of a reference. -/
def NoneNested (cs : List Char) : Prop :=
  ∀ start tail place, cs = start ++ '[' :: tail → ¬LeadsTo tail place

theorem evaluations_nodup_of_noneNested {text : String} (h : NoneNested text.toList) (s : σ) :
    (evaluations context text s).Nodup := by
  refine (evaluations_nodup_iff context text s).1.mpr fun p hp hgiven => ?_
  cases hevaluated : p.evaluated with
  | nil => rfl
  | cons q places =>
    obtain ⟨start, tail, htext, hleads⟩ :=
      (probes_fills context text s).nested p hp hgiven q (by rw [hevaluated]; rfl)
    exact absurd hleads (h start tail q htext)

end

end TrialLoop
