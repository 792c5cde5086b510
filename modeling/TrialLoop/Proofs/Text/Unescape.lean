import TrialLoop.Proofs.Text.Blank
import TrialLoop.Proofs.Text.Quoted

namespace TrialLoop

variable {mark : Char}

theorem quoteMark_visible (hmark : isQuoteMark mark = true) : isBlank mark = false := by
  rcases Bool.or_eq_true_iff.mp hmark with h | h
  · exact eq_of_beq h ▸ by decide
  · exact eq_of_beq h ▸ by decide

theorem quoteMark_ne_slash (hmark : isQuoteMark mark = true) : mark ≠ '\\' := by
  rintro rfl
  exact absurd hmark (by decide)

theorem quoteMark_ne {c : Char} (hmark : isQuoteMark mark = true) (hc : isBlank c = true) :
    c ≠ '\\' ∧ c ≠ mark := by
  constructor
  · rintro rfl
    exact absurd hc (by decide)
  · rintro rfl
    exact absurd hc (by simp [quoteMark_visible hmark])

theorem blank_of_unescapeMark (hmark : isQuoteMark mark = true) {w : List Char}
    (h : ∀ c ∈ unescapeMark mark w, isBlank c = true) : ∀ c ∈ w, isBlank c = true := by
  revert h
  fun_induction unescapeMark mark w with
  | case1 d w hd ih =>
    intro h
    have hne := quoteMark_ne hmark (h d (by simp))
    exact absurd hd (not_or.mpr hne)
  | case2 d w hd ih =>
    intro h
    exact absurd (h '\\' (by simp)) (by decide)
  | case3 d w hd ih =>
    intro h
    have hw := ih fun c hc => h c (List.mem_cons_of_mem d hc)
    exact List.forall_mem_cons.mpr ⟨h d (by simp), hw⟩
  | case4 => simp

/-- A run without blanks and the rest after it are unescaped apart from each other. -/
theorem unescapeMark_run (hmark : isQuoteMark mark = true) (w : List Char) {rest : List Char}
    (hrest : ∀ c ∈ rest.head?, isBlank c = true) :
    unescapeMark mark (w ++ rest) = unescapeMark mark w ++ unescapeMark mark rest ∧
      ∀ c ∈ (unescapeMark mark rest).head?, isBlank c = true := by
  cases rest with
  | nil => simp [unescapeMark]
  | cons b rest =>
    have hb : isBlank b = true := hrest b rfl
    obtain ⟨hs, hm⟩ := quoteMark_ne hmark hb
    rw [unescapeMark_append hs hm, unescapeMark_cons hs]
    refine ⟨rfl, ?_⟩
    intro c hc
    exact Option.some.inj hc ▸ hb

theorem unescapeMark_blanks (hmark : isQuoteMark mark = true) {w : List Char}
    (h : ∀ c ∈ w, isBlank c = true) (rest : List Char) :
    unescapeMark mark (w ++ rest) = w ++ unescapeMark mark rest := by
  induction w with
  | nil => rfl
  | cons c w ih =>
    have hc := (quoteMark_ne hmark (h c (by simp))).1
    rw [List.cons_append, unescapeMark_cons hc, ih fun d hd => h d (by simp [hd])]
    rfl

/-- Characters that are no blanks, and at least one. -/
structure IsRun (w : List Char) : Prop where
  ne : w ≠ []
  visible : ∀ c ∈ w, isBlank c = false

theorem IsRun.unescape {w : List Char} (h : IsRun w) : IsRun (unescapeMark mark w) :=
  ⟨fun he => h.ne (unescapeMark_eq_nil he), fun c hc => h.visible c (mem_unescapeMark hc)⟩

theorem IsRun.head {w : List Char} (h : IsRun w) (rest : List Char) :
    ∀ c ∈ (w ++ rest).head?, isBlank c = false := by
  obtain ⟨c, cs, rfl⟩ := List.exists_cons_of_ne_nil h.ne
  intro d hd
  exact Option.some.inj hd ▸ h.visible c (by simp)

theorem visible_run_unique {w w' rest rest' : List Char} (h : w ++ rest = w' ++ rest')
    (hw : ∀ c ∈ w, isBlank c = false) (hw' : ∀ c ∈ w', isBlank c = false)
    (hr : ∀ c ∈ rest.head?, isBlank c = true) (hr' : ∀ c ∈ rest'.head?, isBlank c = true) :
    w = w' ∧ rest = rest' :=
  run_unique (p := fun c => !isBlank c) h (by simpa using hw) (by simpa using hw')
    (by simpa using hr) (by simpa using hr')

theorem head_of_unescaped {c : Char} (hc : c ≠ '\\') {w run : List Char}
    (h : unescapeMark mark (c :: w) = run) : run.head? = some c ∧ (run = [c] → w = []) := by
  rw [unescapeMark_cons hc] at h
  subst h
  refine ⟨rfl, ?_⟩
  intro he
  exact unescapeMark_eq_nil (List.cons.inj he).2

/-- What stands for a run and blanks is a run, which begins in the same way, and blanks. -/
theorem head_of_unescaped_run (hmark : isQuoteMark mark = true) {run blanks more : List Char}
    (hrun : IsRun run) (hblanks : ∀ c ∈ blanks, isBlank c = true)
    (hmore : ∀ c ∈ more.head?, isBlank c = false ∧ c ≠ '\\')
    (h : unescapeMark mark more = run ++ blanks) :
    ∃ c y tail, more = c :: y ++ tail ∧ (∀ d ∈ tail, isBlank d = true) ∧ run.head? = some c ∧
      (run = [c] → y = []) := by
  obtain ⟨y, tail, rfl, hy, htail⟩ := exists_run (fun c => !isBlank c) more
  simp only [Bool.not_eq_true', Bool.not_eq_false'] at hy htail
  obtain ⟨hsplit, hhead⟩ := unescapeMark_run hmark y htail
  obtain ⟨hrun', htail'⟩ := visible_run_unique (hsplit.symm.trans h)
    (fun c hc => hy c (mem_unescapeMark hc)) hrun.visible hhead
    fun c hc => hblanks c (List.mem_of_mem_head? hc)
  cases y with
  | nil => exact absurd hrun'.symm hrun.ne
  | cons c y =>
    obtain ⟨hc, hy'⟩ := head_of_unescaped (hmore c rfl).2 hrun'
    exact ⟨c, y, tail, rfl, blank_of_unescapeMark hmark (htail' ▸ hblanks), hc, hy'⟩

/--
A text that unescaping moves along, behind blanks and a run: what stands after it begins as the run
does, and is no longer than the run if that is one character.
-/
theorem head_of_moved (hmark : isQuoteMark mark = true) {b : Char} (hb : isBlank b = true)
    {before run s more : List Char} (hbefore : ∀ c ∈ before, isBlank c = true) (hrun : IsRun run)
    (hmore : ∀ c ∈ more.head?, isBlank c = false ∧ c ≠ '\\')
    (h : unescapeMark mark (s ++ b :: more) = before ++ (run ++ s)) :
    ∃ c y tail, more = c :: y ++ tail ∧ (∀ d ∈ tail, isBlank d = true) ∧ run.head? = some c ∧
      (run = [c] → y = []) := by
  induction hn : s.length using Nat.strongRecOn generalizing before run s with
  | _ n ih =>
  obtain ⟨blanks, s', rfl, hblanks, hs'⟩ := exists_run isBlank s
  obtain ⟨next, s'', rfl, hnext, hs''⟩ := exists_run (fun c => !isBlank c) s'
  simp only [Bool.not_eq_true', Bool.not_eq_false'] at hnext hs''
  have hsplit : blanks ++ unescapeMark mark (next ++ (s'' ++ b :: more)) =
      before ++ (run ++ (blanks ++ (next ++ s''))) := by
    rw [← h, ← unescapeMark_blanks hmark hblanks]
    simp
  by_cases hne : next = []
  · -- The text is blank, and the run stands for what follows the blank after it.
    obtain rfl : s'' = [] := by
      cases s'' with
      | nil => rfl
      | cons c s'' => exact absurd (hs'' c rfl) (by simp [hs' c (by simp [hne])])
    have hmore' : ∀ c ∈ (unescapeMark mark more).head?, isBlank c = false := by
      cases more with
      | nil => simp [unescapeMark]
      | cons c more =>
        rw [unescapeMark_cons (hmore c rfl).2]
        intro d hd
        exact Option.some.inj hd ▸ (hmore c rfl).1
    have hlast : (blanks ++ [b]) ++ unescapeMark mark more = before ++ (run ++ blanks) := by
      simpa [hne, unescapeMark_cons (quoteMark_ne hmark hb).1] using hsplit
    have hafter := (run_unique hlast (by simpa [or_imp, forall_and, hb] using hblanks) hbefore
      hmore' (hrun.head _)).2
    exact head_of_unescaped_run hmark hrun hblanks hmore hafter
  · -- The run stands for the first run of the text, which stands for the next one.
    have hnext' : IsRun next := ⟨hne, hnext⟩
    have hrest : ∀ c ∈ (s'' ++ b :: more).head?, isBlank c = true := by
      cases s'' with
      | nil => simpa using hb
      | cons c s'' => exact fun d hd => hs'' d hd
    obtain ⟨hapart, hhead⟩ := unescapeMark_run hmark next hrest
    rw [hapart] at hsplit
    have hafter := (run_unique hsplit hblanks hbefore (hnext'.unescape.head _) (hrun.head _)).2
    have hvisible : ∀ c ∈ unescapeMark mark next, isBlank c = false := hnext'.unescape.visible
    by_cases hb' : blanks = []
    · have hjoined : unescapeMark mark next ++ unescapeMark mark (s'' ++ b :: more) =
          (run ++ next) ++ s'' := by
        simpa [hb'] using hafter
      have hlong := congrArg List.length (visible_run_unique hjoined hvisible
        (List.forall_mem_append.mpr ⟨hrun.visible, hnext⟩) hhead hs'').1
      have hle := length_unescapeMark_le mark next
      have hpos := List.length_pos_iff.mpr hrun.ne
      simp only [List.length_append] at hlong
      omega
    · have hblank : ∀ c ∈ (blanks ++ (next ++ s'')).head?, isBlank c = true := by
        obtain ⟨d, ds, rfl⟩ := List.exists_cons_of_ne_nil hb'
        intro c hc
        exact Option.some.inj hc ▸ hblanks d (by simp)
      obtain ⟨hrun', hmoved⟩ := visible_run_unique hafter hvisible hrun.visible hhead hblank
      have hlen : s''.length < n := by
        have := List.length_pos_iff.mpr hne
        simp only [List.length_append] at hn
        omega
      obtain ⟨c, y, tail, rfl, htail, hc, hy⟩ := ih _ hlen hblanks hnext' hmoved rfl
      obtain ⟨next, rfl⟩ := List.head?_eq_some_iff.mp hc
      obtain ⟨hc', hnil⟩ := head_of_unescaped (hmore c rfl).2 hrun'
      exact ⟨c, y, tail, rfl, htail, hc', fun he => hy (by rw [hnil he])⟩

end TrialLoop
