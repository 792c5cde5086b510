import TrialLoop.Proofs.Command.Words

namespace TrialLoop

variable {mark : Char} {ws others : List (List Char)}

/-- A quoted word that ends among others: it ends where the first of them does. -/
theorem length_words_after_quoted (hmark : isQuoteMark mark = true)
    (hothers : ∀ w ∈ others, w ≠ [] ∧ GoesOn [] w)
    (hheads : ∀ w ∈ others, ∀ c ∈ w.head?, isBlank c = false ∧ c ≠ '\\')
    {before name y rest : List Char} (hbefore : ∀ c ∈ before, isBlank c = true) (hy : y ≠ [])
    (hname : unescapeMark mark (name ++ y) = before ++ mark :: name)
    (htext : others.flatMap (' ' :: ·) = y ++ mark :: rest)
    (hrest : ∀ c, rest.head? = some c → isBlank c = true)
    (hws : wordsFrom none [] rest = some ws) : ws.length < others.length := by
  cases others with
  | nil => simp at htext
  | cons first others =>
    obtain ⟨b, more, rfl⟩ := List.exists_cons_of_ne_nil hy
    obtain ⟨rfl, hmore⟩ : ' ' = b ∧ first ++ others.flatMap (' ' :: ·) = more ++ mark :: rest := by
      simpa using htext
    have hhead : ∀ c ∈ more.head?, isBlank c = false ∧ c ≠ '\\' := by
      intro c hc
      obtain ⟨d, first, rfl⟩ := List.exists_cons_of_ne_nil (hothers first (by simp)).1
      obtain ⟨more, rfl⟩ := List.head?_eq_some_iff.mp hc
      exact (List.cons.inj hmore).1 ▸ hheads _ List.mem_cons_self d rfl
    have hrun : IsRun [mark] := ⟨by simp, by simpa using quoteMark_visible hmark⟩
    obtain ⟨c, y, tail, rfl, htail, hc, hnil⟩ :=
      head_of_moved hmark (by decide) hbefore hrun hhead hname
    obtain rfl : mark = c := by simpa using hc
    obtain rfl : y = [] := hnil rfl
    have hfirst : first ++ others.flatMap (' ' :: ·) = (mark :: tail ++ [mark]) ++ rest := by
      simpa using hmore
    have hline := wordsFrom_line hothers
    rw [hfirst, wordsFrom_goesOn (by simp) (goesOn_quotedBlanks hmark htail) hrest, hws] at hline
    have hothers' : ws = others := by simpa using (List.cons.inj (Option.some.inj hline)).2
    simp [hothers']

/--
A line whose first word is the quoted form of what the line starts with: the word takes in at least
one of the words that follow, so that fewer are left.
-/
theorem length_words_of_quoted (hmark : isQuoteMark mark = true)
    (hothers : ∀ w ∈ others, w ≠ [] ∧ GoesOn [] w)
    (hheads : ∀ w ∈ others, ∀ c ∈ w.head?, isBlank c = false ∧ c ≠ '\\') {inner : List Char}
    (h : wordsFrom none [] (unescapeMark mark inner ++ others.flatMap (' ' :: ·)) =
      some ((mark :: inner ++ [mark]) :: ws)) : ws.length < others.length := by
  obtain ⟨before, name, hname, hbefore, hhead⟩ := exists_run isBlank (unescapeMark mark inner)
  cases name with
  | nil =>
    -- The first word is one of those that follow.
    rw [hname, List.append_nil, wordsFrom_blanks hbefore, wordsFrom_words hothers] at h
    simp [Option.some.inj h]
  | cons c name =>
    obtain ⟨before', rest, hw, hws⟩ := wordsFrom_first h
    have htext : before ++ c :: (name ++ others.flatMap (' ' :: ·)) =
        before' ++ mark :: (inner ++ mark :: rest) := by
      simpa [hname] using hw.text
    obtain ⟨rfl, hafter⟩ := run_unique htext hbefore hw.before
      (fun d hd => hhead d hd) fun d hd => Option.some.inj hd ▸ quoteMark_visible hmark
    obtain ⟨rfl, hafter⟩ := List.cons.inj hafter
    have hlen := length_unescapeMark_le c inner
    rw [hname, List.length_append, List.length_cons] at hlen
    rcases List.append_eq_append_iff.mp hafter with ⟨y, rfl, hy⟩ | ⟨y, rfl, -⟩
    · have hne : y ≠ [] := by
        rintro rfl
        simp only [List.append_nil] at hlen
        omega
      exact length_words_after_quoted hmark hothers hheads hbefore hne hname hy hw.rest hws
    · simp only [List.length_append] at hlen
      omega

end TrialLoop
