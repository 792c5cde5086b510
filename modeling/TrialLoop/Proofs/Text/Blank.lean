import TrialLoop.Text.Blank
import TrialLoop.Text.Letter

namespace TrialLoop

theorem isAlpha_iff_toNat {c : Char} : c.isAlpha = true ↔
    (65 ≤ c.toNat ∧ c.toNat ≤ 90) ∨ (97 ≤ c.toNat ∧ c.toNat ≤ 122) := by
  show (decide ('A'.val ≤ c.val ∧ c.val ≤ 'Z'.val) ||
    (decide ('a'.val ≤ c.val) && decide (c.val ≤ 'z'.val))) = true ↔ _
  simp only [Bool.or_eq_true, Bool.and_eq_true, decide_eq_true_eq, UInt32.le_iff_toNat_le,
    Char.toNat_val, Char.reduceToNat]

theorem isAlphanum_iff_toNat {c : Char} : c.isAlphanum = true ↔
    (65 ≤ c.toNat ∧ c.toNat ≤ 90) ∨ (97 ≤ c.toNat ∧ c.toNat ≤ 122) ∨
      (48 ≤ c.toNat ∧ c.toNat ≤ 57) := by
  simp only [Char.isAlphanum, Bool.or_eq_true, isAlpha_iff_toNat, Char.isDigit_iff_toNat,
    Char.reduceToNat, or_assoc]

theorem forall_mem_of_all {P : Char → Prop} [DecidablePred P] {cs : List Char}
    (h : (cs.all fun c => decide (P c)) = true) : ∀ c ∈ cs, P c := by
  simpa using h

theorem not_digit_of_alpha {c : Char} (h : c.isAlpha = true) : c.isDigit = false := by
  have hd : ¬c.isDigit = true := by
    rw [isAlpha_iff_toNat] at h
    simp only [Char.isDigit_iff_toNat, Char.reduceToNat]
    omega
  exact (Bool.not_eq_true _).mp hd

/-- The characters of ASCII that are seen are no blanks. -/
theorem not_blank_of_visible {c : Char} (h : 33 ≤ c.toNat) (h' : c.toNat ≤ 126) :
    isBlank c = false := by
  simp only [isBlank, Bool.or_eq_false_iff, Bool.and_eq_false_iff, decide_eq_false_iff_not,
    beq_eq_false_iff_ne]
  omega

theorem not_blank_of_alphanum {c : Char} (h : c.isAlphanum = true) : isBlank c = false := by
  have hc := isAlphanum_iff_toNat.mp h
  exact not_blank_of_visible (by omega) (by omega)

theorem not_blank_of_digit {c : Char} (h : c.isDigit = true) : isBlank c = false :=
  not_blank_of_alphanum (by simp [Char.isAlphanum, h])

/-- The numbers of the blanks. -/
def blankNumbers : List Nat :=
  [0x9, 0xA, 0xB, 0xC, 0xD, 0x20, 0x85, 0xA0, 0x1680, 0x2000, 0x2001, 0x2002, 0x2003, 0x2004,
    0x2005, 0x2006, 0x2007, 0x2008, 0x2009, 0x200A, 0x2028, 0x2029, 0x202F, 0x205F, 0x3000]

theorem isBlank_mem {c : Char} (h : isBlank c = true) : c.toNat ∈ blankNumbers := by
  simp only [isBlank, Bool.or_eq_true, Bool.and_eq_true, decide_eq_true_eq, beq_iff_eq] at h
  simp only [blankNumbers, List.mem_cons, List.not_mem_nil, or_false]
  omega

/-- No range of letters has a blank in it. -/
theorem not_blank_of_letter {c : Char} (h : isLetter c = true) : isBlank c = false := by
  have hranges : ∀ n ∈ blankNumbers, inRanges letterRanges n = false := by decide +kernel
  rcases Bool.or_eq_true_iff.mp h with hascii | hbeyond
  · exact not_blank_of_alphanum (by simp [Char.isAlphanum, hascii])
  · refine Bool.eq_false_iff.mpr fun hblank => ?_
    have hin := (Bool.and_eq_true_iff.mp hbeyond).2
    rw [hranges _ (isBlank_mem hblank)] at hin
    cases hin

/-- A run of one kind, such as of characters or of lines, before what is of another. -/
theorem takeWhile_run {α : Type} {p : α → Bool} {w : List α} (h : ∀ c ∈ w, p c = true)
    (rest : List α) (hr : ∀ c ∈ rest.head?, p c = false) :
    (w ++ rest).takeWhile p = w ∧ (w ++ rest).dropWhile p = rest := by
  have hstop : rest.takeWhile p = [] ∧ rest.dropWhile p = rest := by
    cases rest with
    | nil => exact ⟨rfl, rfl⟩
    | cons c cs => simp [hr c rfl]
  rw [List.takeWhile_append_of_pos h, List.dropWhile_append_of_pos h, hstop.1, hstop.2]
  exact ⟨List.append_nil w, rfl⟩

theorem run_unique {α : Type} {p : α → Bool} {w w' rest rest' : List α}
    (h : w ++ rest = w' ++ rest') (hw : ∀ c ∈ w, p c = true) (hw' : ∀ c ∈ w', p c = true)
    (hr : ∀ c ∈ rest.head?, p c = false) (hr' : ∀ c ∈ rest'.head?, p c = false) :
    w = w' ∧ rest = rest' := by
  obtain ⟨ht, hd⟩ := takeWhile_run hw rest hr
  obtain ⟨ht', hd'⟩ := takeWhile_run hw' rest' hr'
  exact ⟨ht.symm.trans (h ▸ ht'), hd.symm.trans (h ▸ hd')⟩

theorem exists_run {α : Type} (p : α → Bool) (cs : List α) :
    ∃ w rest, cs = w ++ rest ∧ (∀ c ∈ w, p c = true) ∧ ∀ c ∈ rest.head?, p c = false := by
  refine ⟨cs.takeWhile p, cs.dropWhile p, List.takeWhile_append_dropWhile.symm, ?_, ?_⟩
  · exact List.all_eq_true.mp List.all_takeWhile
  · intro c hc
    have := List.head?_dropWhile_not p cs
    rw [Option.mem_def.mp hc] at this
    simpa using this

theorem dropBlanks_eq_self {cs : List Char} (h : ∀ c, cs.head? = some c → isBlank c = false) :
    dropBlanks cs = cs := by
  cases cs with
  | nil => rfl
  | cons c cs =>
    have hc := h c rfl
    simp [dropBlanks, hc]

/-- A text without blanks at its ends stays as it is. -/
theorem trim_eq_self {cs : List Char} (h : ∀ c, cs.head? = some c → isBlank c = false)
    (h' : ∀ c, cs.getLast? = some c → isBlank c = false) : trim cs = cs := by
  rw [trim, dropBlanks_eq_self h, dropBlanks_eq_self, List.reverse_reverse]
  intro c hc
  rw [List.head?_reverse] at hc
  exact h' c hc

theorem trim_eq_self_of_all {cs : List Char} (h : ∀ c ∈ cs, isBlank c = false) : trim cs = cs :=
  trim_eq_self (fun c hc => h c (List.mem_of_head? hc)) fun c hc => h c (List.mem_of_getLast? hc)

theorem dropBlanks_blanks {bs : List Char} (h : ∀ c ∈ bs, isBlank c = true) (cs : List Char) :
    dropBlanks (bs ++ cs) = dropBlanks cs :=
  List.dropWhile_append_of_pos h

theorem trim_blanks_append {bs : List Char} (h : ∀ c ∈ bs, isBlank c = true) (cs : List Char) :
    trim (bs ++ cs) = trim cs := by
  rw [trim, trim, dropBlanks_blanks h]

theorem trim_append_blanks {bs : List Char} (h : ∀ c ∈ bs, isBlank c = true) (cs : List Char) :
    trim (cs ++ bs) = trim cs := by
  have hreverse : ∀ c ∈ bs.reverse, isBlank c = true := fun c hc => h c (List.mem_reverse.mp hc)
  have happend : dropBlanks (cs ++ bs) =
      if (dropBlanks cs).isEmpty then dropBlanks bs else dropBlanks cs ++ bs :=
    List.dropWhile_append
  rw [trim, trim, happend]
  split
  next hnil =>
    have hbs := dropBlanks_blanks h []
    rw [List.append_nil] at hbs
    rw [hbs, List.isEmpty_iff.mp hnil]
    rfl
  next => rw [List.reverse_append, dropBlanks_blanks hreverse]

end TrialLoop
