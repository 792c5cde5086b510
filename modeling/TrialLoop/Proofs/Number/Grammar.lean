import TrialLoop.Proofs.Number.Numeral
import Mathlib.Data.Nat.Digits.Defs

namespace TrialLoop

/-- The signs that a number may have in front. -/
def numberSigns : List (List Char) :=
  [[], ['+'], ['-']]

section Grammar

variable (digit : Char → Bool)

/-- Any number of digits, also none. -/
def AreDigits (ds : List Char) : Prop :=
  ∀ d ∈ ds, digit d = true

/-- Digits with an optional point and further digits, or a point and digits. -/
def IsMantissa (cs : List Char) : Prop :=
  (∃ whole more, (cs = whole ++ more ∨ cs = whole ++ '.' :: more) ∧ whole ≠ [] ∧
    AreDigits digit whole ∧ AreDigits digit more) ∨
  ∃ more, cs = '.' :: more ∧ more ≠ [] ∧ AreDigits digit more

/-- Nothing, or an exponent mark, an optional sign and digits. -/
def IsExponentPart (cs : List Char) : Prop :=
  cs = [] ∨ ∃ mark sign ds, cs = mark :: (sign ++ ds) ∧ (mark = 'e' ∨ mark = 'E') ∧
    sign ∈ numberSigns ∧ ds ≠ [] ∧ AreDigits digit ds

/-- An optional sign, digits with or without a point, and an optional exponent. -/
def IsNumberText (cs : List Char) : Prop :=
  ∃ sign mantissa exponent, cs = sign ++ (mantissa ++ exponent) ∧ sign ∈ numberSigns ∧
    IsMantissa digit mantissa ∧ IsExponentPart digit exponent

end Grammar

/-- The number that a row of digits is in the decimal system. -/
def decimalValue (ds : List Char) : Nat :=
  Nat.ofDigits 10 (ds.reverse.map fun d => d.toNat - '0'.toNat)

/-- The text has neither point nor exponent, and is this number in the decimal system. -/
def IsIntegerText (cs : List Char) (n : Int) : Prop :=
  ∃ sign ds, cs = sign ++ ds ∧ sign ∈ numberSigns ∧ ds ≠ [] ∧ AreDigits Char.isDigit ds ∧
    n = if sign = ['-'] then -(decimalValue ds : Int) else decimalValue ds

theorem decimalValue_eq (ds : List Char) : decimalValue ds = digitsValue ds := by
  induction ds using List.reverseRecOn with
  | nil => rfl
  | append_singleton ds d ih =>
    rw [digitsValue_append_digit, ← ih, decimalValue, List.reverse_append, List.reverse_singleton,
      List.singleton_append, List.map_cons, Nat.ofDigits_cons, decimalValue, Nat.add_comm]

theorem splitSign_text (cs : List Char) :
    ∃ sign ∈ numberSigns, cs = sign ++ (splitSign cs).2 ∧
      (splitSign cs).1 = decide (sign = ['-']) := by
  unfold splitSign
  split
  next cs => exact ⟨['-'], by decide, rfl, rfl⟩
  next cs => exact ⟨['+'], by decide, rfl, rfl⟩
  next => exact ⟨[], by decide, rfl, rfl⟩

theorem splitSign_append {sign cs : List Char} (h : sign ∈ numberSigns)
    (hcs : ∀ c ∈ cs.head?, c ≠ '-' ∧ c ≠ '+') :
    splitSign (sign ++ cs) = (decide (sign = ['-']), cs) := by
  simp only [numberSigns, List.mem_cons, List.not_mem_nil, or_false] at h
  rcases h with rfl | rfl | rfl
  · exact splitSign_of_head hcs
  · rfl
  · rfl

theorem digits_head {ds : List Char} (hne : ds ≠ []) (h : AreDigits Char.isDigit ds)
    (rest : List Char) : ∀ c ∈ (ds ++ rest).head?, c ≠ '-' ∧ c ≠ '+' := by
  obtain ⟨d, ds, rfl⟩ := List.exists_cons_of_ne_nil hne
  rintro c ⟨⟩
  have hd := h d List.mem_cons_self
  constructor <;> (rintro rfl; exact absurd hd (by decide))

theorem exponentPart?_isSome_iff (cs : List Char) :
    (exponentPart? cs).isSome ↔ IsExponentPart Char.isDigit cs := by
  cases cs with
  | nil => exact iff_of_true rfl (.inl rfl)
  | cons c cs =>
    constructor
    · intro h
      obtain ⟨e, he⟩ := Option.isSome_iff_exists.mp h
      obtain ⟨hmark, hne, hds, -⟩ := exponentPart?_cons he
      obtain ⟨sign, hsign, htext, -⟩ := splitSign_text cs
      exact .inr ⟨c, sign, _, congrArg (c :: ·) htext, hmark, hsign, hne, hds⟩
    · rintro (hnil | ⟨mark, sign, ds, htext, hmark, hsign, hne, hds⟩)
      · cases hnil
      · cases htext
        have hhead := digits_head hne hds []
        rw [List.append_nil] at hhead
        rw [exponentPart?, splitSign_append hsign hhead]
        simp [hmark, hne, List.all_eq_true.mpr hds]

theorem exponentPart?_eq_some_none (cs : List Char) :
    exponentPart? cs = some none ↔ cs = [] := by
  cases cs with
  | nil => exact iff_of_true rfl rfl
  | cons c cs =>
    refine iff_of_false (fun h => ?_) (List.cons_ne_nil c cs)
    obtain ⟨-, -, -, he⟩ := exponentPart?_cons h
    cases he

/-- An exponent part starts with no digit and with no point. -/
theorem IsExponentPart.head {cs : List Char} (h : IsExponentPart Char.isDigit cs) :
    ∀ c ∈ cs.head?, c.isDigit = false ∧ c ≠ '.' := by
  rintro c hc
  rcases h with rfl | ⟨mark, sign, ds, rfl, hmark, -⟩
  · cases hc
  · cases hc
    rcases hmark with rfl | rfl <;> decide

namespace Numeral

section Read

variable {sign exponent : List Char} {e : Option Int}

/-- A number without a point is read as its sign, its digits and its exponent. -/
theorem read?_whole {ds : List Char} (hsign : sign ∈ numberSigns) (hne : ds ≠ [])
    (hds : AreDigits Char.isDigit ds) (he : exponentPart? exponent = some e) :
    read? (sign ++ (ds ++ exponent)) = some ⟨decide (sign = ['-']), ds, none, e⟩ := by
  have hend := ((exponentPart?_isSome_iff exponent).mp (by simp [he])).head
  obtain ⟨htake, hdrop⟩ := takeWhile_run hds exponent fun c hc => (hend c hc).1
  rw [read?, splitSign_append hsign (digits_head hne hds exponent)]
  dsimp only
  rw [htake, hdrop]
  split
  next after => exact absurd rfl (hend '.' rfl).2
  next => rw [if_neg hne, he]; rfl

/-- A number with a point has digits on one side of it at least. -/
theorem read?_pointed {whole fraction : List Char} (hsign : sign ∈ numberSigns)
    (hne : whole ≠ [] ∨ fraction ≠ []) (hwhole : AreDigits Char.isDigit whole)
    (hfraction : AreDigits Char.isDigit fraction)
    (he : exponentPart? exponent = some e) :
    read? (sign ++ (whole ++ '.' :: (fraction ++ exponent))) =
      some ⟨decide (sign = ['-']), whole, some fraction, e⟩ := by
  have hend := ((exponentPart?_isSome_iff exponent).mp (by simp [he])).head
  obtain ⟨htake, hdrop⟩ := takeWhile_run hfraction exponent fun c hc => (hend c hc).1
  obtain ⟨htake', hdrop'⟩ := takeWhile_run hwhole ('.' :: (fraction ++ exponent))
    (by rintro c ⟨⟩; rfl)
  have hhead : ∀ c ∈ (whole ++ '.' :: (fraction ++ exponent)).head?, c ≠ '-' ∧ c ≠ '+' := by
    by_cases hnil : whole = []
    · subst hnil
      rintro c ⟨⟩
      decide
    · exact digits_head hnil hwhole _
  rw [read?, splitSign_append hsign hhead]
  dsimp only
  have hsome : ¬(whole = [] ∧ fraction = []) := by tauto
  simp only [htake', hdrop', htake, hdrop, if_neg hsome, he, Option.map_some]

end Read

/-- What is read as a number is exactly what the grammar of numbers derives. -/
theorem read?_isSome_iff (cs : List Char) : (read? cs).isSome ↔ IsNumberText Char.isDigit cs := by
  constructor
  · intro h
    obtain ⟨n, hn⟩ := Option.isSome_iff_exists.mp h
    obtain ⟨-, hwhole, hparts⟩ := parts_of_read hn
    obtain ⟨sign, hsign, htext, -⟩ := splitSign_text cs
    have htake := @List.takeWhile_append_dropWhile _ Char.isDigit (splitSign cs).2
    rw [← hwhole] at htake
    have hdigits : AreDigits Char.isDigit n.whole := hwhole ▸ List.all_eq_true.mp List.all_takeWhile
    cases hparts with
    | pointed after rest fraction digits exponent =>
      have hafter := @List.takeWhile_append_dropWhile _ Char.isDigit after
      have hfraction : AreDigits Char.isDigit (after.takeWhile Char.isDigit) :=
        List.all_eq_true.mp List.all_takeWhile
      refine ⟨sign, n.whole ++ '.' :: after.takeWhile Char.isDigit, after.dropWhile Char.isDigit,
        ?_, hsign, ?_, (exponentPart?_isSome_iff _).mp (by simp [exponent])⟩
      · rw [List.append_assoc, List.cons_append, hafter, ← rest, htake, ← htext]
      · by_cases hnil : n.whole = []
        · exact .inr ⟨_, by rw [hnil]; rfl, digits hnil, hfraction⟩
        · exact .inl ⟨n.whole, _, .inr rfl, hnil, hdigits, hfraction⟩
    | whole rest fraction digits exponent =>
      refine ⟨sign, n.whole, (splitSign cs).2.dropWhile Char.isDigit, ?_, hsign, ?_,
        (exponentPart?_isSome_iff _).mp (by simp [exponent])⟩
      · rw [htake, ← htext]
      · exact .inl ⟨n.whole, [], .inl (List.append_nil _).symm, digits, hdigits, nofun⟩
  · rintro ⟨sign, mantissa, exponent, rfl, hsign, hmantissa, hexponent⟩
    obtain ⟨e, he⟩ :=
      Option.isSome_iff_exists.mp ((exponentPart?_isSome_iff exponent).mpr hexponent)
    rcases hmantissa with ⟨whole, more, rfl | rfl, hne, hwhole, hmore⟩ | ⟨more, rfl, hne, hmore⟩
    · rw [read?_whole hsign (by simp [hne]) (List.forall_mem_append.mpr ⟨hwhole, hmore⟩) he]
      rfl
    · rw [List.append_assoc, List.cons_append, read?_pointed hsign (.inl hne) hwhole hmore he]
      rfl
    · have hread := @read?_pointed sign exponent e [] more hsign (.inr hne) nofun hmore he
      rw [List.nil_append] at hread
      rw [List.cons_append, hread]
      rfl

theorem signed_decimalValue (sign ds : List Char) :
    signed (decide (sign = ['-'])) (digitsValue ds) =
      if sign = ['-'] then -(decimalValue ds : Int) else decimalValue ds := by
  rw [decimalValue_eq]
  by_cases h : sign = ['-'] <;> simp [signed, h]

theorem signedWord?_eq_some_iff {negative : Bool} {ds : List Char} {i : Int64} :
    signedWord? negative ds = some i ↔
      ∃ m, wordValue? ds = some m ∧ i.toInt = signed negative m := by
  simp [signedWord?, Option.bind_eq_some_iff, fit?_eq_some_iff]

end Numeral

open Numeral

/-- The integers are the numbers without point and exponent that 64 bits hold. -/
theorem integer?_eq_some_iff {cs : List Char} {i : Int64} :
    integer? cs = some i ↔ IsIntegerText cs i.toInt := by
  constructor
  · intro h
    obtain ⟨sign, hsign, htext, hminus⟩ := splitSign_text cs
    unfold integer? at h
    dsimp only at h
    split at h
    next hds =>
      obtain ⟨m, hm, hi⟩ := signedWord?_eq_some_iff.mp h
      refine ⟨sign, _, htext, hsign, hds.1, List.all_eq_true.mp hds.2, ?_⟩
      rw [hi, hminus, wordValue?_value hm, signed_decimalValue]
    next => cases h
  · rintro ⟨sign, ds, rfl, hsign, hne, hds, hi⟩
    rw [← signed_decimalValue] at hi
    have hhead := digits_head hne hds []
    rw [List.append_nil] at hhead
    have hsmall : digitsValue ds < 10 ^ 20 := by
      have hlow := i.le_toInt
      have hhigh := i.toInt_lt
      unfold signed at hi
      split at hi <;> omega
    rw [integer?, splitSign_append hsign hhead]
    dsimp only
    rw [if_pos ⟨hne, List.all_eq_true.mpr hds⟩]
    exact signedWord?_eq_some_iff.mpr ⟨_, wordValue?_eq_some hds hsmall, hi⟩

/-- A text is an integer as the numeral that is read from it. -/
theorem integer?_eq_bind (cs : List Char) : integer? cs = (read? cs).bind int? := by
  by_cases hds : (splitSign cs).2 ≠ [] ∧ (splitSign cs).2.all Char.isDigit = true
  · obtain ⟨htake, hdrop⟩ := takeWhile_run (List.all_eq_true.mp hds.2) [] nofun
    rw [List.append_nil] at htake hdrop
    rw [integer?, read?]
    dsimp only
    rw [if_pos hds]
    simp [htake, hdrop, hds.1, exponentPart?, int?]
  · rw [integer?]
    dsimp only
    rw [if_neg hds]
    cases hread : read? cs with
    | none => rfl
    | some n =>
      rw [Option.bind_some, eq_comm, Option.eq_none_iff_forall_ne_some]
      intro i hi
      obtain ⟨hfraction, hexponent, -⟩ := int?_eq_some_iff.mp hi
      obtain ⟨-, hwhole, hparts⟩ := parts_of_read hread
      cases hparts with
      | pointed after rest fraction => simp [hfraction] at fraction
      | whole rest _ digits exponent =>
        rw [hexponent, exponentPart?_eq_some_none] at exponent
        have htake := @List.takeWhile_append_dropWhile _ Char.isDigit (splitSign cs).2
        rw [exponent, List.append_nil, ← hwhole] at htake
        refine hds ⟨htake ▸ digits, ?_⟩
        rw [← htake, hwhole]
        exact List.all_takeWhile

end TrialLoop
