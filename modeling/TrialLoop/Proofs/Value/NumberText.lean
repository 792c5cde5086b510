import TrialLoop.Proofs.Number.Grammar

namespace TrialLoop

/-- An infinity, or what is no number, by its name in any case. -/
def namedFloat? (name : List Char) : Option Float :=
  if name.map Char.toLower ∈ ["inf".toList, "infinity".toList] then some (1.0 / 0.0)
  else if name.map Char.toLower = "nan".toList then some (0.0 / 0.0)
  else none

/-- The double that a text stands for, as a numeral or by its name after an optional sign. -/
def double? (cs : List Char) : Option Float :=
  match Numeral.read? cs with
  | some n => some n.float
  | none => (namedFloat? (splitSign cs).2).map fun x => if (splitSign cs).1 then -x else x

/--
What a text is recognised as in three steps: it has to match the pattern of numbers for a class of
digits, and is then an integer if it is one of 64 bits, and a double if not.
-/
inductive Recognised (digit : Char → Bool) (cs : List Char) : Value → Prop
  | integer {i : Int64} (pattern : IsNumberText digit cs) (read : integer? cs = some i) :
      Recognised digit cs (.int i)
  | double {x : Float} (pattern : IsNumberText digit cs) (integer : integer? cs = none)
      (read : double? cs = some x) : Recognised digit cs (.float x)

/-- Of the characters of ASCII the class has the ten digits. -/
def ExtendsDigits (digit : Char → Bool) : Prop :=
  ∀ c : Char, c.toNat < 128 → digit c = c.isDigit

section Pattern

variable {digit digit' : Char → Bool} {c : Char} {cs : List Char}

theorem AreDigits.mono (h : ∀ c, digit c = true → digit' c = true) (hcs : AreDigits digit cs) :
    AreDigits digit' cs :=
  fun d hd => h d (hcs d hd)

/-- With more digits the pattern matches more. -/
theorem IsNumberText.mono (h : ∀ c, digit c = true → digit' c = true)
    (hcs : IsNumberText digit cs) : IsNumberText digit' cs := by
  obtain ⟨sign, mantissa, exponent, htext, hsign, hmantissa, hexponent⟩ := hcs
  refine ⟨sign, mantissa, exponent, htext, hsign, ?_, ?_⟩
  · rcases hmantissa with ⟨whole, more, htext, hne, hwhole, hmore⟩ | ⟨more, htext, hne, hmore⟩
    · exact .inl ⟨whole, more, htext, hne, hwhole.mono h, hmore.mono h⟩
    · exact .inr ⟨more, htext, hne, hmore.mono h⟩
  · rcases hexponent with hnil | ⟨mark, sign, ds, htext, hmark, hsign, hne, hds⟩
    · exact .inl hnil
    · exact .inr ⟨mark, sign, ds, htext, hmark, hsign, hne, hds.mono h⟩

theorem ExtendsDigits.of_isDigit (h : ExtendsDigits digit) (hc : c.isDigit = true) :
    digit c = true := by
  have hnine := (Char.isDigit_iff_toNat.mp hc).2
  have hlast : '9'.toNat = 57 := rfl
  rw [h c (by omega), hc]

/-- What is in front of a number without its sign is a digit or a point. -/
def IsNumberStart (c : Char) : Prop :=
  c.toNat = 46 ∨ 48 ≤ c.toNat ∧ c.toNat ≤ 57 ∨ 128 ≤ c.toNat

theorem ExtendsDigits.isNumberStart (h : ExtendsDigits digit) (hc : digit c = true) :
    IsNumberStart c := by
  by_cases hascii : c.toNat < 128
  · exact .inr (.inl (Char.isDigit_iff_toNat.mp ((h c hascii).symm.trans hc)))
  · exact .inr (.inr (Nat.not_lt.mp hascii))

theorem IsNumberStart.ne_sign (hc : IsNumberStart c) : c ≠ '-' ∧ c ≠ '+' := by
  unfold IsNumberStart at hc
  constructor <;> (rintro rfl; revert hc; decide)

theorem toLower_cases {d : Char} (h : c.toLower = d) : c = d ∨ c.toNat + 32 = d.toNat := by
  unfold Char.toLower at h
  split at h
  next hc =>
    have hle : c.toNat ≤ 90 := hc.2
    have hsum : (c.val + 32).toNat = (c.toNat + 32) % 2 ^ 32 := UInt32.toNat_add c.val 32
    exact .inr (h ▸ (hsum.trans (Nat.mod_eq_of_lt (by omega))).symm)
  next => exact .inl h

theorem IsNumberStart.not_named (hc : IsNumberStart c) : namedFloat? (c :: cs) = none := by
  have hfirst {d : Char} (hd : d = 'i' ∨ d = 'n') : c.toLower ≠ d := by
    intro he
    have hnat : d.toNat = 105 ∨ d.toNat = 110 := by rcases hd with rfl | rfl <;> decide
    unfold IsNumberStart at hc
    rcases toLower_cases he with rfl | hupper
    · omega
    · omega
  have hi := hfirst (.inl rfl)
  have hn := hfirst (.inr rfl)
  simp [namedFloat?, hi, hn]

/-- What matches the pattern has no letter in front, so that it is not the name of a double. -/
theorem IsNumberText.not_named (h : ExtendsDigits digit) (hcs : IsNumberText digit cs) :
    namedFloat? (splitSign cs).2 = none := by
  obtain ⟨sign, mantissa, exponent, rfl, hsign, hmantissa, -⟩ := hcs
  have hhead : ∃ c rest, mantissa = c :: rest ∧ IsNumberStart c := by
    rcases hmantissa with ⟨whole, more, htext, hne, hwhole, -⟩ | ⟨more, htext, -⟩
    · obtain ⟨c, whole, rfl⟩ := List.exists_cons_of_ne_nil hne
      have hc := h.isNumberStart (hwhole c List.mem_cons_self)
      rcases htext with rfl | rfl
      · exact ⟨c, _, rfl, hc⟩
      · exact ⟨c, _, rfl, hc⟩
    · exact ⟨'.', more, htext, .inl rfl⟩
  obtain ⟨c, rest, rfl, hc⟩ := hhead
  rw [splitSign_append hsign (by rintro d ⟨⟩; exact hc.ne_sign)]
  exact hc.not_named

end Pattern

namespace Value

theorem readNumber?_eq_map (s : String) :
    readNumber? s = (Numeral.read? (trim s.toList)).map Numeral.value :=
  rfl

/-- A number is read as it is recognised, with any class of digits. -/
theorem readNumber?_eq_some_iff {digit : Char → Bool} (h : ExtendsDigits digit) {s : String}
    {v : Value} : readNumber? s = some v ↔ Recognised digit (trim s.toList) v := by
  rw [readNumber?_eq_map]
  constructor
  · intro hread
    obtain ⟨n, hn, rfl⟩ := Option.map_eq_some_iff.mp hread
    have hnumber := (Numeral.read?_isSome_iff _).mp (Option.isSome_of_mem hn)
    have hpattern := hnumber.mono fun c hc => h.of_isDigit hc
    have hinteger : integer? (trim s.toList) = n.int? := by
      rw [integer?_eq_bind, hn, Option.bind_some]
    rw [Numeral.value]
    split
    next i hi => exact .integer hpattern (hinteger.trans hi)
    next hi => exact .double hpattern (hinteger.trans hi) (by rw [double?, hn])
  · intro hv
    cases hv with
    | integer pattern read =>
      rw [integer?_eq_bind] at read
      obtain ⟨n, hn, hi⟩ := Option.bind_eq_some_iff.mp read
      simp [hn, Numeral.value, hi]
    | double pattern integer read =>
      cases hn : Numeral.read? (trim s.toList) with
      | none => simp [double?, hn, pattern.not_named h] at read
      | some n =>
        rw [integer?_eq_bind, hn, Option.bind_some] at integer
        rw [double?, hn] at read
        simp [Numeral.value, integer, Option.some.inj read]

theorem readNumber?_eq_int_iff {s : String} {i : Int64} :
    readNumber? s = some (.int i) ↔ IsIntegerText (trim s.toList) i.toInt := by
  have hvalue (n : Numeral) : n.value = .int i ↔ n.int? = some i := by
    rw [Numeral.value]
    split <;> simp [*]
  rw [← integer?_eq_some_iff, integer?_eq_bind, readNumber?_eq_map, Option.map_eq_some_iff,
    Option.bind_eq_some_iff]
  exact exists_congr fun n => and_congr_right fun _ => hvalue n

theorem readNumber?_int_iff (s : String) (n : Int) :
    (∃ i, readNumber? s = some (.int i) ∧ i.toInt = n) ↔
      IsIntegerText (trim s.toList) n ∧ -2 ^ 63 ≤ n ∧ n ≤ 2 ^ 63 - 1 := by
  constructor
  · rintro ⟨i, hi, rfl⟩
    exact ⟨readNumber?_eq_int_iff.mp hi, i.le_toInt, Int.le_sub_one_of_lt i.toInt_lt⟩
  · rintro ⟨htext, hlow, hhigh⟩
    have hi : (Int64.ofInt n).toInt = n :=
      Int64.toInt_ofInt_of_le hlow (Int.lt_of_le_sub_one hhigh)
    exact ⟨_, readNumber?_eq_int_iff.mpr (hi.symm ▸ htext), hi⟩

/-- A number that is no integer is a double. -/
theorem readNumber?_float_iff (s : String) :
    (∃ x, readNumber? s = some (.float x)) ↔
      (readNumber? s).isSome ∧ ¬∃ i, readNumber? s = some (.int i) := by
  rw [readNumber?]
  cases Numeral.read? (trim s.toList) with
  | none => simp
  | some n => cases h : n.int? <;> simp [h]

/--
A text is a number exactly if the grammar derives it without the blanks around it. It is an integer
exactly if it has neither point nor exponent and 64 bits hold its decimal value, and otherwise a
double. More digits than those of ASCII in the pattern make no difference.
-/
theorem number_exactly_grammar (s : String) :
    ((readNumber? s).isSome ↔ IsNumberText Char.isDigit (trim s.toList)) ∧
      (∀ n : Int, (∃ i, readNumber? s = some (.int i) ∧ i.toInt = n) ↔
        IsIntegerText (trim s.toList) n ∧ -2 ^ 63 ≤ n ∧ n ≤ 2 ^ 63 - 1) ∧
      ((∃ x, readNumber? s = some (.float x)) ↔ IsNumberText Char.isDigit (trim s.toList) ∧
        ¬∃ n, IsIntegerText (trim s.toList) n ∧ -2 ^ 63 ≤ n ∧ n ≤ 2 ^ 63 - 1) ∧
      ∀ digit, ExtendsDigits digit →
        ∀ v, readNumber? s = some v ↔ Recognised digit (trim s.toList) v := by
  have hnumber : (readNumber? s).isSome ↔ IsNumberText Char.isDigit (trim s.toList) := by
    rw [← Numeral.read?_isSome_iff, readNumber?, Option.isSome_map]
  refine ⟨hnumber, readNumber?_int_iff s, ?_, fun digit h v => readNumber?_eq_some_iff h⟩
  rw [readNumber?_float_iff, hnumber]
  refine and_congr_right fun _ => not_congr ?_
  simp only [← readNumber?_int_iff]
  constructor
  · rintro ⟨i, hi⟩
    exact ⟨_, i, hi, rfl⟩
  · rintro ⟨_, i, hi, -⟩
    exact ⟨i, hi⟩

/-- A digit of another script lets the pattern match, but no integer and no double is read. -/
theorem number_exactly_grammar_foreign :
    let arabic (c : Char) : Bool := 0x660 ≤ c.toNat && c.toNat ≤ 0x669
    let digit (c : Char) : Bool := c.isDigit || arabic c
    ExtendsDigits digit ∧ IsNumberText digit (trim " 1٢.5".toList) ∧
      readNumber? " 1٢.5" = none ∧ ∀ v, ¬Recognised digit (trim " 1٢.5".toList) v := by
  intro arabic digit
  have hdigit : ExtendsDigits digit := by
    intro c hc
    have harabic : arabic c = false := by
      have hlow : ¬0x660 ≤ c.toNat := by omega
      simp [arabic, hlow]
    simp [digit, harabic]
  have hpattern : IsNumberText digit (trim " 1٢.5".toList) := by
    refine ⟨[], "1٢.5".toList, [], by decide, by decide, .inl ?_, .inl rfl⟩
    exact ⟨['1', '٢'], ['5'], .inr rfl, by decide, forall_mem_of_all (by decide),
      forall_mem_of_all (by decide)⟩
  have hnone : readNumber? " 1٢.5" = none := rfl
  refine ⟨hdigit, hpattern, hnone, fun v hv => ?_⟩
  have hsome := ((number_exactly_grammar " 1٢.5").2.2.2 digit hdigit v).mpr hv
  rw [hnone] at hsome
  cases hsome

end Value

end TrialLoop
