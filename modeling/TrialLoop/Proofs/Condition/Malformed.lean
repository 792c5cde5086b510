import TrialLoop.Proofs.Condition.Enclosure
import Mathlib.Data.List.Infix

namespace TrialLoop

open Enclosure

/-- A bracket is opened and never closed, or is closed outside of quotes and brackets. -/
def HasLooseBracket (cs : List Char) : Prop :=
  outside.after cs = brackets ∨ ']' ∈ outside.outer cs

instance (cs : List Char) : Decidable (HasLooseBracket cs) :=
  instDecidableOr

/-- After some open parentheses never more are closed than were opened, and all in the end. -/
def ClosesParens (opened : Nat) (cs : List Char) : Prop :=
  (∀ start, start <+: cs → start.count ')' ≤ opened + start.count '(') ∧
    cs.count ')' = opened + cs.count '('

instance (opened : Nat) (cs : List Char) : Decidable (ClosesParens opened cs) :=
  decidable_of_iff ((∀ start ∈ cs.inits, start.count ')' ≤ opened + start.count '(') ∧
    cs.count ')' = opened + cs.count '(') (by simp only [ClosesParens, List.mem_inits])

/-- The parentheses outside of quotes and brackets are balanced. -/
def HasBalancedParens (cs : List Char) : Prop :=
  ClosesParens 0 (outside.outer cs)

instance (cs : List Char) : Decidable (HasBalancedParens cs) :=
  inferInstanceAs (Decidable (ClosesParens 0 (outside.outer cs)))

section Parens

variable {opened : Nat} {c : Char} {cs : List Char}

theorem forall_prefix_cons {P : List Char → Prop} :
    (∀ start, start <+: c :: cs → P start) ↔ P [] ∧ ∀ start, start <+: cs → P (c :: start) := by
  constructor
  · intro h
    exact ⟨h [] List.nil_prefix, fun start hs => h _ (List.prefix_cons_inj c |>.mpr hs)⟩
  · rintro ⟨hnil, hcons⟩ start hs
    rcases List.prefix_cons_iff.mp hs with rfl | ⟨start, rfl, hs⟩
    · exact hnil
    · exact hcons start ((List.prefix_cons_inj c).mp hs)

theorem closesParens_nil : ClosesParens opened [] ↔ opened = 0 := by
  simp [ClosesParens, eq_comm]

theorem closesParens_open :
    ClosesParens opened ('(' :: cs) ↔ ClosesParens (opened + 1) cs := by
  simp [ClosesParens, forall_prefix_cons, Nat.add_assoc, Nat.add_comm 1]

theorem closesParens_close :
    ClosesParens opened (')' :: cs) ↔ 0 < opened ∧ ClosesParens (opened - 1) cs := by
  simp only [ClosesParens, forall_prefix_cons, List.count_cons_self, List.count_nil,
    List.count_cons_of_ne (show ')' ≠ '(' by decide), Nat.zero_le, true_and]
  constructor
  · rintro ⟨hstart, hall⟩
    have hfirst := hstart [] List.nil_prefix
    simp only [List.count_nil] at hfirst
    exact ⟨by omega, fun start hs => by have := hstart start hs; omega, by omega⟩
  · rintro ⟨hpos, hstart, hall⟩
    exact ⟨fun start hs => by have := hstart start hs; omega, by omega⟩

theorem closesParens_other (hopen : c ≠ '(') (hclose : c ≠ ')') :
    ClosesParens opened (c :: cs) ↔ ClosesParens opened cs := by
  simp [ClosesParens, forall_prefix_cons, List.count_cons_of_ne hopen, List.count_cons_of_ne hclose]

end Parens

namespace IsStep

variable {cs taken : List Char} {r : ReadPiece}

theorem hasLooseBracket (h : IsStep cs taken r) : HasLooseBracket cs ↔ HasLooseBracket r.rest := by
  rw [h.text, HasLooseBracket, HasLooseBracket, outer_append, after_append, List.mem_append,
    or_iff_right h.bracket]
  rcases h.last with hlast | ⟨hrest, hlast⟩
  · rw [hlast]
  · rw [hrest]
    exact iff_of_false (not_or.mpr ⟨hlast, List.not_mem_nil⟩) (by decide)

theorem parens_eq (h : IsStep cs taken r) {ps : List Piece}
    (hps : Piece.parens ps = (outside.outer r.rest).filter isParen) :
    Piece.parens (r.pieces ++ ps) = (outside.outer cs).filter isParen := by
  have happend : Piece.parens (r.pieces ++ ps) = Piece.parens r.pieces ++ Piece.parens ps :=
    List.filterMap_append
  rw [happend, h.parens, hps, h.text, outer_append, List.filter_append]
  rcases h.last with hlast | ⟨hrest, -⟩
  · rw [hlast]
  · rw [hrest]
    rfl

end IsStep

/-- A text has no pieces exactly if a bracket is not closed, or is closed and not opened. -/
theorem pieces_eq_none_iff (cs : List Char) : pieces cs = none ↔ HasLooseBracket cs := by
  induction cs using pieces_induction with
  | nil =>
    rw [pieces_nil]
    exact iff_of_false nofun (by decide)
  | stuck c cs h hrefused =>
    refine iff_of_true (pieces_stuck h) ?_
    rcases hrefused with rfl | ⟨rfl, hcs⟩
    · exact .inr List.mem_cons_self
    · exact .inl (passes_brackets hcs).2
  | step c cs r taken h hstep ih =>
    rw [pieces_cons h, Option.map_eq_none_iff, ih, hstep.hasLooseBracket]

/-- The parentheses among the pieces of a text are those outside of quotes and brackets. -/
theorem parens_pieces {cs : List Char} {ps : List Piece} {closed : Bool}
    (h : pieces cs = some (ps, closed)) :
    Piece.parens ps = (outside.outer cs).filter isParen := by
  induction cs using pieces_induction generalizing ps closed with
  | nil =>
    rw [pieces_nil] at h
    cases h
    rfl
  | stuck c cs hstuck _ =>
    rw [pieces_stuck hstuck] at h
    cases h
  | step c cs r taken hread hstep ih =>
    rw [pieces_cons hread] at h
    obtain ⟨⟨others, rest⟩, hothers, heq⟩ := Option.map_eq_some_iff.mp h
    cases heq
    exact hstep.parens_eq (ih hothers)

/-- Pieces are balanced as their parentheses are. -/
theorem balanced_iff (opened : Nat) (ps : List Piece) :
    Piece.balanced opened ps = true ↔ ClosesParens opened (Piece.parens ps) := by
  fun_induction Piece.balanced opened ps with
  | case1 opened => exact beq_iff_eq.trans closesParens_nil.symm
  | case2 opened ps ih => exact ih.trans closesParens_open.symm
  | case3 ps =>
    refine iff_of_false nofun fun h => ?_
    exact absurd (closesParens_close.mp h).1 (Nat.lt_irrefl 0)
  | case4 opened ps ih =>
    exact ih.trans (closesParens_close.trans (and_iff_right opened.succ_pos)).symm
  | case5 opened p ps hopen hzero hclose ih =>
    have hother : Piece.parens (p :: ps) = Piece.parens ps := by
      cases p with
      | openParen => exact absurd rfl hopen
      | closeParen =>
        cases opened with
        | zero => exact (hzero rfl rfl).elim
        | succ opened => exact (hclose opened rfl rfl).elim
      | _ => rfl
    rw [hother, ih]

theorem closesParens_filter (opened : Nat) (cs : List Char) :
    ClosesParens opened (cs.filter isParen) ↔ ClosesParens opened cs := by
  induction cs generalizing opened with
  | nil => rfl
  | cons c cs ih =>
    by_cases hopen : c = '('
    · subst hopen
      rw [closesParens_open, ← ih, ← closesParens_open]
      rfl
    by_cases hclose : c = ')'
    · subst hclose
      rw [closesParens_close, ← ih, ← closesParens_close]
      rfl
    · have hc : isParen c = false := by simp [isParen, hopen, hclose]
      rw [closesParens_other hopen hclose, ← ih, List.filter_cons_of_neg (by simp [hc])]

namespace Condition

/-- The text is neither one of the words for a condition, in any case, nor an expression alone. -/
def IsNotation (cs : List Char) : Prop :=
  cs.map Char.toLower ≠ "always".toList ∧ cs.map Char.toLower ≠ "never".toList ∧
    cs.head? ≠ some '='

instance (cs : List Char) : Decidable (IsNotation cs) :=
  instDecidableAnd

theorem plain?_eq_none_iff {cs : List Char} : plain? cs = none ↔ IsNotation cs := by
  unfold plain?
  dsimp only
  split
  next halways => exact iff_of_false nofun fun h => h.1 halways
  next halways =>
  split
  next hnever => exact iff_of_false nofun fun h => h.2.1 hnever
  next hnever =>
  split
  next rest => exact iff_of_false nofun fun h => h.2.2 rfl
  next hequals =>
    refine iff_of_true rfl ⟨halways, hnever, fun he => ?_⟩
    obtain ⟨rest, rfl⟩ := List.head?_eq_some_iff.mp he
    exact hequals rest rfl

section OfText

variable {text : String}

theorem ofText_of_loose (hplain : plain? (trim text.toList) = none)
    (h : HasLooseBracket (trim text.toList)) :
    ofText text = .error (.unclosedBracket (String.ofList (trim text.toList))) := by
  simp only [ofText, hplain, (pieces_eq_none_iff _).mpr h]

theorem ofText_of_closed (hplain : plain? (trim text.toList) = none)
    (h : ¬HasLooseBracket (trim text.toList)) :
    ∃ source, ofText text = if HasBalancedParens (trim text.toList) then .ok (.formula source)
      else .error (.unbalancedParens text) := by
  obtain ⟨⟨ps, closed⟩, hpieces⟩ := Option.ne_none_iff_exists'.mp (mt (pieces_eq_none_iff _).mp h)
  have hbalanced : Piece.balanced 0 ps = true ↔ HasBalancedParens (trim text.toList) := by
    rw [balanced_iff, parens_pieces hpieces, closesParens_filter, HasBalancedParens]
  refine ⟨String.ofList (Piece.sources false ps), ?_⟩
  simp only [ofText, hplain, hpieces, hbalanced]

end OfText

/--
A condition is refused exactly if it is malformed, for its brackets first and then for its
parentheses, where quotes and brackets hide what is in them. Reading it takes one part of the text
after the other, up to its end or a bracket that is refused.
-/
theorem refused_exactly_if_malformed :
    (∀ text : String, IsNotation (trim text.toList) →
      (ofText text = .error (.unclosedBracket (String.ofList (trim text.toList))) ↔
        HasLooseBracket (trim text.toList)) ∧
      (ofText text = .error (.unbalancedParens text) ↔
        ¬HasLooseBracket (trim text.toList) ∧ ¬HasBalancedParens (trim text.toList)) ∧
      ((∃ source, ofText text = .ok (.formula source)) ↔
        ¬HasLooseBracket (trim text.toList) ∧ HasBalancedParens (trim text.toList))) ∧
      ∀ cs, ∃ parts rest, Reading cs parts rest ∧ cs = parts.flatMap (·.1) ++ rest ∧
        parts.length ≤ cs.length ∧
        (rest = [] ∧ (∃ closed, pieces cs = some (parts.flatMap (·.2), closed)) ∨
          (∃ c after, rest = c :: after ∧ IsRefused c after) ∧ pieces cs = none) := by
  refine ⟨fun text h => ?_, fun cs => ?_⟩
  · have hplain := plain?_eq_none_iff.mpr h
    by_cases hloose : HasLooseBracket (trim text.toList)
    · simp [ofText_of_loose hplain hloose, hloose]
    · obtain ⟨source, hread⟩ := ofText_of_closed hplain hloose
      by_cases hbalanced : HasBalancedParens (trim text.toList)
      · simp [hread, hloose, hbalanced]
      · simp [hread, hloose, hbalanced]
  · obtain ⟨parts, rest, hreading, hend⟩ := exists_reading cs
    exact ⟨parts, rest, hreading, hreading.text, hreading.length_le, hend⟩

/-- Quotes in brackets, brackets and parentheses in quotes, and a quote that is never closed. -/
theorem refused_exactly_if_malformed_tangled :
    let text := " (['(] = \"b]\\\")\") or [)\"] <> 'c) [ "
    IsNotation (trim text.toList) ∧ ∃ source, ofText text = .ok (.formula source) := by
  intro text
  have hform : IsNotation (trim text.toList) := by decide
  have hclosed : ¬HasLooseBracket (trim text.toList) ∧ HasBalancedParens (trim text.toList) := by
    decide
  exact ⟨hform, (refused_exactly_if_malformed.1 text hform).2.2.mpr hclosed⟩

end Condition

end TrialLoop
