import TrialLoop.Proofs.Condition.Pieces
import TrialLoop.Proofs.Text.Unescape
import Mathlib.Data.List.TakeWhile

namespace TrialLoop

/-- What a character of a condition stands in: a text in quotes, a text in brackets, or neither. -/
inductive Enclosure where
  | outside
  | quotes (mark : Char)
  /-- In quotes after a backslash, which takes the next character along. -/
  | escape (mark : Char)
  | brackets
  deriving DecidableEq

namespace Enclosure

/-- What the character after a character stands in. -/
def next : Enclosure → Char → Enclosure
  | outside, c => if isQuoteMark c then quotes c else if c = '[' then brackets else outside
  | quotes mark, c => if c = '\\' then escape mark else if c = mark then outside else quotes mark
  | escape mark, _ => quotes mark
  | brackets, c => if c = ']' then outside else brackets

/-- What the character after some characters stands in. -/
def after (place : Enclosure) (cs : List Char) : Enclosure :=
  cs.foldl next place

/-- The characters that are met outside of quotes and brackets. -/
def outer (place : Enclosure) : List Char → List Char
  | [] => []
  | c :: cs => if place = outside then c :: (place.next c).outer cs else (place.next c).outer cs

end Enclosure

open Enclosure

namespace Enclosure

variable {place place' last : Enclosure} {c : Char} {cs ds : List Char}

theorem after_cons : place.after (c :: cs) = (place.next c).after cs :=
  List.foldl_cons ..

theorem after_append : place.after (cs ++ ds) = (place.after cs).after ds :=
  List.foldl_append

theorem outer_append :
    place.outer (cs ++ ds) = place.outer cs ++ (place.after cs).outer ds := by
  induction cs generalizing place with
  | nil => rfl
  | cons c cs ih =>
    rw [List.cons_append, outer, outer, after_cons, ih]
    split <;> rfl

/-- Characters none of which is outside, with what stands after them. -/
def Passes (place : Enclosure) (cs : List Char) (last : Enclosure) : Prop :=
  place.outer cs = [] ∧ place.after cs = last

theorem passes_nil : place.Passes [] place :=
  ⟨rfl, rfl⟩

theorem Passes.cons (hplace : place ≠ outside) (hnext : place.next c = place')
    (h : place'.Passes cs last) : place.Passes (c :: cs) last := by
  rw [Passes, outer, if_neg hplace, after_cons, hnext]
  exact h

theorem Passes.append (h : place.Passes cs place') (h' : place'.Passes ds last) :
    place.Passes (cs ++ ds) last := by
  rw [Passes, outer_append, after_append, h.1, h.2]
  exact h'

theorem quotes_ne_outside (mark : Char) : quotes mark ≠ outside := nofun

theorem escape_ne_outside (mark : Char) : escape mark ≠ outside := nofun

/-- Of a text in quotes or brackets only its first character is outside. -/
theorem Passes.opened (hnext : next outside c = place) (h : place.Passes cs last) :
    outside.outer (c :: cs) = [c] ∧ outside.after (c :: cs) = last := by
  rw [outer, if_pos rfl, after_cons, hnext, h.1]
  exact ⟨rfl, h.2⟩

/-- What is in brackets goes on to the first closing one. -/
theorem passes_brackets (h : ']' ∉ cs) : brackets.Passes cs brackets := by
  induction cs with
  | nil => exact passes_nil
  | cons c cs ih =>
    obtain ⟨hc, hcs⟩ := not_or.mp (mt List.mem_cons.mpr h)
    exact .cons nofun (if_neg (Ne.symm hc)) (ih hcs)

end Enclosure

/-- What a quote mark opens is in quotes, up to the end if nothing closes it. -/
theorem quotedRun_passes (mark : Char) (cs : List Char) :
    ∃ inside last, cs = inside ++ (quotedRun mark cs).rest ∧ (quotes mark).Passes inside last ∧
      (last = outside ∨
        (quotedRun mark cs).rest = [] ∧ (last = quotes mark ∨ last = escape mark)) := by
  fun_induction quotedRun mark cs with
  | case1 => exact ⟨[], _, rfl, passes_nil, .inr ⟨rfl, .inl rfl⟩⟩
  | case2 => exact ⟨['\\'], _, rfl, ⟨rfl, rfl⟩, .inr ⟨rfl, .inr rfl⟩⟩
  | case3 c cs ih =>
    obtain ⟨inside, last, htext, hpasses, hend⟩ := ih
    refine ⟨'\\' :: c :: inside, last, ?_, ?_, hend⟩
    · exact congrArg ('\\' :: c :: ·) htext
    · exact .cons (quotes_ne_outside mark) rfl (.cons (escape_ne_outside mark) rfl hpasses)
  | case4 cs hslash =>
    have hnext : next (quotes mark) mark = outside := by rw [next, if_neg hslash, if_pos rfl]
    exact ⟨[mark], outside, rfl, .cons (quotes_ne_outside mark) hnext passes_nil, .inl rfl⟩
  | case5 c cs hslash hmark ih =>
    obtain ⟨inside, last, htext, hpasses, hend⟩ := ih
    have hnext : next (quotes mark) c = quotes mark := by rw [next, if_neg hslash, if_neg hmark]
    have hpasses' := hpasses.cons (quotes_ne_outside mark) hnext
    exact ⟨c :: inside, last, congrArg (c :: ·) htext, hpasses', hend⟩

/-- A character that opens and closes nothing. -/
def IsPlainChar (c : Char) : Prop :=
  isQuoteMark c = false ∧ c ∉ ['[', ']', '(', ')']

instance : DecidablePred IsPlainChar := fun _ => instDecidableAnd

theorem isPlainChar_of_blank {c : Char} (h : isBlank c = true) : IsPlainChar c := by
  refine ⟨?_, fun hmem => ?_⟩
  · rw [Bool.eq_false_iff]
    intro hmark
    exact absurd (quoteMark_visible hmark) (by simp [h])
  · have hvisible : ∀ d ∈ ['[', ']', '(', ')'], isBlank d = false := forall_mem_of_all (by decide)
    exact absurd (hvisible c hmem) (by simp [h])

theorem isPlainChar_of_inside {c : Char} (h : endsWord c = false) : IsPlainChar c := by
  refine ⟨?_, fun hmem => ?_⟩
  · simp only [endsWord, Bool.or_eq_false_iff] at h
    exact h.1.2
  · have hends : ∀ d ∈ ['[', ']', '(', ')'], endsWord d = true := forall_mem_of_all (by decide)
    exact absurd (hends c hmem) (by simp [h])

/-- Characters that open and close nothing are all outside. -/
theorem outer_plain {w : List Char} (h : ∀ c ∈ w, IsPlainChar c) :
    outside.outer w = w ∧ outside.after w = outside := by
  induction w with
  | nil => exact ⟨rfl, rfl⟩
  | cons c w ih =>
    obtain ⟨hc, hw⟩ := List.forall_mem_cons.mp h
    have hbracket : c ≠ '[' := fun he => hc.2 (by simp [he])
    have hnext : next outside c = outside := by simp [next, hc.1, hbracket]
    obtain ⟨houter, hafter⟩ := ih hw
    rw [outer, if_pos rfl, after_cons, hnext, houter, hafter]
    exact ⟨rfl, rfl⟩

theorem readComparison_text {cs rest : List Char} {op : Comparison}
    (h : readComparison cs = some (op, rest)) :
    ∃ sign, cs = sign ++ rest ∧ sign ≠ [] ∧ ∀ c ∈ sign, IsPlainChar c := by
  have hsigns : ∀ c ∈ ['=', '!', '<', '>'], IsPlainChar c := forall_mem_of_all (by decide)
  have htake {sign : List Char} (hsub : sign ⊆ ['=', '!', '<', '>']) : ∀ c ∈ sign, IsPlainChar c :=
    fun c hc => hsigns c (hsub hc)
  unfold readComparison at h
  split at h
  all_goals cases h
  · exact ⟨['=', '='], rfl, by simp, htake (by decide)⟩
  · exact ⟨['='], rfl, by simp, htake (by decide)⟩
  · exact ⟨['!', '='], rfl, by simp, htake (by decide)⟩
  · exact ⟨['<', '='], rfl, by simp, htake (by decide)⟩
  · exact ⟨['<', '>'], rfl, by simp, htake (by decide)⟩
  · exact ⟨['<'], rfl, by simp, htake (by decide)⟩
  · exact ⟨['>', '='], rfl, by simp, htake (by decide)⟩
  · exact ⟨['>'], rfl, by simp, htake (by decide)⟩

/-- The parentheses among some pieces. -/
def Piece.parens (ps : List Piece) : List Char :=
  ps.filterMap fun
    | openParen => some '('
    | closeParen => some ')'
    | _ => none

theorem parens_bracketPiece (name : List Char) : Piece.parens [bracketPiece name] = [] := by
  unfold bracketPiece
  split <;> rfl

def isParen (c : Char) : Bool :=
  c == '(' || c == ')'

/-- What a step takes from a text, the pieces that it gives and what it leaves. -/
structure IsStep (cs taken : List Char) (r : ReadPiece) : Prop where
  text : cs = taken ++ r.rest
  ne : taken ≠ []
  parens : Piece.parens r.pieces = (outside.outer taken).filter isParen
  bracket : ']' ∉ outside.outer taken
  last : outside.after taken = outside ∨ r.rest = [] ∧ outside.after taken ≠ brackets

section Step

variable {c : Char} {cs rest : List Char} {ps : List Piece} {closed : Bool}

theorem isStep_plain {taken : List Char} (hne : taken ≠ []) (h : ∀ d ∈ taken, IsPlainChar d)
    (hps : Piece.parens ps = []) : IsStep (taken ++ rest) taken ⟨ps, rest, closed⟩ := by
  obtain ⟨houter, hafter⟩ := outer_plain h
  refine ⟨rfl, hne, ?_, ?_, .inl hafter⟩
  · rw [houter, hps, eq_comm, List.filter_eq_nil_iff]
    intro d hd hparen
    simp only [isParen, Bool.or_eq_true, beq_iff_eq] at hparen
    exact (h d hd).2 (by rcases hparen with rfl | rfl <;> simp)
  · rw [houter]
    exact fun hmem => (h _ hmem).2 (by simp)

theorem isStep_paren {p : Piece} (hc : isParen c = true) (hp : Piece.parens [p] = [c]) :
    IsStep (c :: rest) [c] ⟨[p], rest, true⟩ := by
  have hchar : next outside c = outside ∧ c ≠ ']' := by
    simp only [isParen, Bool.or_eq_true, beq_iff_eq] at hc
    rcases hc with rfl | rfl <;> decide
  obtain ⟨houter, hafter⟩ := Passes.opened hchar.1 passes_nil
  refine ⟨rfl, List.cons_ne_nil c [], ?_, ?_, .inl hafter⟩
  · rw [houter, hp, List.filter_cons_of_pos hc, List.filter_nil]
  · rw [houter]
    exact List.mem_singleton.not.mpr hchar.2.symm

theorem isStep_enclosed {place last : Enclosure} {inside : List Char}
    (hc : isParen c = false ∧ c ≠ ']') (hps : Piece.parens ps = [])
    (hnext : next outside c = place) (hpasses : place.Passes inside last)
    (hlast : last = outside ∨ rest = [] ∧ last ≠ brackets) :
    IsStep (c :: (inside ++ rest)) (c :: inside) ⟨ps, rest, closed⟩ := by
  obtain ⟨houter, hafter⟩ := Passes.opened hnext hpasses
  refine ⟨rfl, List.cons_ne_nil c inside, ?_, ?_, ?_⟩
  · rw [houter, hps, List.filter_cons_of_neg (by simp [hc.1]), List.filter_nil]
  · rw [houter]
    exact List.mem_singleton.not.mpr hc.2.symm
  · rw [hafter]
    exact hlast

/-- The text in brackets before the first closing one. -/
theorem takeWhile_bracket {d : Char} (h : cs.dropWhile (· != ']') = d :: rest) :
    ']' ∉ cs.takeWhile (· != ']') ∧ cs = cs.takeWhile (· != ']') ++ [']'] ++ rest := by
  have hd : d = ']' := by
    have hfirst := List.head?_dropWhile_not (· != ']') cs
    rw [h] at hfirst
    simpa using hfirst
  refine ⟨fun hmem => by simpa using List.all_eq_true.mp List.all_takeWhile _ hmem, ?_⟩
  rw [List.append_assoc, List.singleton_append, ← hd, hd, ← h.trans (congrArg (· :: rest) hd),
    List.takeWhile_append_dropWhile]

theorem isStep_blanks (h : isBlank c = true) : IsStep (c :: cs) (c :: cs.takeWhile isBlank)
    ⟨[.space (c :: cs.takeWhile isBlank)], cs.dropWhile isBlank, closed⟩ := by
  have hchars : ∀ d ∈ c :: cs.takeWhile isBlank, IsPlainChar d :=
    List.forall_mem_cons.mpr ⟨isPlainChar_of_blank h, fun d hd =>
      isPlainChar_of_blank (List.all_eq_true.mp List.all_takeWhile d hd)⟩
  have hstep := @isStep_plain (cs.dropWhile isBlank) [.space (c :: cs.takeWhile isBlank)] closed _
    (List.cons_ne_nil _ _) hchars rfl
  rwa [List.cons_append, List.takeWhile_append_dropWhile] at hstep

theorem exists_isStep_quoted (h : isQuoteMark c = true) (s : List Char) :
    ∃ taken, IsStep (c :: cs) taken ⟨[.quoted s], (quotedRun c cs).rest, closed⟩ := by
  obtain ⟨inside, last, htext, hpasses, hlast⟩ := quotedRun_passes c cs
  have hc : isParen c = false ∧ c ≠ ']' := by
    simp only [isQuoteMark, Bool.or_eq_true, beq_iff_eq] at h
    rcases h with rfl | rfl <;> decide
  have hlast' : last = outside ∨ (quotedRun c cs).rest = [] ∧ last ≠ brackets := by
    refine hlast.imp_right fun hend => ⟨hend.1, ?_⟩
    rintro rfl
    rcases hend.2 with hquotes | hescape
    · cases hquotes
    · cases hescape
  have hstep := @isStep_enclosed c _ [.quoted s] closed _ _ _ hc rfl (if_pos h) hpasses hlast'
  rw [← htext] at hstep
  exact ⟨_, hstep⟩

theorem exists_isStep_bracketed {d : Char} (h : cs.dropWhile (· != ']') = d :: rest)
    (name : List Char) : ∃ taken, IsStep ('[' :: cs) taken ⟨[bracketPiece name], rest, closed⟩ := by
  obtain ⟨hname, htext⟩ := takeWhile_bracket h
  have hclosed : brackets.Passes [']'] outside := ⟨rfl, rfl⟩
  have hstep := @isStep_enclosed '[' rest [bracketPiece name] closed _ _ _ (by decide)
    (parens_bracketPiece name) rfl ((passes_brackets hname).append hclosed) (.inl rfl)
  rw [← htext] at hstep
  exact ⟨_, hstep⟩

theorem exists_isStep_word (h : IsPlainChar c) (w : List Char) : ∃ taken, IsStep (c :: cs) taken
    ⟨[.word w], cs.drop (cs.takeWhile fun d => !endsWord d).length, closed⟩ := by
  have hchars : ∀ d ∈ c :: cs.takeWhile fun d => !endsWord d, IsPlainChar d :=
    List.forall_mem_cons.mpr ⟨h, fun d hd =>
      isPlainChar_of_inside (by simpa using List.all_eq_true.mp List.all_takeWhile d hd)⟩
  have htail := List.prefix_iff_eq_append.mp (List.takeWhile_prefix (l := cs) fun d => !endsWord d)
  have hstep := @isStep_plain (cs.drop (cs.takeWhile fun d => !endsWord d).length) [.word w]
    closed _ (List.cons_ne_nil _ _) hchars rfl
  rw [List.cons_append, htail] at hstep
  exact ⟨_, hstep⟩

/-- No step starts with a closing bracket, nor with an opening one that nothing closes. -/
def IsRefused (c : Char) (cs : List Char) : Prop :=
  c = ']' ∨ c = '[' ∧ ']' ∉ cs

/-- A step takes a part of the text and leaves the rest as it is, or is refused at a bracket. -/
theorem readPiece_cases (c : Char) (cs : List Char) :
    match readPiece c cs with
    | none => IsRefused c cs
    | some r => ∃ taken, IsStep (c :: cs) taken r := by
  fun_cases readPiece c cs with
  | case1 hblank => exact ⟨_, isStep_blanks hblank⟩
  | case2 _ hmark => exact exists_isStep_quoted hmark _
  | case3 _ _ hopen hrest =>
    rw [List.dropWhile_eq_nil_iff] at hrest
    exact .inr ⟨hopen, fun hmem => by simpa using hrest _ hmem⟩
  | case4 _ _ hopen d rest hrest => exact hopen ▸ exists_isStep_bracketed hrest _
  | case5 _ _ _ hclose => exact .inl hclose
  | case6 _ _ _ _ hparen => exact ⟨[c], isStep_paren (by simp [isParen, hparen]) (hparen ▸ rfl)⟩
  | case7 _ _ _ _ _ hparen => exact ⟨[c], isStep_paren (by simp [isParen, hparen]) (hparen ▸ rfl)⟩
  | case8 _ _ _ _ _ _ op rest hsign =>
    obtain ⟨sign, htext, hne, hchars⟩ := readComparison_text hsign
    exact ⟨sign, htext ▸ isStep_plain hne hchars rfl⟩
  | case9 _ _ _ _ _ _ _ hnot =>
    have hc : IsPlainChar c := hnot ▸ by decide
    exact ⟨[c], isStep_plain (List.cons_ne_nil c []) (by simpa using hc) rfl⟩
  | case10 _ hmark hopen hclose hparen hparen' =>
    exact exists_isStep_word (by simp [IsPlainChar, hmark, hopen, hclose, hparen, hparen']) _

end Step

/-- A text is read step by step, up to its end or a bracket that is refused. -/
theorem pieces_induction {P : List Char → Prop} (nil : P [])
    (stuck : ∀ c cs, readPiece c cs = none → IsRefused c cs → P (c :: cs))
    (step : ∀ c cs r taken, readPiece c cs = some r → IsStep (c :: cs) taken r → P r.rest →
      P (c :: cs)) (cs : List Char) : P cs := by
  induction cs using pieces.induct with
  | case1 => exact nil
  | case2 c cs h =>
    have hrefused := readPiece_cases c cs
    rw [h] at hrefused
    exact stuck c cs h hrefused
  | case3 c cs r h ih =>
    have hstep := readPiece_cases c cs
    rw [h] at hstep
    obtain ⟨taken, hstep⟩ := hstep
    exact step c cs r taken h hstep ih

theorem pieces_nil : pieces [] = some ([], true) := by
  rw [pieces.eq_def]

theorem pieces_stuck {c : Char} {cs : List Char} (h : readPiece c cs = none) :
    pieces (c :: cs) = none := by
  rw [pieces.eq_def]
  simp only
  split
  next => rfl
  next r hr =>
    rw [h] at hr
    cases hr

/-- The steps that read a text, with what each takes and gives, up to what is left. -/
inductive Reading : List Char → List (List Char × List Piece) → List Char → Prop
  | stop (cs : List Char) : Reading cs [] cs
  | step {c : Char} {cs taken rest : List Char} {r : ReadPiece}
      {parts : List (List Char × List Piece)} (read : readPiece c cs = some r)
      (text : c :: cs = taken ++ r.rest) (ne : taken ≠ []) (others : Reading r.rest parts rest) :
      Reading (c :: cs) ((taken, r.pieces) :: parts) rest

namespace Reading

variable {cs rest : List Char} {parts : List (List Char × List Piece)}

/-- The steps take the text part by part, and no more of it than there is. -/
theorem text (h : Reading cs parts rest) : cs = parts.flatMap (·.1) ++ rest := by
  induction h with
  | stop => rfl
  | step _ text _ _ ih => rw [text, ih, List.flatMap_cons, List.append_assoc]

theorem length_le (h : Reading cs parts rest) : parts.length ≤ cs.length := by
  induction h with
  | stop => exact Nat.zero_le _
  | step _ text ne _ ih =>
    have hpos := List.length_pos_iff.mpr ne
    rw [text, List.length_append, List.length_cons]
    omega

end Reading

/-- The steps come to the end of a text, or to a bracket that is refused. -/
theorem exists_reading (cs : List Char) :
    ∃ parts rest, Reading cs parts rest ∧
      (rest = [] ∧ (∃ closed, pieces cs = some (parts.flatMap (·.2), closed)) ∨
        (∃ c after, rest = c :: after ∧ IsRefused c after) ∧ pieces cs = none) := by
  induction cs using pieces_induction with
  | nil => exact ⟨[], [], .stop [], .inl ⟨rfl, true, pieces_nil⟩⟩
  | stuck c cs h hrefused =>
    exact ⟨[], _, .stop _, .inr ⟨⟨c, cs, rfl, hrefused⟩, pieces_stuck h⟩⟩
  | step c cs r taken h hstep ih =>
    obtain ⟨parts, rest, hreading, hend⟩ := ih
    refine ⟨_, rest, .step h hstep.text hstep.ne hreading, ?_⟩
    rcases hend with ⟨hrest, closed, hpieces⟩ | ⟨hrest, hpieces⟩
    · exact .inl ⟨hrest, _, by rw [pieces_cons h, hpieces]; rfl⟩
    · exact .inr ⟨hrest, by rw [pieces_cons h, hpieces]; rfl⟩

end TrialLoop
