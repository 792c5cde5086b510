import TrialLoop.Text.Blank
import TrialLoop.Text.Letter
import TrialLoop.Text.Quoted
import TrialLoop.Value.Operator

namespace TrialLoop

/-- The parts of a condition. -/
inductive Piece where
  | space (s : List Char)
  /-- A text between quote marks, with the marks. -/
  | quoted (s : List Char)
  /-- A text between brackets that is no name, with the brackets. -/
  | literal (s : List Char)
  | name (n : List Char)
  | comparison (op : Comparison)
  | openParen
  | closeParen
  | word (s : List Char)

/-- The characters that end a word. -/
def endsWord (c : Char) : Bool :=
  isBlank c || isQuoteMark c || "[]()=!<>".toList.contains c

/-- What a quote mark opens: the text up to its end, what follows, and whether it was closed. -/
structure QuotedRun where
  text : List Char
  rest : List Char
  closed : Bool

def QuotedRun.prepend (cs : List Char) (run : QuotedRun) : QuotedRun :=
  { run with text := cs ++ run.text }

/--
The text after a quote mark up to the same mark, which is added if it is missing. A backslash takes
the character after it along, and itself if there is none.
-/
def quotedRun (mark : Char) : List Char → QuotedRun
  | [] => ⟨[mark], [], false⟩
  | '\\' :: cs =>
    match cs with
    | [] => ⟨['\\', '\\', mark], [], false⟩
    | c :: cs => (quotedRun mark cs).prepend ['\\', c]
  | c :: cs => if c = mark then ⟨[mark], cs, true⟩ else (quotedRun mark cs).prepend [c]

/-- A comparison that a text starts with, and what follows it. -/
def readComparison : List Char → Option (Comparison × List Char)
  | '=' :: '=' :: cs => some (.eq, cs)
  | '=' :: cs => some (.eq, cs)
  | '!' :: '=' :: cs => some (.ne, cs)
  | '<' :: '=' :: cs => some (.le, cs)
  | '<' :: '>' :: cs => some (.ne, cs)
  | '<' :: cs => some (.lt, cs)
  | '>' :: '=' :: cs => some (.ge, cs)
  | '>' :: cs => some (.gt, cs)
  | _ => none

/-- The text between two brackets, as a variable if it is a name. -/
def bracketPiece (name : List Char) : Piece :=
  if name ≠ [] ∧ name.all isNameChar then .name name else .literal ('[' :: name ++ [']'])

/-- The pieces that a character starts, what follows, and whether no quote was left open. -/
structure ReadPiece where
  pieces : List Piece
  rest : List Char
  closed : Bool := true

/-- The pieces that a character starts; none if a bracket is open or closed alone. -/
def readPiece (c : Char) (cs : List Char) : Option ReadPiece :=
  if isBlank c then some ⟨[.space (c :: cs.takeWhile isBlank)], cs.dropWhile isBlank, true⟩
  else if isQuoteMark c then
    let run := quotedRun c cs
    some ⟨[.quoted (c :: run.text)], run.rest, run.closed⟩
  else if c = '[' then
    match cs.dropWhile (· != ']') with
    | [] => none
    | _ :: rest => some ⟨[bracketPiece (cs.takeWhile (· != ']'))], rest, true⟩
  else if c = ']' then none
  else if c = '(' then some ⟨[.openParen], cs, true⟩
  else if c = ')' then some ⟨[.closeParen], cs, true⟩
  else
    match readComparison (c :: cs) with
    | some (op, rest) => some ⟨[.comparison op], rest, true⟩
    | none =>
      if c = '!' then some ⟨[.word "not".toList, .space [' ']], cs, true⟩
      else
        let tail := cs.takeWhile fun d => !endsWord d
        some ⟨[.word (c :: tail)], cs.drop tail.length, true⟩

theorem quotedRun_length (mark : Char) (cs : List Char) :
    (quotedRun mark cs).rest.length ≤ cs.length := by
  fun_induction quotedRun mark cs with
  | case1 => simp
  | case2 => simp
  | case3 c cs ih => simp only [QuotedRun.prepend, List.length_cons]; omega
  | case4 => simp
  | case5 c cs _ _ ih => simp only [QuotedRun.prepend, List.length_cons]; omega

theorem readComparison_length {c : Char} {cs rest : List Char} {op : Comparison}
    (h : readComparison (c :: cs) = some (op, rest)) : rest.length ≤ cs.length := by
  unfold readComparison at h
  split at h <;> simp_all

theorem readPiece_length {c : Char} {cs : List Char} {r : ReadPiece}
    (h : readPiece c cs = some r) : r.rest.length ≤ cs.length := by
  unfold readPiece at h
  split at h
  · cases Option.some.inj h
    exact (List.dropWhile_sublist _).length_le
  split at h
  · cases Option.some.inj h
    exact quotedRun_length c cs
  split at h
  · split at h
    next => cases h
    next d rest hd =>
      cases Option.some.inj h
      have hl := (List.dropWhile_sublist (· != ']') (l := cs)).length_le
      simp only [hd, List.length_cons] at hl
      exact Nat.le_of_succ_le hl
  split at h
  · cases h
  split at h
  · cases Option.some.inj h; exact Nat.le_refl _
  split at h
  · cases Option.some.inj h; exact Nat.le_refl _
  split at h
  next hc => cases Option.some.inj h; exact readComparison_length hc
  next =>
    split at h
    · cases Option.some.inj h; exact Nat.le_refl _
    · cases Option.some.inj h; simp

/-- The pieces of a condition and whether every quote is closed. -/
def pieces (cs : List Char) : Option (List Piece × Bool) :=
  match cs with
  | [] => some ([], true)
  | c :: cs =>
    match _read : readPiece c cs with
    | none => none
    | some r => (pieces r.rest).map fun (ps, closed) => (r.pieces ++ ps, r.closed && closed)
  termination_by cs.length
  decreasing_by
    have := readPiece_length _read
    simp only [List.length_cons]
    omega

end TrialLoop
