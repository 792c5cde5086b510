import TrialLoop.Condition.Basic
import TrialLoop.Proofs.Number.IntText

namespace TrialLoop

/-- The words that conditions and expressions take for operators. -/
def operatorWords : List (List Char) :=
  ["and".toList, "or".toList, "not".toList]

def IsVariableName (n : List Char) : Prop :=
  (∃ c cs, n = c :: cs ∧ (c.isAlpha ∨ c = '_') ∧ ∀ d ∈ cs, isNameChar d = true) ∧
    n ∉ operatorWords

/-- A word that is neither a number nor an operator, without backslashes. -/
structure IsBareWord (w : List Char) : Prop where
  ne_nil : w ≠ []
  plain : ∀ c ∈ w, endsWord c = false ∧ c ≠ '\\'
  not_number : Value.readNumber? (String.ofList w) = none
  not_operator : w ∉ operatorWords

/-- A character between quote marks. -/
inductive QuotedChar (mark : Char) where
  | plain (c : Char) (h : c ≠ '\\' ∧ c ≠ mark)
  | escape (c : Char)

namespace QuotedChar

variable {mark : Char}

def text : QuotedChar mark → List Char
  | plain c _ => [c]
  | escape c => ['\\', c]

def value : QuotedChar mark → List Char
  | plain c _ => [c]
  | escape c => unescaped c

end QuotedChar

/-- What conditions compare. -/
inductive Operand where
  | name (n : List Char) (h : IsVariableName n)
  | integer (negative : Bool) (ds : List Char)
      (h : ds ≠ [] ∧ (∀ d ∈ ds, d.isDigit = true) ∧ digitsValue ds < 2 ^ 63)
  | word (w : List Char) (h : IsBareWord w)
  | quoted (mark : Char) (h : isQuoteMark mark = true) (cs : List (QuotedChar mark))
  /-- A text between brackets that is not made of name characters alone. -/
  | bracketed (s : List Char) (h : ']' ∉ s ∧ ¬(s ≠ [] ∧ s.all isNameChar = true))

namespace Operand

def text : Operand → List Char
  | name n _ => '[' :: n ++ [']']
  | integer negative ds _ => signedDigits negative ds
  | word w _ => w
  | quoted mark _ cs => mark :: cs.flatMap QuotedChar.text ++ [mark]
  | bracketed s _ => '[' :: s ++ [']']

/-- The magnitude of an integer, which a word of 64 bits holds. -/
def magnitude (ds : List Char) : Int64 :=
  Int64.ofInt (digitsValue ds)

def expr : Operand → Expr
  | name n _ => .member (.name "var") (String.ofList n)
  | integer false ds _ => .literal (.int (magnitude ds))
  | integer true ds _ => .unary .neg (.literal (.int (magnitude ds)))
  | word w _ => .literal (.str (String.ofList w))
  | quoted _ _ cs => .literal (.str (String.ofList (cs.flatMap QuotedChar.value)))
  | bracketed s _ => .literal (.str (String.ofList ('[' :: s ++ [']'])))

end Operand

/-- The signs of comparisons. -/
inductive Sign where
  | single | double | ne | lessGreater | lt | le | gt | ge

namespace Sign

def text : Sign → List Char
  | single => ['=']
  | double => ['=', '=']
  | ne => ['!', '=']
  | lessGreater => ['<', '>']
  | lt => ['<']
  | le => ['<', '=']
  | gt => ['>']
  | ge => ['>', '=']

def comparison : Sign → Comparison
  | single | double => .eq
  | ne | lessGreater => .ne
  | lt => .lt
  | le => .le
  | gt => .gt
  | ge => .ge

end Sign

/-- The parts of a condition between which a space stands, with comparisons as wholes. -/
inductive Part where
  | comparison (left : Operand) (sign : Sign) (right : Operand)
  | not | and | or | openParen | closeParen

def Part.text : Part → List Char
  | comparison left sign right => left.text ++ ' ' :: sign.text ++ ' ' :: right.text
  | not => "not".toList
  | and => "and".toList
  | or => "or".toList
  | openParen => ['(']
  | closeParen => [')']

/-- A text with a space between each two parts. -/
def spaced (words : List (List Char)) : List Char :=
  [' '].intercalate words

/-- The conditions of comparisons, by the level of their last operator. -/
inductive Written : Level → Type where
  | comparison (left : Operand) (sign : Sign) (right : Operand) : Written .not
  | group (c : Written .or) : Written .not
  | not (c : Written .not) : Written .not
  | single (c : Written .not) : Written .and
  | and (left : Written .and) (right : Written .not) : Written .and
  | clause (c : Written .and) : Written .or
  | or (left : Written .or) (right : Written .and) : Written .or

namespace Written

def parts {l : Level} : Written l → List Part
  | comparison left sign right => [.comparison left sign right]
  | group c => .openParen :: c.parts ++ [.closeParen]
  | not c => .not :: c.parts
  | single c => c.parts
  | and left right => left.parts ++ .and :: right.parts
  | clause c => c.parts
  | or left right => left.parts ++ .or :: right.parts

def text {l : Level} (c : Written l) : List Char :=
  spaced (c.parts.map Part.text)

example (h : IsVariableName ['x']) (h' : IsBareWord ['y']) :
    (group (.clause (.single (.not (.comparison (.name ['x'] h) .single (.word ['y'] h')))))).text =
      "( not [x] = y )".toList := rfl

/-- The expression with the same structure. -/
def expr {l : Level} : Written l → Expr
  | comparison left sign right => .compare left.expr [(sign.comparison, right.expr)]
  | group c => c.expr
  | not c => .unary .not c.expr
  | single c => c.expr
  | and left right => .and left.expr right.expr
  | clause c => c.expr
  | or left right => .or left.expr right.expr

end Written

end TrialLoop
