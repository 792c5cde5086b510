import TrialLoop.Number.FloatText
import TrialLoop.Text.Shown

namespace TrialLoop

/-- The tokens of an expression. -/
inductive Token where
  | int (n : Int64)
  | float (x : Float)
  | str (s : String)
  | name (s : String)
  | plus | minus | star | starStar | slash | slashSlash | percent
  | eq | ne | lt | le | gt | ge
  | and | or | not
  | dot | comma | openParen | closeParen | openBracket | closeBracket
  /-- A character that starts no token. -/
  | unknown (c : Char)

/-- The token as a message shows it. -/
def Token.shown : Token → String
  | int n => "Int(" ++ intText n.toInt ++ ")"
  | float x => "Float(" ++ floatText .token x ++ ")"
  | str s => "Str(" ++ shownText s ++ ")"
  | name s => "Ident(" ++ shownText s ++ ")"
  | plus => "Plus"
  | minus => "Minus"
  | star => "Star"
  | starStar => "StarStar"
  | slash => "Slash"
  | slashSlash => "SlashSlash"
  | percent => "Percent"
  | eq => "Eq"
  | ne => "Ne"
  | lt => "Lt"
  | le => "Le"
  | gt => "Gt"
  | ge => "Ge"
  | and => "And"
  | or => "Or"
  | not => "Not"
  | dot => "Dot"
  | comma => "Comma"
  | openParen => "LParen"
  | closeParen => "RParen"
  | openBracket => "LBracket"
  | closeBracket => "RBracket"
  | unknown c => "Unknown(" ++ shownMark c ++ ")"

/-- The next token as a message shows it, or the end. -/
def shownNext : List Token → String
  | [] => "Eof"
  | t :: _ => t.shown

end TrialLoop
