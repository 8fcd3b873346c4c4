import DiceScript.Source

/-!
Tokens: the words, literals and marks that a script is made of.
-/

namespace DiceScript

/-- The kinds of tokens. Up to `unknown` the text of a token varies, the others have one
spelling. -/
inductive TokenKind
  | identifier
  | integer
  | string
  | stored
  | dice
  | unknown
  | exclamation
  | question
  | pound
  | dollar
  | atSign
  | tilde
  | quote
  | openCurly
  | openParen
  | openSquare
  | closeCurly
  | closeParen
  | closeSquare
  | colon
  | comma
  | dot
  | semicolon
  | plus
  | minus
  | star
  | slash
  | percent
  | caret
  | ampersand
  | bar
  | equal
  | openAngle
  | closeAngle
  | dotDot
  | arrow
  | plusEqual
  | minusEqual
  | starEqual
  | slashEqual
  | percentEqual
  | caretEqual
  | andAnd
  | orOr
  | equalEqual
  | notEqual
  | lessEqual
  | greaterEqual
  | shiftLeft
  | shiftRight
  | diamond
  | shiftRightStar
  | forWord
  | ifWord
  | elseWord
  | finish
  deriving DecidableEq, Repr

namespace TokenKind

/-- Whether the text of such tokens varies. -/
def varies : TokenKind → Bool
  | identifier | integer | string | stored | dice | unknown => true
  | _ => false

/-- The spelling of such tokens, or a description where it varies. -/
def spelling : TokenKind → String
  | identifier => "identifier"
  | integer => "integer"
  | string => "string"
  | stored => "stored expression"
  | dice => "dice"
  | unknown => "unknown character"
  | exclamation => "!"
  | question => "?"
  | pound => "#"
  | dollar => "$"
  | atSign => "@"
  | tilde => "~"
  | quote => "'"
  | openCurly => "\x7b"
  | openParen => "("
  | openSquare => "["
  | closeCurly => "\x7d"
  | closeParen => ")"
  | closeSquare => "]"
  | colon => ":"
  | comma => ","
  | dot => "."
  | semicolon => ";"
  | plus => "+"
  | minus => "-"
  | star => "*"
  | slash => "/"
  | percent => "%"
  | caret => "^"
  | ampersand => "&"
  | bar => "|"
  | equal => "="
  | openAngle => "<"
  | closeAngle => ">"
  | dotDot => ".."
  | arrow => "=>"
  | plusEqual => "+="
  | minusEqual => "-="
  | starEqual => "*="
  | slashEqual => "/="
  | percentEqual => "%="
  | caretEqual => "^="
  | andAnd => "&&"
  | orOr => "||"
  | equalEqual => "=="
  | notEqual => "!="
  | lessEqual => "<="
  | greaterEqual => ">="
  | shiftLeft => "<<"
  | shiftRight => ">>"
  | diamond => "<>"
  | shiftRightStar => ">>*"
  | forWord => "for"
  | ifWord => "if"
  | elseWord => "else"
  | finish => "end of input"

/-- The bracket that closes an opening one. -/
def closing? : TokenKind → Option TokenKind
  | openParen => some closeParen
  | openCurly => some closeCurly
  | openSquare => some closeSquare
  | _ => none

end TokenKind

/-- A token and where it stands. The text of a literal has its delimiters and escapes resolved. -/
structure Token where
  kind : TokenKind
  text : String
  span : Span
  deriving DecidableEq, Repr

/-- The token as messages show it. -/
def Token.display (t : Token) : String :=
  if t.kind = .finish then "" else if t.kind.varies then t.text else t.kind.spelling

end DiceScript
