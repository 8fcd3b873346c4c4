import DiceScript.Token

/-!
A cursor in the tokens of a script: those already read and those still ahead.
-/

namespace DiceScript

/-- The tokens before the cursor, nearest first, and the tokens after it. -/
structure Cursor where
  before : List Token
  rest : List Token
  deriving Repr

namespace Cursor

/-- A cursor in front of all tokens. -/
def ofTokens (tokens : List Token) : Cursor := ⟨[], tokens⟩

/-- The kind of the token that is some number of tokens ahead; past the last one stands the end. -/
def kindAt (c : Cursor) (distance : Nat) : TokenKind :=
  match c.rest[distance]? with
  | some token => token.kind
  | none => .finish

/-- The kind of the next token. -/
def kind (c : Cursor) : TokenKind := c.kindAt 0

/-- The cursor behind the next token. At the end it stays. -/
def advance (c : Cursor) : Cursor :=
  match c.rest with
  | [] => c
  | token :: rest => ⟨token :: c.before, rest⟩

/-- The cursor some number of tokens further. -/
def skip (c : Cursor) : Nat → Cursor
  | 0 => c
  | n + 1 => c.advance.skip n

/-! ## What messages show -/

/-- A token as a window shows it, where a string has its quotes. -/
def shown (t : Token) : String :=
  if t.kind = .string && !t.text.isEmpty then "\"" ++ t.text ++ "\"" else t.display

/-- The two tokens on either side of the next one, and that one. -/
def window (c : Cursor) : String :=
  let tokens := (c.before.take 2).reverse ++ c.rest.take 3
  String.intercalate " " ((tokens.map shown).filter fun text => !text.isEmpty)

/-! ## Brackets -/

/-- Splits tokens that follow an opening bracket in front of the bracket that closes it. Only
brackets of the one kind are counted, of which `depth` more are open. -/
def splitAtClosing (opening closing : TokenKind) :
    Nat → List Token → Option (List Token × List Token)
  | _, [] => none
  | depth, token :: rest =>
    if token.kind = opening then
      (splitAtClosing opening closing (depth + 1) rest).map fun (inside, after) =>
        (token :: inside, after)
    else if token.kind = closing then
      match depth with
      | 0 => some ([], token :: rest)
      | depth + 1 =>
        (splitAtClosing opening closing depth rest).map fun (inside, after) =>
          (token :: inside, after)
    else
      (splitAtClosing opening closing depth rest).map fun (inside, after) =>
        (token :: inside, after)

/-- A bracketed group: the bracket that opens it, the tokens inside, the bracket that closes it and
the tokens after. -/
structure Group where
  opening : Token
  inside : List Token
  closing : Token
  after : List Token

/-- The group that tokens begin with, if they begin with a bracket that is closed. -/
def groupAt? : List Token → Option Group
  | [] => none
  | opening :: rest => do
    let closingKind ← opening.kind.closing?
    match ← splitAtClosing opening.kind closingKind 0 rest with
    | (inside, closing :: after) => some ⟨opening, inside, closing, after⟩
    | (_, []) => none

/-- Whether the next token of a group's rest is of a kind. -/
def Group.followedBy (g : Group) (kind : TokenKind) : Bool :=
  (g.after.head?.map Token.kind) == some kind

/-- The names between parentheses in front of a function, with a flag that tells whether another
name must follow. Names and commas alternate. -/
def parameters? (nameNext : Bool) : List Token → Option (List String × Bool)
  | [] => some ([], nameNext)
  | token :: rest =>
    if token.kind = .identifier && nameNext then
      (parameters? false rest).map fun (names, dangling) => (token.text :: names, dangling)
    else if token.kind = .comma && !nameNext then parameters? true rest
    else none

end Cursor

end DiceScript
