/-!
Texts as UTF-8 bytes: the part of a text between two byte offsets, and reading bytes that need not
be well formed.
-/

namespace DiceScript.Text

/-- The bytes of a text. -/
def bytes (cs : List Char) : List UInt8 := cs.flatMap String.utf8EncodeChar

/-- The number of bytes of a text. -/
def size (cs : List Char) : Nat := cs.foldr (fun c n => c.utf8Size + n) 0

/-- The byte of a text that a number of bytes stand in front of. -/
def byteAt? : List Char → Nat → Option UInt8
  | [], _ => none
  | c :: cs, n =>
    if n < c.utf8Size then (String.utf8EncodeChar c)[n]? else byteAt? cs (n - c.utf8Size)

/-- What follows the first `n` bytes, if they are whole characters. -/
def dropBytes? : Nat → List Char → Option (List Char)
  | 0, cs => some cs
  | _ + 1, [] => none
  | n + 1, c :: cs => if c.utf8Size ≤ n + 1 then dropBytes? (n + 1 - c.utf8Size) cs else none

/-- The first `n` bytes, if they are whole characters. -/
def takeBytes? : Nat → List Char → Option (List Char)
  | 0, _ => some []
  | _ + 1, [] => none
  | n + 1, c :: cs =>
    if c.utf8Size ≤ n + 1 then (takeBytes? (n + 1 - c.utf8Size) cs).map (c :: ·) else none

/-- The text between two byte offsets, empty when one of them splits a character. -/
def slice (cs : List Char) (first last : Nat) : List Char :=
  ((dropBytes? first cs).bind (takeBytes? (last - first))).getD []

/-! ## Reading bytes -/

/-- What stands for bytes that encode no character. -/
def replacement : Char := Char.ofNat 0xFFFD

/-- Whether a byte continues a character. -/
def isContinuation (b : UInt8) : Bool := 0x80 ≤ b && b ≤ 0xBF

/-- Whether `b` may follow `lead` as the second byte of a character of three bytes. -/
def secondOfThree (lead b : UInt8) : Bool :=
  if lead = 0xE0 then 0xA0 ≤ b && b ≤ 0xBF
  else if lead = 0xED then 0x80 ≤ b && b ≤ 0x9F
  else isContinuation b

/-- Whether `b` may follow `lead` as the second byte of a character of four bytes. -/
def secondOfFour (lead b : UInt8) : Bool :=
  if lead = 0xF0 then 0x90 ≤ b && b ≤ 0xBF
  else if lead = 0xF4 then 0x80 ≤ b && b ≤ 0x8F
  else isContinuation b

/-- The character with the given lead bits followed by six bits from each continuation byte. -/
def joinBits (lead : Nat) (continuation : List UInt8) : Char :=
  Char.ofNat (continuation.foldl (fun code b => code * 64 + b.toNat % 64) lead)

/-- Reads bytes as text. Each longest run of bytes that begins a character without completing it,
and each byte that begins none, reads as one replacement character. -/
def decodeLossy : List UInt8 → List Char
  | [] => []
  | b :: r₁ =>
    if b < 0x80 then Char.ofNat b.toNat :: decodeLossy r₁
    else if 0xC2 ≤ b && b ≤ 0xDF then
      match r₁ with
      | [] => [replacement]
      | b₁ :: r₂ =>
        if isContinuation b₁ then joinBits (b.toNat % 32) [b₁] :: decodeLossy r₂
        else replacement :: decodeLossy (b₁ :: r₂)
    else if 0xE0 ≤ b && b ≤ 0xEF then
      match r₁ with
      | [] => [replacement]
      | b₁ :: r₂ =>
        if secondOfThree b b₁ then
          match r₂ with
          | [] => [replacement]
          | b₂ :: r₃ =>
            if isContinuation b₂ then joinBits (b.toNat % 16) [b₁, b₂] :: decodeLossy r₃
            else replacement :: decodeLossy (b₂ :: r₃)
        else replacement :: decodeLossy (b₁ :: r₂)
    else if 0xF0 ≤ b && b ≤ 0xF4 then
      match r₁ with
      | [] => [replacement]
      | b₁ :: r₂ =>
        if secondOfFour b b₁ then
          match r₂ with
          | [] => [replacement]
          | b₂ :: r₃ =>
            if isContinuation b₂ then
              match r₃ with
              | [] => [replacement]
              | b₃ :: r₄ =>
                if isContinuation b₃ then
                  joinBits (b.toNat % 8) [b₁, b₂, b₃] :: decodeLossy r₄
                else replacement :: decodeLossy (b₃ :: r₄)
            else replacement :: decodeLossy (b₂ :: r₃)
        else replacement :: decodeLossy (b₁ :: r₂)
    else replacement :: decodeLossy r₁

end DiceScript.Text
