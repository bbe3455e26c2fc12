/-!
# UTF-8

* `Utf8.encode` : the bytes of a text;
* `Utf8.pieces` : the characters that bytes stand for, and one gap for each stretch that stands for none;
* `Utf8.decode?` : the text, if there is no gap;
* `Utf8.decodeLossy` : the text with U+FFFD in each gap.

A gap is as long as a character could still have followed: a leading byte with those of its continuation
bytes that fit, or one byte that can begin no character.
-/

namespace RemoteFacts.Text.Utf8

/-- The bytes of a text. -/
def encode (s : String) : List UInt8 := s.toList.flatMap String.utf8EncodeChar

/-- What the first byte of a character says about the rest: how many bytes follow, and between which two
the next one lies. -/
inductive Lead where
  | alone
  | two
  | three (low high : UInt8)
  | four (low high : UInt8)
  | never
  deriving DecidableEq, Repr

/-- The kind of a first byte. -/
def lead (a : UInt8) : Lead :=
  if a < 0x80 then .alone
  else if a < 0xC2 then .never
  else if a < 0xE0 then .two
  else if a < 0xF0 then
    .three (if a = 0xE0 then 0xA0 else 0x80) (if a = 0xED then 0x9F else 0xBF)
  else if a < 0xF5 then
    .four (if a = 0xF0 then 0x90 else 0x80) (if a = 0xF4 then 0x8F else 0xBF)
  else .never

/-- A byte that continues a character. -/
def isTail (b : UInt8) : Bool := decide (0x80 ≤ b) && decide (b ≤ 0xBF)

/-- The six bits that a continuation byte adds. -/
def tailBits (b : UInt8) : Nat := b.toNat % 64

/-- The characters that bytes stand for; a stretch that stands for none gives one `none`. -/
def pieces : List UInt8 → List (Option Char)
  | [] => []
  | a :: rest =>
    match lead a with
    | .alone => some (Char.ofNat a.toNat) :: pieces rest
    | .never => none :: pieces rest
    | .two =>
      match rest with
      | [] => [none]
      | b :: rest' =>
        if isTail b then some (Char.ofNat (a.toNat % 32 * 64 + tailBits b)) :: pieces rest'
        else none :: pieces (b :: rest')
    | .three low high =>
      match rest with
      | [] => [none]
      | b :: rest' =>
        if low ≤ b ∧ b ≤ high then
          match rest' with
          | [] => [none]
          | c :: rest'' =>
            if isTail c then
              some (Char.ofNat ((a.toNat % 16 * 64 + tailBits b) * 64 + tailBits c)) :: pieces rest''
            else none :: pieces (c :: rest'')
        else none :: pieces (b :: rest')
    | .four low high =>
      match rest with
      | [] => [none]
      | b :: rest' =>
        if low ≤ b ∧ b ≤ high then
          match rest' with
          | [] => [none]
          | c :: rest'' =>
            if isTail c then
              match rest'' with
              | [] => [none]
              | d :: rest''' =>
                if isTail d then
                  some (Char.ofNat
                    (((a.toNat % 8 * 64 + tailBits b) * 64 + tailBits c) * 64 + tailBits d))
                    :: pieces rest'''
                else none :: pieces (d :: rest''')
            else none :: pieces (c :: rest'')
        else none :: pieces (b :: rest')

/-- The text that bytes stand for, if they stand for one. -/
def decode? (bytes : List UInt8) : Option String :=
  (pieces bytes).mapM id |>.map String.ofList

/-- The text that bytes stand for, with U+FFFD wherever they stand for none. -/
def decodeLossy (bytes : List UInt8) : String :=
  String.ofList ((pieces bytes).map fun c => c.getD '\uFFFD')

end RemoteFacts.Text.Utf8
