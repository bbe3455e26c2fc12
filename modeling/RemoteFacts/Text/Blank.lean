/-!
# Blanks

* `Blank.ranges` : the characters with the Unicode property White_Space;
* `isBlank` : membership of a character;
* `trimChars` : the characters of a text without the blanks at its two ends.
-/

namespace RemoteFacts.Text

/-- First and last character of each range of blanks. -/
def Blank.ranges : List (Nat × Nat) := [
  (0x9, 0xD), (0x20, 0x20), (0x85, 0x85), (0xA0, 0xA0), (0x1680, 0x1680), (0x2000, 0x200A),
  (0x2028, 0x2029), (0x202F, 0x202F), (0x205F, 0x205F), (0x3000, 0x3000)]

/-- A character with the Unicode property White_Space. -/
def isBlank (c : Char) : Bool :=
  Blank.ranges.any fun r => decide (r.1 ≤ c.toNat) && decide (c.toNat ≤ r.2)

/-- The characters of a text without the blanks at its two ends. -/
def trimChars (cs : List Char) : List Char :=
  ((cs.dropWhile isBlank).reverse.dropWhile isBlank).reverse

end RemoteFacts.Text
