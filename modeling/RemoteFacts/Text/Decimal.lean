/-!
# Numbers as users write them

* `Decimal.parse?` : a whole number in decimal digits, with or without a plus, up to a bound.
-/

namespace RemoteFacts.Text.Decimal

/-- The number that decimal digits write; none for an empty list or another character. -/
def digits? (cs : List Char) : Option Nat :=
  if cs.isEmpty then none
  else cs.foldlM (fun n c => if c.isDigit then some (n * 10 + (c.toNat - '0'.toNat)) else none) 0

/-- A whole number up to `high`, in decimal digits after at most one plus. -/
def parse? (high : Nat) (s : String) : Option Nat := do
  let cs := match s.toList with
    | '+' :: cs => cs
    | cs => cs
  let n ← digits? cs
  if n ≤ high then some n else none

end RemoteFacts.Text.Decimal
