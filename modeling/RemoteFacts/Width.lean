/-!
# Whole numbers of a fixed width

* `Width.maxNat32`, `Width.maxNat64` : the largest numbers of 32 and of 64 bits without a sign;
* `Width.minInt32`, `maxInt32`, `minInt64`, `maxInt64` : the bounds of those with a sign.
-/

namespace RemoteFacts.Width

/-- The largest number of 32 bits without a sign. -/
def maxNat32 : Nat := 0xFFFFFFFF

/-- The largest number of 64 bits without a sign. -/
def maxNat64 : Nat := 0xFFFFFFFFFFFFFFFF

/-- The least number of 32 bits with a sign. -/
def minInt32 : Int := -0x80000000

/-- The largest number of 32 bits with a sign. -/
def maxInt32 : Int := 0x7FFFFFFF

/-- The least number of 64 bits with a sign. -/
def minInt64 : Int := -0x8000000000000000

/-- The largest number of 64 bits with a sign. -/
def maxInt64 : Int := 0x7FFFFFFFFFFFFFFF

end RemoteFacts.Width
