/-!
# JSON values

* `Json` : a value, as parameters and results of remote calls carry it;
* `Json.field?` : the value under a key of an object;
* `Json.isNull`.

Whole numbers that fit 64 bits, signed or unsigned, are kept apart from all other numbers: a count is
read from the former only, so that `1.0` and `1e0` are no counts.
-/

namespace RemoteFacts

/-- A JSON value. -/
inductive Json where
  | null
  | bool (b : Bool)
  /-- A number written without fraction and exponent that fits 64 bits. -/
  | int (n : Int)
  /-- Any other number, as it was written. -/
  | real (literal : String)
  | text (s : String)
  | array (items : List Json)
  | object (fields : List (String × Json))
  deriving Repr, Inhabited, BEq

namespace Json

/-- Whether a value is `null`. -/
def isNull : Json → Bool
  | null => true
  | _ => false

/-- The value under a key of an object. -/
def field? (key : String) : Json → Option Json
  | object fields => fields.lookup key
  | _ => none

/-- Sets one field of a list of fields, in its old place if it has one. -/
def setField (key : String) (value : Json) (fields : List (String × Json)) : List (String × Json) :=
  if fields.any (·.1 == key) then fields.map fun f => if f.1 == key then (f.1, value) else f
  else fields ++ [(key, value)]

end Json

end RemoteFacts
