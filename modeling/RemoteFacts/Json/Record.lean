import RemoteFacts.Json

/-!
# Reading records from JSON values

* `Json.record?` : the fields of a record, from an object by name or from an array by position;
* `Json.text?`, `Json.bool?`, `Json.intWithin?`, `Json.list?`, `Json.map?` : strict readers of leaves and
  collections;
* `Json.orDefault` : a field that may be left out.

Unknown fields are passed over. An array may leave out fields at its end, and holds no more than the record.
-/

namespace RemoteFacts.Json

/-- The fields of a record with these names, where they are given. -/
def record? (names : List String) : Json → Option (List (Option Json))
  | object fields => some (names.map fun name => fields.lookup name)
  | array items =>
    if items.length ≤ names.length then
      some (items.map some ++ List.replicate (names.length - items.length) none)
    else none
  | _ => none

/-- The text of a string. -/
def text? : Json → Option String
  | text s => some s
  | _ => none

/-- The truth value of a boolean. -/
def bool? : Json → Option Bool
  | bool b => some b
  | _ => none

/-- A whole number between two bounds. -/
def intWithin? (low high : Int) : Json → Option Int
  | int n => if low ≤ n ∧ n ≤ high then some n else none
  | _ => none

/-- A whole number from zero up to a bound. -/
def natUpTo? (high : Nat) : Json → Option Nat
  | int n => if 0 ≤ n ∧ n ≤ high then some n.toNat else none
  | _ => none

/-- The items of an array, each read by `item?`. -/
def list? {α : Type} (item? : Json → Option α) : Json → Option (List α)
  | array items => items.mapM item?
  | _ => none

/-- The fields of an object, each value read by `item?`. -/
def map? {α : Type} (item? : Json → Option α) : Json → Option (List (String × α))
  | object fields => fields.mapM fun f => (item? f.2).map (f.1, ·)
  | _ => none

/-- A value that may be `null`. -/
def nullable? {α : Type} (item? : Json → Option α) : Json → Option (Option α)
  | null => some none
  | v => (item? v).map some

/-- A field that stands for `default` when it is left out. -/
def orDefault {α : Type} (default : α) (item? : Json → Option α) : Option Json → Option α
  | none => some default
  | some v => item? v

end RemoteFacts.Json
