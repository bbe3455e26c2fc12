/-!
# TOML values

* `Toml` : a value, as a TOML document holds it.
-/

namespace RemoteFacts

/-- A TOML value. -/
inductive Toml where
  | text (s : String)
  | integer (n : Int)
  /-- A number with a fraction or an exponent, an infinity or a not-a-number, as it was written. -/
  | real (literal : String)
  | boolean (b : Bool)
  /-- A date, a time or both, as it was written. -/
  | moment (literal : String)
  | array (items : List Toml)
  | table (fields : List (String × Toml))
  deriving Repr, Inhabited

end RemoteFacts
