import RemoteFacts.Json.Printer
import RemoteFacts.Toml
import RemoteFacts.Width

/-!
# Writing TOML text

* `Toml.Quotes` : the four kinds of quotes a string can have;
* `Toml.Quotes.suits` : whether a text stands well between quotes of a kind, `Toml.Quotes.ofText` the first kind
  that suits it;
* `Toml.Printer.string` : a string in the quotes of its text;
* `Toml.Printer.value?` : a string, a whole number, a truth value or an array of them;
* `Toml.Printer.document?` : a document of sections.

The kinds are tried from the plainest on, and a text that none of them suits has its characters escaped between
double quotes. Between three quotes up to two of them in a row need no escape, even at the end. An array of two
or more items has one item a line. A whole number that does not fit 64 bits with a sign cannot be written.
-/

namespace RemoteFacts.Toml

/-- The kinds of quotes, by the character they are made of and by whether they can hold line breaks. -/
inductive Quotes where
  | double
  | single
  | tripleDouble
  | tripleSingle
  deriving DecidableEq, Repr

namespace Quotes

/-- All kinds, in the order in which they are preferred. -/
def all : List Quotes := [double, single, tripleDouble, tripleSingle]

/-- The mark at both ends of the string. -/
def mark : Quotes → List Char
  | double => ['"']
  | single => ['\'']
  | tripleDouble => ['"', '"', '"']
  | tripleSingle => ['\'', '\'', '\'']

/-- Three quotes, between which a line break can stand. -/
def isTriple (q : Quotes) : Bool := q == tripleDouble || q == tripleSingle

/-- Single quotes, between which there are no escapes. -/
def isLiteral (q : Quotes) : Bool := q == single || q == tripleSingle

/-- The length of the longest row of a character in a text that `n` of them stand before. -/
def longestRow (q : Char) (n : Nat) : List Char → Nat
  | [] => n
  | c :: cs => if c == q then longestRow q (n + 1) cs else max n (longestRow q 0 cs)

/-- A control character that only an escape can show: any but a tab and a line break. -/
def isControl (c : Char) : Bool :=
  (decide (c.toNat < 0x20) && c != '\t' && c != '\n') || c.toNat == 0x7F

/-- Whether a text needs no escape between the quotes, but for a tab. -/
def suits (q : Quotes) (cs : List Char) : Bool :=
  !cs.any isControl && match q with
    | double => !cs.contains '\\' && !cs.contains '"' && !cs.contains '\n'
    | single => !cs.contains '\'' && !cs.contains '\n'
    | tripleDouble => !cs.contains '\\' && decide (longestRow '"' 0 cs ≤ 2)
    | tripleSingle => decide (longestRow '\'' 0 cs ≤ 2)

/-- The quotes of a text: the first kind that suits it, or else double quotes with escapes between them. -/
def ofText (cs : List Char) : Quotes :=
  match all.find? fun q => q.suits cs with
  | some q => q
  | none => if cs.contains '\n' then tripleDouble else double

/-- How many double quotes in a row stand between double quotes without an escape. -/
def bare (q : Quotes) : Nat := if q.isTriple then 2 else 0

/-- A character other than a double quote between double quotes. -/
def escape (q : Quotes) (c : Char) : List Char :=
  match c with
  | '\x08' => ['\\', 'b']
  | '\t' => ['\\', 't']
  | '\n' => if q.isTriple then ['\n'] else ['\\', 'n']
  | '\x0c' => ['\\', 'f']
  | '\r' => ['\\', 'r']
  | '\\' => ['\\', '\\']
  | c =>
    if isControl c then
      ['\\', 'u', '0', '0'] ++ [c.toNat / 16, c.toNat % 16].map fun d => (Json.hexChar d).toUpper
    else [c]

/-- A text between double quotes, after `row` double quotes in a row. -/
def escapeAll (q : Quotes) (row : Nat) : List Char → List Char
  | [] => []
  | c :: cs =>
    if c == '"' then
      if row < q.bare then '"' :: escapeAll q (row + 1) cs else '\\' :: '"' :: escapeAll q 0 cs
    else escape q c ++ escapeAll q 0 cs

/-- A text between the quotes; a text with line breaks begins on a line of its own. -/
def enclose (q : Quotes) (cs : List Char) : List Char :=
  q.mark ++ (if q.isTriple && cs.contains '\n' then ['\n'] else [])
    ++ (if q.isLiteral then cs else q.escapeAll 0 cs) ++ q.mark

end Quotes

namespace Printer

/-- A string in quotes. -/
def string (s : String) : String :=
  String.ofList ((Quotes.ofText s.toList).enclose s.toList)

/-- A value that is no array and no table. -/
def leaf? : Toml → Option String
  | .text s => some (string s)
  | .integer n => if Width.minInt64 ≤ n ∧ n ≤ Width.maxInt64 then some (toString n) else none
  | .boolean b => some (if b then "true" else "false")
  | _ => none

/-- A value that is no table. -/
def value? : Toml → Option String
  | .array items => do
    match ← items.mapM leaf? with
    | [] => some "[]"
    | [item] => some ("[" ++ item ++ "]")
    | items => some ("[\n" ++ String.join (items.map fun item => "    " ++ item ++ ",\n") ++ "]")
  | v => leaf? v

/-- A section: its name, and its fields, one after the other. -/
def section? (name : String) (fields : List (String × Toml)) : Option String := do
  let lines ← fields.mapM fun (key, v) => do pure (key ++ " = " ++ (← value? v) ++ "\n")
  pure ("[" ++ name ++ "]\n" ++ String.join lines)

/-- A document of sections, with an empty line between them. -/
def document? (sections : List (String × List (String × Toml))) : Option String := do
  let sections ← sections.mapM fun (name, fields) => section? name fields
  pure ("\n".intercalate sections)

end Printer

end RemoteFacts.Toml
