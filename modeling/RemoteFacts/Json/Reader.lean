import RemoteFacts.Json
import RemoteFacts.Width

/-!
# Reading JSON text

* `Json.parse?` : the value that a text stands for, if it stands for one;
* `Json.Reader.value` : a value at the front of a text, and the rest;
* `Json.Reader.string`, `Json.Reader.number` : the two kinds of leaves with a grammar of their own.

Of two fields of one object with the same key the later one counts. A surrogate escape is accepted
only as half of a pair. Arrays and objects are not nested without end.
-/

namespace RemoteFacts.Json.Reader

/-- The text without the white space at its front. -/
def skip (cs : List Char) : List Char :=
  cs.dropWhile fun c => c == ' ' || c == '\n' || c == '\r' || c == '\t'

/-- The value of a hexadecimal digit. -/
def hexDigit? (c : Char) : Option Nat :=
  if '0' ≤ c ∧ c ≤ '9' then some (c.toNat - '0'.toNat)
  else if 'a' ≤ c ∧ c ≤ 'f' then some (c.toNat - 'a'.toNat + 10)
  else if 'A' ≤ c ∧ c ≤ 'F' then some (c.toNat - 'A'.toNat + 10)
  else none

/-- The number that digits in base sixteen write. -/
def hex? (cs : List Char) : Option Nat :=
  cs.foldlM (fun n c => (hexDigit? c).map (n * 16 + ·)) 0

/-- The character that a one-letter escape stands for. -/
def escape? : Char → Option Char
  | '"' => some '"'
  | '\\' => some '\\'
  | '/' => some '/'
  | 'b' => some '\x08'
  | 'f' => some '\x0c'
  | 'n' => some '\n'
  | 'r' => some '\r'
  | 't' => some '\t'
  | _ => none

/-- The rest of a string after its opening quote; `done` holds the characters read, last first. -/
def string (done : List Char) : List Char → Option (String × List Char)
  | [] => none
  | '"' :: rest => some (String.ofList done.reverse, rest)
  | '\\' :: 'u' :: a :: b :: c :: d :: rest =>
    match hex? [a, b, c, d] with
    | none => none
    | some n =>
      if 0xD800 ≤ n ∧ n < 0xDC00 then
        match rest with
        | '\\' :: 'u' :: e :: f :: g :: h :: rest =>
          match hex? [e, f, g, h] with
          | none => none
          | some m =>
            if 0xDC00 ≤ m ∧ m < 0xE000 then
              string (Char.ofNat (0x10000 + (n - 0xD800) * 0x400 + (m - 0xDC00)) :: done) rest
            else none
        | _ => none
      else if 0xDC00 ≤ n ∧ n < 0xE000 then none
      else string (Char.ofNat n :: done) rest
  | '\\' :: c :: rest =>
    match escape? c with
    | some c => string (c :: done) rest
    | none => none
  | c :: rest => if c.toNat < 0x20 then none else string (c :: done) rest

/-- The digits at the front of a text, and the rest. -/
def digits (cs : List Char) : List Char × List Char := cs.span Char.isDigit

/-- The number that decimal digits write. -/
def natOfDigits (cs : List Char) : Nat := cs.foldl (fun n c => n * 10 + (c.toNat - '0'.toNat)) 0

/-- The fraction at the front of a text, empty if there is none. -/
def fraction : List Char → Option (List Char × List Char)
  | '.' :: rest =>
    match digits rest with
    | ([], _) => none
    | (ds, rest) => some ('.' :: ds, rest)
  | rest => some ([], rest)

/-- The exponent at the front of a text, empty if there is none. -/
def exponent : List Char → Option (List Char × List Char)
  | e :: rest =>
    if e == 'e' || e == 'E' then
      let (sign, rest) := match rest with
        | '+' :: rest => (['+'], rest)
        | '-' :: rest => (['-'], rest)
        | rest => ([], rest)
      match digits rest with
      | ([], _) => none
      | (ds, rest) => some (e :: sign ++ ds, rest)
    else some ([], e :: rest)
  | [] => some ([], [])

/-- A whole number that fits 64 bits, with a sign or without; `-0` is none. -/
def whole? (negative : Bool) (ds : List Char) : Option Int :=
  let n := natOfDigits ds
  if negative then if 0 < n ∧ Width.minInt64 ≤ -(n : Int) then some (-n) else none
  else if n ≤ Width.maxNat64 then some n else none

/-- A number at the front of a text. -/
def number (cs : List Char) : Option (Json × List Char) := do
  let (negative, body) := match cs with
    | '-' :: rest => (true, rest)
    | rest => (false, rest)
  let (ds, rest) := digits body
  guard (ds == ['0'] || (!ds.isEmpty && ds.head? != some '0'))
  let (frac, rest) ← fraction rest
  let (expo, rest) ← exponent rest
  let sign := if negative then ['-'] else []
  let literal := Json.real (String.ofList (sign ++ ds ++ frac ++ expo))
  if frac.isEmpty && expo.isEmpty then
    pure (((whole? negative ds).map Json.int).getD literal, rest)
  else pure (literal, rest)

/-- No array and no object is nested as deep as this. -/
def depthLimit : Nat := 128

mutual

/-- A value at the front of a text inside `depth` arrays and objects, and the rest; each nested call uses one of
`fuel`. -/
def value (depth fuel : Nat) (cs : List Char) : Option (Json × List Char) :=
  match fuel with
  | 0 => none
  | fuel + 1 =>
    match skip cs with
    | 'n' :: 'u' :: 'l' :: 'l' :: rest => some (.null, rest)
    | 't' :: 'r' :: 'u' :: 'e' :: rest => some (.bool true, rest)
    | 'f' :: 'a' :: 'l' :: 's' :: 'e' :: rest => some (.bool false, rest)
    | '"' :: rest => (string [] rest).map fun (s, rest) => (.text s, rest)
    | '[' :: rest =>
      if depth + 1 < depthLimit then
        match skip rest with
        | ']' :: rest => some (.array [], rest)
        | rest => items (depth + 1) fuel [] rest
      else none
    | '\x7b' :: rest =>
      if depth + 1 < depthLimit then
        match skip rest with
        | '\x7d' :: rest => some (.object [], rest)
        | rest => fields (depth + 1) fuel [] rest
      else none
    | cs => number cs

/-- The items of an array after its opening bracket; `done` holds those read, last first. -/
def items (depth fuel : Nat) (done : List Json) (cs : List Char) : Option (Json × List Char) :=
  match fuel with
  | 0 => none
  | fuel + 1 => do
    let (item, rest) ← value depth fuel cs
    match skip rest with
    | ',' :: rest => items depth fuel (item :: done) rest
    | ']' :: rest => pure (.array (item :: done).reverse, rest)
    | _ => none

/-- The fields of an object after its opening brace; `done` holds those read. -/
def fields (depth fuel : Nat) (done : List (String × Json)) (cs : List Char) :
    Option (Json × List Char) :=
  match fuel with
  | 0 => none
  | fuel + 1 =>
    match skip cs with
    | '"' :: rest => do
      let (key, rest) ← string [] rest
      match skip rest with
      | ':' :: rest =>
        let (item, rest) ← value depth fuel rest
        match skip rest with
        | ',' :: rest => fields depth fuel (setField key item done) rest
        | '\x7d' :: rest => pure (.object (setField key item done), rest)
        | _ => none
      | _ => none
    | _ => none

end

end Reader

/-- The value that a text stands for; nothing but white space may surround it. -/
def parse? (s : String) : Option Json :=
  match Reader.value 0 (s.length + 1) s.toList with
  | some (v, rest) => if (Reader.skip rest).isEmpty then some v else none
  | none => none

end RemoteFacts.Json
