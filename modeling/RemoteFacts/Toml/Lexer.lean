import RemoteFacts.Toml
import RemoteFacts.Width

/-!
# Leaves of TOML text

* `Toml.Lexer.basicString`, `literalString`, `multiBasicString`, `multiLiteralString` : the four kinds of
  strings, after their opening quotes;
* `Toml.Lexer.number?` : a number in decimal or with a radix, a float, an infinity or a not-a-number;
* `Toml.Lexer.moment?` : a date, a time, or both with or without an offset;
* `Toml.Lexer.skipBlank`, `comment?`, `newline?` : what stands between the leaves.

Each reads at the front of a text and gives what it read and the rest.
-/

namespace RemoteFacts.Toml.Lexer

/-! ## Between the leaves -/

/-- The text without the blanks and tabs at its front. -/
def skipBlank (cs : List Char) : List Char := cs.dropWhile fun c => c == ' ' || c == '\t'

/-- The rest of a text after a line break at its front. -/
def newline? : List Char → Option (List Char)
  | '\n' :: rest => some rest
  | '\r' :: '\n' :: rest => some rest
  | _ => none

/-- Whether a character may stand for itself in a comment and between quotes: no control character but the
tab. -/
def isPlain (c : Char) : Bool := c == '\t' || (decide (0x20 ≤ c.toNat) && c.toNat != 0x7F)

/-- The rest of a text after a comment at its front. -/
def comment? : List Char → Option (List Char)
  | '#' :: rest => some (rest.dropWhile isPlain)
  | _ => none

/-! ## Strings -/

/-- The value of a hexadecimal digit. -/
def hexDigit? (c : Char) : Option Nat :=
  if '0' ≤ c ∧ c ≤ '9' then some (c.toNat - '0'.toNat)
  else if 'a' ≤ c ∧ c ≤ 'f' then some (c.toNat - 'a'.toNat + 10)
  else if 'A' ≤ c ∧ c ≤ 'F' then some (c.toNat - 'A'.toNat + 10)
  else none

/-- The character with a number written in hexadecimal digits, if there is one. -/
def scalar? (ds : List Char) : Option Char := do
  let n ← ds.foldlM (fun n c => (hexDigit? c).map (n * 16 + ·)) 0
  if n < 0xD800 ∨ (0xE000 ≤ n ∧ n < 0x110000) then some (Char.ofNat n) else none

/-- The character that an escape after its backslash stands for. -/
def escape? : List Char → Option (Char × List Char)
  | 'b' :: rest => some ('\x08', rest)
  | 't' :: rest => some ('\t', rest)
  | 'n' :: rest => some ('\n', rest)
  | 'f' :: rest => some ('\x0c', rest)
  | 'r' :: rest => some ('\r', rest)
  | '"' :: rest => some ('"', rest)
  | '\\' :: rest => some ('\\', rest)
  | 'u' :: a :: b :: c :: d :: rest => (scalar? [a, b, c, d]).map (·, rest)
  | 'U' :: a :: b :: c :: d :: e :: f :: g :: h :: rest =>
    (scalar? [a, b, c, d, e, f, g, h]).map (·, rest)
  | _ => none

/-- The rest of a string in double quotes; `done` holds the characters read, last first. -/
def basicString : (fuel : Nat) → (done : List Char) → List Char → Option (String × List Char)
  | 0, _, _ => none
  | _, done, '"' :: rest => some (String.ofList done.reverse, rest)
  | fuel + 1, done, '\\' :: rest => do
    let (c, rest) ← escape? rest
    basicString fuel (c :: done) rest
  | fuel + 1, done, c :: rest => if isPlain c then basicString fuel (c :: done) rest else none
  | _, _, [] => none

/-- The rest of a string in single quotes; `done` holds the characters read, last first. -/
def literalString (done : List Char) : List Char → Option (String × List Char)
  | '\'' :: rest => some (String.ofList done.reverse, rest)
  | c :: rest => if isPlain c then literalString (c :: done) rest else none
  | [] => none

/-- The end of a string of several lines, whose last characters may be up to two quotes. -/
def closing? (quote : Char) (done : List Char) : List Char → Option (String × List Char)
  | a :: b :: c :: rest =>
    if a == quote && b == quote && c == quote then
      match rest with
      | d :: e :: rest' =>
        if d == quote && e == quote then
          some (String.ofList (quote :: quote :: done).reverse, rest')
        else if d == quote then some (String.ofList (quote :: done).reverse, e :: rest')
        else some (String.ofList done.reverse, rest)
      | [d] =>
        if d == quote then some (String.ofList (quote :: done).reverse, [])
        else some (String.ofList done.reverse, rest)
      | [] => some (String.ofList done.reverse, rest)
    else none
  | _ => none

/-- Whether only blanks stand before the next line break. -/
def endsLine (cs : List Char) : Bool := (newline? (skipBlank cs)).isSome

/-- The text without the blanks, tabs and line breaks at its front. -/
def skipLines : (fuel : Nat) → List Char → List Char
  | 0, cs => cs
  | fuel + 1, cs =>
    match cs with
    | ' ' :: rest => skipLines fuel rest
    | '\t' :: rest => skipLines fuel rest
    | cs => match newline? cs with
      | some rest => skipLines fuel rest
      | none => cs

/-- The rest of a string of several lines in double quotes. A backslash at the end of a line takes away all
blanks and line breaks after it. -/
def multiBasicString : (fuel : Nat) → (done : List Char) → List Char → Option (String × List Char)
  | 0, _, _ => none
  | fuel + 1, done, cs =>
    match closing? '"' done cs with
    | some result => some result
    | none =>
      match newline? cs with
      | some rest => multiBasicString fuel ('\n' :: done) rest
      | none =>
        match cs with
        | '\\' :: rest =>
          if endsLine rest then multiBasicString fuel done (skipLines rest.length rest)
          else do
            let (c, rest) ← escape? rest
            multiBasicString fuel (c :: done) rest
        | c :: rest => if isPlain c then multiBasicString fuel (c :: done) rest else none
        | [] => none

/-- The rest of a string of several lines in single quotes. -/
def multiLiteralString : (fuel : Nat) → (done : List Char) → List Char → Option (String × List Char)
  | 0, _, _ => none
  | fuel + 1, done, cs =>
    match closing? '\'' done cs with
    | some result => some result
    | none =>
      match newline? cs with
      | some rest => multiLiteralString fuel ('\n' :: done) rest
      | none =>
        match cs with
        | c :: rest => if isPlain c then multiLiteralString fuel (c :: done) rest else none
        | [] => none

/-- A line break at the beginning of a string of several lines is not part of it. -/
def skipFirstLine (cs : List Char) : List Char := (newline? cs).getD cs

/-- A string of any kind. -/
def string? (cs : List Char) : Option (String × List Char) :=
  let fuel := cs.length + 1
  match cs with
  | '"' :: '"' :: '"' :: rest => multiBasicString fuel [] (skipFirstLine rest)
  | '"' :: rest => basicString fuel [] rest
  | '\'' :: '\'' :: '\'' :: rest => multiLiteralString fuel [] (skipFirstLine rest)
  | '\'' :: rest => literalString [] rest
  | _ => none

/-! ## Numbers -/

/-- Digits at the front of a text, between which single underscores may stand. -/
def digits (isDigit : Char → Bool) : List Char → List Char × List Char
  | '_' :: c :: rest =>
    if isDigit c then
      let (ds, rest) := digits isDigit rest
      (c :: ds, rest)
    else ([], '_' :: c :: rest)
  | c :: rest =>
    if isDigit c then
      let (ds, rest) := digits isDigit rest
      (c :: ds, rest)
    else ([], c :: rest)
  | [] => ([], [])

/-- At least one digit, the first without an underscore before it. -/
def digits1? (isDigit : Char → Bool) (cs : List Char) : Option (List Char × List Char) :=
  match cs with
  | c :: _ => if isDigit c then some (digits isDigit cs) else none
  | [] => none

/-- The number that digits in a base write. -/
def natOf (base : Nat) (ds : List Char) : Nat :=
  ds.foldl (fun n c => n * base + (hexDigit? c).getD 0) 0

/-- A whole number, if it fits 64 bits with a sign. -/
def integer? (n : Int) : Option Toml :=
  if Width.minInt64 ≤ n ∧ n ≤ Width.maxInt64 then some (.integer n) else none

/-- A whole number with a radix, after its `0` and letter. -/
def radix? (base : Nat) (isDigit : Char → Bool) (cs : List Char) : Option (Toml × List Char) := do
  let (ds, rest) ← digits1? isDigit cs
  pure (← integer? (natOf base ds), rest)

/-- The integral digits of a decimal number: one zero, or digits that do not begin with one. -/
def whole? : List Char → Option (List Char × List Char)
  | '0' :: rest => some (['0'], rest)
  | cs => digits1? Char.isDigit cs

/-- The fraction of a float, if one follows. -/
def fraction? : List Char → Option (List Char × List Char)
  | '.' :: rest => digits1? Char.isDigit rest
  | rest => some ([], rest)

/-- The exponent of a float, if one follows. -/
def exponent? : List Char → Option (Option Int × List Char)
  | c :: rest =>
    if c == 'e' || c == 'E' then
      let (negative, rest) := match rest with
        | '+' :: rest => (false, rest)
        | '-' :: rest => (true, rest)
        | rest => (false, rest)
      (digits1? Char.isDigit rest).map fun (ds, rest) =>
        let n : Int := natOf 10 ds
        (some (if negative then -n else n), rest)
    else some (none, c :: rest)
  | [] => some (none, [])

/-- Whether the number that `ds` writes, times ten to the power `e`, is too large for a float of 64 bits: it
lies half a unit of the last place or more above the largest. -/
def overflows (ds : List Char) (e : Int) : Bool :=
  let n := natOf 10 ds
  let size : Int := (ds.dropWhile (· == '0')).length + e
  if n = 0 ∨ size < 309 then false
  else if 309 < size then true
  else decide ((Nat.pow 2 1024 - Nat.pow 2 970) * Nat.pow 10 (-e).toNat ≤ n * Nat.pow 10 e.toNat)

/-- A number after its sign. -/
def unsigned? (negative : Bool) (cs : List Char) : Option (Toml × List Char) :=
  match cs with
  | 'i' :: 'n' :: 'f' :: rest => some (.real "inf", rest)
  | 'n' :: 'a' :: 'n' :: rest => some (.real "nan", rest)
  | cs => do
    let (ds, rest) ← whole? cs
    let (frac, rest') ← fraction? rest
    let (expo, rest') ← exponent? rest'
    if frac.isEmpty && expo.isNone then
      let n : Int := natOf 10 ds
      pure (← integer? (if negative then -n else n), rest')
    else if !negative && overflows (ds ++ frac) (expo.getD 0 - frac.length) then none
    else pure (.real (String.ofList (cs.take (cs.length - rest'.length))), rest')

/-- A number. -/
def number? : List Char → Option (Toml × List Char)
  | '0' :: 'x' :: rest => radix? 16 (fun c => (hexDigit? c).isSome) rest
  | '0' :: 'o' :: rest => radix? 8 (fun c => decide ('0' ≤ c ∧ c ≤ '7')) rest
  | '0' :: 'b' :: rest => radix? 2 (fun c => c == '0' || c == '1') rest
  | '+' :: rest => unsigned? false rest
  | '-' :: rest => unsigned? true rest
  | rest => unsigned? false rest

/-! ## Dates and times -/

/-- A number of exactly `n` digits. -/
def fixed? (n : Nat) (cs : List Char) : Option (Nat × List Char) :=
  let ds := cs.take n
  if ds.length = n ∧ ds.all Char.isDigit then some (natOf 10 ds, cs.drop n) else none

/-- A number of two digits between two bounds. -/
def pair? (low high : Nat) (cs : List Char) : Option (List Char) := do
  let (n, rest) ← fixed? 2 cs
  if low ≤ n ∧ n ≤ high then some rest else none

/-- The rest of a text after a character at its front. -/
def after? (c : Char) : List Char → Option (List Char)
  | d :: rest => if c == d then some rest else none
  | [] => none

/-- How many days a month has. -/
def daysIn (year month : Nat) : Nat :=
  match month with
  | 2 => if year % 4 = 0 ∧ (year % 100 ≠ 0 ∨ year % 400 = 0) then 29 else 28
  | 4 | 6 | 9 | 11 => 30
  | _ => 31

/-- The rest of a text after a date. -/
def date? (cs : List Char) : Option (List Char) := do
  let (year, rest) ← fixed? 4 cs
  let rest ← after? '-' rest
  let (month, rest) ← fixed? 2 rest
  let rest ← after? '-' rest
  let (day, rest) ← fixed? 2 rest
  if 1 ≤ month ∧ month ≤ 12 ∧ 1 ≤ day ∧ day ≤ daysIn year month then some rest else none

/-- The rest of a text after a time; a leap second is a second. -/
def time? (cs : List Char) : Option (List Char) := do
  let rest ← pair? 0 23 cs
  let rest ← after? ':' rest
  let rest ← pair? 0 59 rest
  let rest ← after? ':' rest
  let rest ← pair? 0 60 rest
  match rest with
  | '.' :: rest =>
    match rest.span Char.isDigit with
    | ([], _) => none
    | (_, rest) => some rest
  | rest => some rest

/-- The rest of a text after an offset from universal time, if one follows. -/
def offset? : List Char → Option (List Char)
  | 'Z' :: rest => some rest
  | 'z' :: rest => some rest
  | c :: rest =>
    if c == '+' || c == '-' then do
      let rest ← pair? 0 23 rest
      let rest ← after? ':' rest
      pair? 0 59 rest
    else some (c :: rest)
  | [] => some []

/-- Whether a text begins with `n` digits and then `c`. -/
def beginsWith (n : Nat) (c : Char) (cs : List Char) : Bool :=
  (((fixed? n cs).map (·.2)).bind (after? c)).isSome

/-- The rest of a text after the time that belongs to a date, if one follows. -/
def timeOfDate? : List Char → Option (List Char)
  | c :: rest =>
    if (c == 'T' || c == 't' || c == ' ') && beginsWith 2 ':' rest then (time? rest).bind offset?
    else some (c :: rest)
  | [] => some []

/-- Whether a text begins like a date or a time. -/
def looksLikeMoment (cs : List Char) : Bool := beginsWith 4 '-' cs || beginsWith 2 ':' cs

/-- A date, a time, or both. -/
def moment? (cs : List Char) : Option (Toml × List Char) := do
  let rest ← if beginsWith 4 '-' cs then (date? cs).bind timeOfDate? else time? cs
  pure (.moment (String.ofList (cs.take (cs.length - rest.length))), rest)

end RemoteFacts.Toml.Lexer
