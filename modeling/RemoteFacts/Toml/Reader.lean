import RemoteFacts.Toml.Lexer

/-!
# Reading TOML documents

* `Toml.Draft` : a value under construction, which may be a table that later lines add to;
* `Draft.assign`, `Draft.openTable`, `Draft.openRow` : what a line `a.b = v`, `[a.b]` or `[[a.b]]` adds;
* `Toml.Reader.value`, `Toml.Reader.line` : a value and a line at the front of a text;
* `Toml.parse?` : the table that a document stands for, if it stands for one.

A key is given once. A table is opened once by a header, and dotted keys add only to tables that dotted keys
have made. Arrays and inline tables are complete where they are written.
-/

namespace RemoteFacts.Toml

/-- How a table came to be. -/
inductive Origin where
  /-- By a header of its own. -/
  | header
  /-- By a header of a table in it. -/
  | path
  /-- By a dotted key. -/
  | dots
  deriving DecidableEq, Repr

/-- A value under construction. -/
inductive Draft where
  | value (v : Toml)
  | table (origin : Origin) (fields : List (String × Draft))
  /-- An array of tables, the one that is added to last. -/
  | rows (tables : List (List (String × Draft)))

namespace Draft

/-- The fields of a table under construction. -/
abbrev Fields := List (String × Draft)

/-- Replaces the value under a key, or adds it at the end. -/
def set (key : String) (d : Draft) (fields : Fields) : Fields :=
  if fields.any (·.1 == key) then fields.map fun f => if f.1 == key then (key, d) else f
  else fields ++ [(key, d)]

/-- Changes the table at the end of a path of headers; tables on the way that do not exist are made. -/
def atPath : List String → (Fields → Option Fields) → Fields → Option Fields
  | [], change, fields => change fields
  | key :: keys, change, fields =>
    match fields.lookup key with
    | none => (atPath keys change []).map fun sub => fields ++ [(key, .table .path sub)]
    | some (.table origin sub) =>
      (atPath keys change sub).map fun sub => set key (.table origin sub) fields
    | some (.rows tables) =>
      match tables.getLast? with
      | some last =>
        (atPath keys change last).map fun last => set key (.rows (tables.dropLast ++ [last])) fields
      | none => none
    | some (.value _) => none

/-- Adds a new key to a table. -/
def addNew (key : String) (d : Draft) (fields : Fields) : Option Fields :=
  if fields.any (·.1 == key) then none else some (fields ++ [(key, d)])

/-- Adds a new key to the table at the end of a dotted path. -/
def assign : List String → (key : String) → (v : Draft) → Fields → Option Fields
  | [], key, v, fields => addNew key v fields
  | step :: steps, key, v, fields =>
    match fields.lookup step with
    | none => (assign steps key v []).map fun sub => fields ++ [(step, .table .dots sub)]
    | some (.table origin sub) =>
      if origin = .header ∨ (steps.isEmpty ∧ origin ≠ .dots) then none
      else (assign steps key v sub).map fun sub => set step (.table origin sub) fields
    | some (.rows tables) =>
      match tables.getLast? with
      | some last =>
        if steps.isEmpty then none
        else (assign steps key v last).map fun last =>
          set step (.rows (tables.dropLast ++ [last])) fields
      | none => none
    | some (.value _) => none

/-- Opens a table by a header. -/
def openTable (path : List String) (key : String) : Fields → Option Fields :=
  atPath path fun fields =>
    match fields.lookup key with
    | none => some (fields ++ [(key, .table .header [])])
    | some (.table .path sub) => some (set key (.table .header sub) fields)
    | some _ => none

/-- Opens one more table of an array of tables. -/
def openRow (path : List String) (key : String) : Fields → Option Fields :=
  atPath path fun fields =>
    match fields.lookup key with
    | none => some (fields ++ [(key, .rows [[]])])
    | some (.rows tables) => some (set key (.rows (tables ++ [[]])) fields)
    | some _ => none

mutual

/-- A value that nothing adds to any more. -/
def finish : Draft → Toml
  | value v => v
  | table _ fields => .table (finishFields fields)
  | rows tables => .array (finishRows tables)

/-- Fields that nothing adds to any more. -/
def finishFields : List (String × Draft) → List (String × Toml)
  | [] => []
  | (k, d) :: fields => (k, finish d) :: finishFields fields

/-- Tables that nothing adds to any more. -/
def finishRows : List (List (String × Draft)) → List Toml
  | [] => []
  | fields :: tables => .table (finishFields fields) :: finishRows tables

end

end Draft

namespace Reader

open Lexer

/-! ## Keys -/

/-- A character of a key without quotes. -/
def isBare (c : Char) : Bool := c.isAlphanum || c == '_' || c == '-'

/-- One key. -/
def simpleKey? (cs : List Char) : Option (String × List Char) :=
  match cs with
  | '"' :: rest => basicString (rest.length + 1) [] rest
  | '\'' :: rest => literalString [] rest
  | cs =>
    match cs.span isBare with
    | ([], _) => none
    | (ds, rest) => some (String.ofList ds, rest)

/-- No path of keys is longer than this, and no value is nested deeper. -/
def depthLimit : Nat := 80

/-- Keys with dots between them; `done` holds those read, last first. -/
def keysFrom? : (fuel : Nat) → (done : List String) → List Char → Option (List String × List Char)
  | 0, _, _ => none
  | fuel + 1, done, cs => do
    let (key, rest) ← simpleKey? (skipBlank cs)
    match skipBlank rest with
    | '.' :: rest => keysFrom? fuel (key :: done) rest
    | rest => pure ((key :: done).reverse, rest)

/-- The path and the last key of a dotted key, and the rest after the blanks that follow. -/
def keys? (cs : List Char) : Option (List String × String × List Char) := do
  let (keys, rest) ← keysFrom? (cs.length + 1) [] cs
  guard (keys.length < depthLimit)
  pure (keys.dropLast, ← keys.getLast?, rest)

/-! ## Values -/

/-- The text without the blanks, line breaks and comments at its front. -/
def skipSpace : (fuel : Nat) → List Char → List Char
  | 0, cs => cs
  | fuel + 1, cs =>
    let cs := skipBlank cs
    match newline? cs with
    | some rest => skipSpace fuel rest
    | none =>
      match comment? cs with
      | some rest => match newline? rest with
        | some rest => skipSpace fuel rest
        | none => cs
      | none => cs

mutual

/-- A value `depth` levels below a line; each nested call uses one of `fuel`. -/
def value (depth : Nat) : (fuel : Nat) → List Char → Option (Toml × List Char)
  | 0, _ => none
  | fuel + 1, cs =>
    match cs with
    | 't' :: 'r' :: 'u' :: 'e' :: rest => some (.boolean true, rest)
    | 'f' :: 'a' :: 'l' :: 's' :: 'e' :: rest => some (.boolean false, rest)
    | '"' :: _ => (string? cs).map fun (s, rest) => (.text s, rest)
    | '\'' :: _ => (string? cs).map fun (s, rest) => (.text s, rest)
    | '[' :: rest => if depth + 1 < depthLimit then items (depth + 1) fuel [] rest else none
    | '\x7b' :: rest =>
      if depth + 1 < depthLimit then
        match skipBlank rest with
        | '\x7d' :: rest => some (.table [], rest)
        | rest => pairs (depth + 1) fuel [] rest
      else none
    | cs => if looksLikeMoment cs then moment? cs else number? cs

/-- The items of an array after its opening bracket or a comma; `done` holds those read, last first. -/
def items (depth : Nat) : (fuel : Nat) → (done : List Toml) → List Char → Option (Toml × List Char)
  | 0, _, _ => none
  | fuel + 1, done, cs =>
    match skipSpace cs.length cs with
    | ']' :: rest => some (.array done.reverse, rest)
    | cs => do
      let (v, rest) ← value depth fuel cs
      match skipSpace rest.length rest with
      | ',' :: rest => items depth fuel (v :: done) rest
      | ']' :: rest => pure (.array (v :: done).reverse, rest)
      | _ => none

/-- The pairs of an inline table after its opening brace or a comma. -/
def pairs (depth : Nat) : (fuel : Nat) → (done : Draft.Fields) → List Char →
    Option (Toml × List Char)
  | 0, _, _ => none
  | fuel + 1, done, cs => do
    let (path, key, rest) ← keys? cs
    match rest with
    | '=' :: rest =>
      let (v, rest) ← value depth fuel (skipBlank rest)
      let done ← Draft.assign path key (.value v) done
      match skipBlank rest with
      | ',' :: rest => pairs depth fuel done rest
      | '\x7d' :: rest => pure (.table (Draft.finishFields done), rest)
      | _ => none
    | _ => none

end

/-! ## Lines -/

/-- What a line adds to a document. -/
inductive Line where
  | nothing
  | assign (path : List String) (key : String) (v : Toml)
  | openTable (path : List String) (key : String)
  | openRow (path : List String) (key : String)

/-- The rest of a text after blanks, a comment if there is one, and the end of the line. -/
def endLine? (cs : List Char) : Option (List Char) :=
  let cs := skipBlank cs
  match (comment? cs).getD cs with
  | [] => some []
  | rest => newline? rest

/-- A line, without its end. -/
def line (cs : List Char) : Option (Line × List Char) :=
  match skipBlank cs with
  | [] => some (.nothing, [])
  | '#' :: rest => some (.nothing, '#' :: rest)
  | '\n' :: rest => some (.nothing, '\n' :: rest)
  | '\r' :: rest => some (.nothing, '\r' :: rest)
  | '[' :: '[' :: rest => do
    match ← keys? rest with
    | (path, key, ']' :: ']' :: rest) => pure (.openRow path key, rest)
    | _ => none
  | '[' :: rest => do
    match ← keys? rest with
    | (path, key, ']' :: rest) => pure (.openTable path key, rest)
    | _ => none
  | cs => do
    match ← keys? cs with
    | (path, key, '=' :: rest) =>
      let rest := skipBlank rest
      let (v, rest) ← value 0 (rest.length + 1) rest
      pure (.assign path key v, rest)
    | _ => none

/-- The lines of a document; `header` is the path of the table that is open, and `root` holds what the lines
before have made. -/
def lines : (fuel : Nat) → (header : List String) → (root : Draft.Fields) → List Char →
    Option Draft.Fields
  | _, _, root, [] => some root
  | 0, _, _, _ => none
  | fuel + 1, header, root, cs => do
    let (l, rest) ← line cs
    let rest ← endLine? rest
    match l with
    | .nothing => lines fuel header root rest
    | .assign path key v =>
      lines fuel header (← Draft.atPath header (Draft.assign path key (.value v)) root) rest
    | .openTable path key => lines fuel (path ++ [key]) (← Draft.openTable path key root) rest
    | .openRow path key => lines fuel (path ++ [key]) (← Draft.openRow path key root) rest

end Reader

/-- The table that a document stands for. A byte order mark may stand at its beginning. -/
def parse? (s : String) : Option Toml :=
  let cs := match s.toList with
    | '\uFEFF' :: cs => cs
    | cs => cs
  (Reader.lines (cs.length + 1) [] [] cs).map fun root => .table (Draft.finishFields root)

end RemoteFacts.Toml
