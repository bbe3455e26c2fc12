import RemoteFacts.Lexicographic
import RemoteFacts.Text.Pieces

/-!
# Remote paths

A path keeps the spelling it was given and is compared by the parts it names, so that `/a`, `/a/`,
`//a` and `/a/.` are one path with four spellings.

* `Part` : the root, a leading `.`, a `..`, or a name; `Part.lt` orders them;
* `Path`, `Path.pieces`, `Path.parts` : a spelling, what stands between its slashes, and the parts that this
  stands for;
* `==` on paths : equality of parts (`Path.beq_iff`);
* `Path.join`, `Path.parent?`, `Path.fileName?`, `Path.startsWith`, `Path.isAbsolute`;
* `Path.le`, `Path.sort` : part by part, a path before those below it;
* `Path.insertAll`, `Path.distinct`, `Path.latest` : lists of paths in which each stands once.

No path is ever cleaned up: `..` is a part like any other and is never resolved.
-/

namespace RemoteFacts

/-- One part of a path. -/
inductive Part where
  /-- The leading `/` of an absolute path. -/
  | root
  /-- The leading `.` of a relative path; a `.` elsewhere names nothing. -/
  | here
  /-- A `..`. -/
  | up
  /-- Any other name. -/
  | name (s : String)
  deriving DecidableEq, Repr

/-- A path, as it was spelled. -/
structure Path where
  text : String
  deriving Repr, Inhabited

/-! ## From spelling to parts -/

/-- The part that a piece between slashes stands for; an empty piece and a `.` stand for none. -/
def Part.ofPiece? : List Char → Option Part
  | [] => none
  | ['.'] => none
  | ['.', '.'] => some .up
  | cs => some (.name (String.ofList cs))

/-- The parts that the pieces after the first stand for. -/
def Part.ofPieces (ps : List (List Char)) : List Part := ps.filterMap Part.ofPiece?

/-- The parts that the first piece stands for: the root if it is empty, unless it is all there is, and a `.`
that counts. -/
def Part.ofFirst (alone : Bool) : List Char → List Part
  | [] => if alone then [] else [.root]
  | ['.'] => [.here]
  | cs => (ofPiece? cs).toList

/-- The parts that the pieces of a spelling stand for. -/
def Part.ofSpelling : List (List Char) → List Part
  | [] => []
  | first :: rest => ofFirst rest.isEmpty first ++ ofPieces rest

namespace Path

/-- What stands between the slashes of a path. -/
def pieces (p : Path) : List (List Char) := Text.pieces '/' p.text.toList

/-- The parts that a path names. -/
def parts (p : Path) : List Part := Part.ofSpelling p.pieces

/-- Paths are equal when they name the same parts, whatever their spelling. -/
instance : BEq Path := ⟨fun p q => p.parts == q.parts⟩

theorem beq_iff {p q : Path} : (p == q) = true ↔ p.parts = q.parts :=
  beq_iff_eq (a := p.parts) (b := q.parts)

instance : EquivBEq Path where
  rfl := beq_iff.2 rfl
  symm h := beq_iff.2 (beq_iff.1 h).symm
  trans h k := beq_iff.2 ((beq_iff.1 h).trans (beq_iff.1 k))

/-- A path that begins at the root. -/
def isAbsolute (p : Path) : Bool := p.text.toList.head? == some '/'

/-- The last name of a path, if its last part is a name. -/
def fileName? (p : Path) : Option String :=
  match p.parts.getLast? with
  | some (.name s) => some s
  | _ => none

/-- `p.startsWith q` when `q` is `p` or one of its ancestors. -/
def startsWith (p q : Path) : Bool := q.parts.isPrefixOf p.parts

/-- `q` as seen from `p`: an absolute `q` replaces `p`, any other is written after it. -/
def join (p q : Path) : Path :=
  if q.isAbsolute then q
  else match p.text.toList.getLast? with
    | none => q
    | some '/' => ⟨p.text ++ q.text⟩
    | some _ => ⟨p.text ++ "/" ++ q.text⟩

/-! ## The directory that holds a path -/

/-- The pieces without those at the end that name nothing. -/
def trimPieces (ps : List (List Char)) : List (List Char) :=
  (ps.reverse.dropWhile fun p => (Part.ofPiece? p).isNone).reverse

/-- The pieces without the last that names something. -/
def dropPiece (ps : List (List Char)) : List (List Char) := trimPieces (trimPieces ps).dropLast

/-- The path that pieces with slashes between them spell. -/
def ofPieces (ps : List (List Char)) : Path := ⟨String.ofList (['/'].intercalate ps)⟩

/-- The pieces after the first, which is that of the root if it is empty; the root is spelled with an empty
piece after it. -/
def below (first : List Char) (rest : List (List Char)) : List (List Char) :=
  if first.isEmpty && rest.isEmpty then [[]] else rest

/-- The path without its last part. The root and the empty path have no parent. -/
def parent? (p : Path) : Option Path :=
  match p.pieces with
  | [] => none
  | first :: rest =>
    if (trimPieces rest).isEmpty then if first.isEmpty then none else some ⟨""⟩
    else some (ofPieces (first :: below first (dropPiece rest)))

end Path

/-! ## Order -/

/-- What the place of a part among others is read from: its kind, and the characters of a name. -/
def Part.code : Part → List Nat
  | .root => [0]
  | .here => [1]
  | .up => [2]
  | .name s => 3 :: s.toList.map Char.toNat

/-- Parts in order of kind, names among themselves by their characters. -/
def Part.lt (a b : Part) : Bool := lexLt (fun m n => decide (m < n)) a.code b.code

namespace Path

/-- The order in which paths are listed: by their first different part, a path before those below it. -/
def le (p q : Path) : Bool := !lexLt Part.lt q.parts p.parts

/-- Paths in the order in which they are listed. -/
def sort (ps : List Path) : List Path := ps.mergeSort le

/-- Adds the paths that are not there yet, in the order given; the first spelling of each is kept. -/
def insertAll (seen ps : List Path) : List Path :=
  ps.foldl (fun seen p => if seen.contains p then seen else seen ++ [p]) seen

/-- A list of paths without the later spellings of each. -/
def distinct (ps : List Path) : List Path := insertAll [] ps

/-- A list of paths without the earlier spellings of each. -/
def latest (ps : List Path) : List Path := (distinct ps.reverse).reverse

end Path

end RemoteFacts
