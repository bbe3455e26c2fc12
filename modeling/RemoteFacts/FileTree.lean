import RemoteFacts.Path
import RemoteFacts.Text.Utf8

/-!
# Trees of files

What a program sees of a file system: which locations hold files and directories, and what the system
answers when a path leads nowhere.

* `Location` : names from the root down, and the path that spells them out;
* `FileTree`, `FileTree.Node`, `FileTree.Fault` : files and directories by location, and what can go wrong;
* `FileTree.chain` : a path and the directories above it;
* `FileTree.locate` : the location that a path leads to;
* `FileTree.read`, `FileTree.write`, `FileTree.holds`, `FileTree.makeDirectories`.

A path is walked piece by piece: only a directory can be walked through, and `..` leads back to the directory
that holds the one reached. Names and whole paths have a longest length.
-/

namespace RemoteFacts

/-- Names from the root down. -/
abbrev Location := List String

/-- The path that leads to a location from the root. -/
def Location.path (l : Location) : Path := ⟨"/" ++ "/".intercalate l⟩

/-- The location that an absolute path spells out. -/
def Location.ofPath (p : Path) : Location :=
  p.parts.filterMap fun part => match part with | .name s => some s | _ => none

/-- What a location holds. -/
inductive FileTree.Node where
  | file (bytes : List UInt8)
  | directory
  deriving DecidableEq

/-- What the system answers instead of doing something. -/
inductive FileTree.Fault where
  | missing
  | alreadyThere
  | notDirectory
  | isDirectory
  | nameTooLong
  | zeroInName
  deriving DecidableEq, Repr

/-- The text of a fault. -/
def FileTree.Fault.message : Fault → String
  | missing => "No such file or directory (os error 2)"
  | alreadyThere => "File exists (os error 17)"
  | notDirectory => "Not a directory (os error 20)"
  | isDirectory => "Is a directory (os error 21)"
  | nameTooLong => "File name too long (os error 36)"
  | zeroInName => "file name contained an unexpected NUL byte"

/-- The files and directories below the root, and the directory from which relative paths start. -/
structure FileTree where
  nodes : List (Location × FileTree.Node)
  here : Location

namespace FileTree

/-- What a location holds; the root is a directory. -/
def node? (t : FileTree) (l : Location) : Option Node :=
  if l.isEmpty then some .directory else t.nodes.lookup l

/-- Puts something at a location. -/
def put (l : Location) (n : Node) (t : FileTree) : FileTree :=
  { t with nodes := (l, n) :: t.nodes.filter fun e => !(e.1 == l) }

/-- Whether a text has at most a number of bytes. -/
def fits (most : Nat) (text : String) : Bool := decide ((Text.Utf8.encode text).length ≤ most)

/-- The bytes that one name may have. -/
def longestName : Nat := 255

/-- The bytes that a path may have. -/
def longestPath : Nat := 4095

/-- Walks from a location through names; only the last of them may be missing. -/
def walk (t : FileTree) : Location → List Part → Except Fault Location
  | l, [] => .ok l
  | l, part :: parts =>
    match t.node? l with
    | none => .error .missing
    | some (.file _) => .error .notDirectory
    | some .directory =>
      match part with
      | .root => walk t [] parts
      | .here => walk t l parts
      | .up => walk t l.dropLast parts
      | .name s => if fits longestName s then walk t (l ++ [s]) parts else .error .nameTooLong

/-- Whether a path is written as that of a directory, with a slash or a dot at its end. -/
def namesDirectory (p : Path) : Bool :=
  match p.pieces.getLast? with
  | some [] => true
  | some ['.'] => true
  | some ['.', '.'] => true
  | _ => false

/-- The location that a path leads to, whether it holds something or not. -/
def locate (t : FileTree) (p : Path) : Except Fault Location :=
  if p.text.isEmpty then .error .missing
  else if p.text.toList.contains '\x00' then .error .zeroInName
  else if !fits longestPath p.text then .error .nameTooLong
  else t.walk t.here p.parts

/-- What a path leads to. -/
def find (t : FileTree) (p : Path) : Except Fault Node := do
  match t.node? (← t.locate p) with
  | none => .error .missing
  | some (.file bytes) => if namesDirectory p then .error .notDirectory else .ok (.file bytes)
  | some .directory => .ok .directory

/-- Whether a path leads to a file or a directory. -/
def holds (t : FileTree) (p : Path) : Bool := (t.find p).isOk

/-- Whether a path leads to a directory. -/
def isDirectory (t : FileTree) (p : Path) : Bool :=
  match t.find p with
  | .ok .directory => true
  | _ => false

/-- The bytes of a file. -/
def read (t : FileTree) (p : Path) : Except Fault (List UInt8) := do
  match ← t.find p with
  | .file bytes => .ok bytes
  | .directory => .error .isDirectory

/-- Replaces the bytes of a file, or makes it. -/
def write (p : Path) (bytes : List UInt8) (t : FileTree) : Except Fault FileTree := do
  let l ← t.locate p
  match t.node? l with
  | some .directory => .error .isDirectory
  | some (.file _) => if namesDirectory p then .error .notDirectory else .ok (t.put l (.file bytes))
  | none => if namesDirectory p then .error .isDirectory else .ok (t.put l (.file bytes))

/-- Makes a directory. -/
def makeDirectory (p : Path) (t : FileTree) : Except Fault FileTree := do
  let l ← t.locate p
  match t.node? l with
  | some _ => .error .alreadyThere
  | none => .ok (t.put l .directory)

/-- Makes a directory unless it is there. -/
def ensureDirectory (p : Path) (t : FileTree) : Except Fault FileTree :=
  match t.makeDirectory p with
  | .ok t => .ok t
  | .error e => if t.isDirectory p then .ok t else .error e

/-- The path and up to `n` of its ancestors, from the outermost down. -/
def ancestry : (n : Nat) → Path → List Path
  | 0, p => [p]
  | n + 1, p =>
    match p.parent? with
    | some parent => ancestry n parent ++ [p]
    | none => [p]

/-- The path and the directories above it that it names, from the outermost down. -/
def chain (p : Path) : List Path := (ancestry p.parts.length p).filter fun q => !q.text.isEmpty

/-- Makes directories, each unless it is there, up to the first that cannot be made; the others stay. -/
def ensureDirectories (t : FileTree) : List Path → Except Fault Unit × FileTree
  | [] => (.ok (), t)
  | p :: ps =>
    match t.ensureDirectory p with
    | .ok t => ensureDirectories t ps
    | .error e => (.error e, t)

/-- Makes a directory and those above it, as far as they are missing; what has been made stays whatever comes
of the rest. -/
def makeDirectories (p : Path) (t : FileTree) : Except Fault Unit × FileTree :=
  if p.text.isEmpty then (.ok (), t)
  else match t.makeDirectory p with
    | .ok t => (.ok (), t)
    | .error .missing => t.ensureDirectories (chain p)
    | .error e => (if t.isDirectory p then .ok () else .error e, t)

end FileTree

end RemoteFacts
