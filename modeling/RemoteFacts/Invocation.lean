import RemoteFacts.Path
import RemoteFacts.Text.Blank

/-!
# Invocations of git

An invocation is reduced to the key under which a prefetch batch asks the same query, so that
`git --no-pager -c color.ui=false status -z --porcelain` finds the answer to `status -z --porcelain`.

* `Invocation.isGit` : whether a program is git;
* `Invocation.key` : the arguments of a query as one key;
* `Invocation.takeOptions` : the leading options that leave the output of a query as it is;
* `Invocation.normalizeArgs`, `Invocation.normalize` : the key and directory of an invocation, if its
  arguments leave no doubt;
* `Normalized.effectiveDirectory` : where the query runs, seen from the caller's directory.
-/

namespace RemoteFacts

/-- A query reduced to what the prefetch batch knows it by. -/
structure Normalized where
  /-- The arguments of the query, as one key. -/
  key : String
  /-- The operands of `-C`, each seen from the one before. -/
  directory : Option Path
  deriving Repr

/-- The directory in which a query runs whose caller is in `cwd`. -/
def Normalized.effectiveDirectory (n : Normalized) (cwd : Path) : Path :=
  match n.directory with
  | some dir => cwd.join dir
  | none => cwd

namespace Invocation

/-- The name of the program that the prefetch batch runs. -/
def git : String := "git"

/-- Whether a program is git, by its bare name or by a path that ends in it. -/
def isGit (program : String) : Bool :=
  program == git ||
    match (Path.mk program).fileName? with
    | some name => name == git || name == "git.exe"
    | none => false

/-- The arguments of a query as one key. -/
def key (args : List String) : String := " ".intercalate args

/-- Leading options that change nothing in what a query prints. -/
def neutralFlags : List String := ["--no-pager", "-P", "--literal-pathspecs", "--no-optional-locks"]

/-- A `name=value` pair with a name. -/
def isSetting (s : String) : Bool :=
  s.toList.contains '=' && s.toList.head? != some '='

/-- An argument that begins with a dash. -/
def isOption (arg : String) : Bool := arg.toList.head? == some '-'

/-- A further `-C` operand seen from those before it. -/
def descend (dir : Option Path) (operand : String) : Option Path :=
  match dir with
  | some dir => some (dir.join ⟨operand⟩)
  | none => some ⟨operand⟩

/-- The directory that the leading options choose, and the arguments after them; none for an option that
may change the output or lacks its operand. -/
def takeOptions (dir : Option Path) : List String → Option (Option Path × List String)
  | [] => some (dir, [])
  | [arg] =>
    if !isOption arg then some (dir, [arg])
    else if neutralFlags.contains arg then some (dir, [])
    else none
  | arg :: operand :: rest =>
    if !isOption arg then some (dir, arg :: operand :: rest)
    else if neutralFlags.contains arg then takeOptions dir (operand :: rest)
    else if arg == "-C" then takeOptions (descend dir operand) rest
    else if arg == "-c" && isSetting operand then takeOptions dir rest
    else none

/-- An argument that keeps its boundaries inside a key. -/
def isToken (arg : String) : Bool := !arg.isEmpty && !arg.toList.any Text.isBlank

/-- The key and directory of a query with these arguments, if they leave no doubt. -/
def normalizeArgs (args : List String) : Option Normalized := do
  let (directory, tail) ← takeOptions none args
  guard (!tail.isEmpty && tail.all isToken)
  pure { key := key tail, directory }

/-- The key and directory of an invocation, if it is one of git and its arguments leave no doubt. -/
def normalize (program : String) (args : List String) : Option Normalized :=
  if isGit program then normalizeArgs args else none

end Invocation

end RemoteFacts
