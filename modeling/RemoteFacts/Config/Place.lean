import RemoteFacts.Config.Printer
import RemoteFacts.Config.Reader
import RemoteFacts.FileTree
import RemoteFacts.Text.Quoted
import RemoteFacts.Toml.Reader

/-!
# Where a configuration is kept

The file at the usual place may be missing, and then the defaults hold. A file that the user has named must
exist to be loaded, since a slip in its name would otherwise go unnoticed.

* `Config.Place` : a file, and whether the user has named it;
* `Config.fault?` : what is wrong with a configuration, if anything is;
* `Config.loadFrom`, `Config.Place.loadOrDefault`, `Config.Place.load`;
* `Config.Place.save`.
-/

namespace RemoteFacts.Config

/-- Where a configuration is kept. -/
structure Place where
  path : Path
  /-- Whether the user has named the file. -/
  explicit : Bool

/-- What is wrong with a configuration, if anything is. -/
def fault? (c : Config) : Option String :=
  if c.general.logFormat ≠ "text" ∧ c.general.logFormat ≠ "json" then
    some ("general.log_format must be \"text\" or \"json\", got " ++ Text.quoted c.general.logFormat)
  else if c.prefetch.metadataDir.isEmpty then some "prefetch.metadata_dir must not be empty"
  else none

/-- The configuration that a document stands for, if there is nothing wrong with it. -/
def ofText (path : Path) (text : String) : Except Error Config :=
  match (Toml.parse? text).bind read? with
  | none => .error (.configInvalid path "not a configuration")
  | some c =>
    match c.fault? with
    | some reason => .error (.configInvalid path reason)
    | none => .ok c

/-- Loads a configuration from a file. -/
def loadFrom (path : Path) (t : FileTree) : Except Error Config :=
  let failed (cause : String) : Error := .fileAccess s!"reading config from {path.text}" cause
  match t.read path with
  | .error e => .error (failed e.message)
  | .ok bytes =>
    match Text.Utf8.decode? bytes with
    | none => .error (failed "stream did not contain valid UTF-8")
    | some text => ofText path text

namespace Place

/-- Loads a configuration, the defaults if the file is missing. -/
def loadOrDefault (p : Place) (t : FileTree) : Except Error Config :=
  if t.holds p.path then loadFrom p.path t else .ok {}

/-- Loads a configuration, the defaults if the file is missing and the user has not named it. -/
def load (p : Place) (t : FileTree) : Except Error Config :=
  if p.explicit && !t.holds p.path then .error (.configNotFound p.path) else p.loadOrDefault t

/-- Makes the directories above the file; those that have been made stay if one cannot be made. -/
def makeRoom (p : Place) (t : FileTree) : Except Error Unit × FileTree :=
  match p.path.parent? with
  | none => (.ok (), t)
  | some dir =>
    match t.makeDirectories dir with
    | (.ok (), t) => (.ok (), t)
    | (.error e, t) => (.error (.configDirectory dir e.message), t)

/-- Writes a configuration to the file; the directories above it are made first, and stay whatever comes of
the rest. -/
def save (p : Place) (c : Config) (t : FileTree) : Except Error Unit × FileTree :=
  match p.makeRoom t with
  | (.error e, t) => (.error e, t)
  | (.ok (), t) =>
    match c.render with
    | .error e => (.error e, t)
    | .ok text =>
      match t.write p.path (Text.Utf8.encode text) with
      | .error e => (.error (.fileAccess s!"writing config to {p.path.text}" e.message), t)
      | .ok t => (.ok (), t)

end Place

end RemoteFacts.Config
