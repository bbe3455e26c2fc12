import RemoteFacts.CommandLine.Grammar
import RemoteFacts.CommandLine.Layout
import RemoteFacts.Config.Setting

/-!
# The program

* `Program.grammar` : the commands and their options;
* `Program.place` : where the configuration is kept;
* `Program.showConfig`, `initConfig`, `setConfig`, `normalize`, `plan` : the commands;
* `Program.placeFor` : the file that a command line makes use of;
* `Program.run` : what a command line prints, leaves behind in the files, and exits with.

A command line that follows no rule exits with two, a command that fails with one.
-/

namespace RemoteFacts.CommandLine.Program

open Grammar

/-! ## The grammar -/

/-- The options of every command. -/
def globals : List Opt := [
  ⟨"verbose", some 'v', .count⟩,
  ⟨"config", some 'c', .value []⟩,
  ⟨"help", some 'h', .help⟩,
  ⟨"version", some 'V', .version⟩]

/-- The option that chooses how something is printed. -/
def formatOption : Opt := ⟨"format", some 'f', .value ["table", "json"]⟩

/-- The commands and their options. -/
def grammar : Command :=
  .mk "remcache" globals (.each []) [
    .mk "config" globals (.each []) [
      .mk "show" globals (.each []) [] false,
      .mk "path" globals (.each []) [] false,
      .mk "init" (⟨"force", some 'f', .flag⟩ :: globals) (.each []) [] false,
      .mk "set" globals (.each [true, true]) [] false] false,
    .mk "normalize" (⟨"cwd", none, .value []⟩ :: formatOption :: globals) .afterDashes [] false,
    .mk "plan" (formatOption :: globals) (.each [false]) [] false] true

/-- The version of the program. -/
def version : String := "0.3.0"

/-! ## The surroundings -/

/-- What a program finds when it starts, besides its words. -/
structure Surroundings where
  /-- The variables of its environment, by name. -/
  environment : List (String × String)
  /-- The home directory that the system knows for the user. -/
  accountHome : Option Path
  files : FileTree

/-- What a program leaves when it ends. -/
structure Result where
  exit : Nat
  out : String
  err : String
  files : FileTree

/-- The home directory of the user. -/
def home? (s : Surroundings) : Option Path :=
  (((s.environment.lookup "HOME").filter fun home => !home.isEmpty).map Path.mk).or s.accountHome

/-- The directory for configurations: the one that is named for them, if its path is absolute, or else one
in the home directory. -/
def configHome (s : Surroundings) : Path :=
  match ((s.environment.lookup "XDG_CONFIG_HOME").map Path.mk).filter (·.isAbsolute) with
  | some dir => dir
  | none =>
    match home? s with
    | some home => home.join ⟨".config"⟩
    | none => ⟨"."⟩

/-- Where the configuration is kept: in the file that the command line names, or else the one that the
surroundings name, or else the usual one. -/
def place (values : List (String × String)) (s : Surroundings) : Config.Place :=
  match (values.lookup "config").or (s.environment.lookup "REMCACHE_CONFIG") with
  | some path => ⟨⟨path⟩, true⟩
  | none => ⟨((configHome s).join ⟨"remcache"⟩).join ⟨"config.toml"⟩, false⟩

/-! ## The commands -/

/-- What a command has printed, how it has ended, and the files after it. -/
structure Ending where
  out : String
  err : String
  files : FileTree
  failure : Option Error

/-- A command that ends well. -/
def Ending.ok (files : FileTree) (out : String) : Ending := ⟨out, "", files, none⟩

/-- A command that fails without having printed anything. -/
def Ending.failed (files : FileTree) (e : Error) : Ending := ⟨"", "", files, some e⟩

/-- Prints a configuration. -/
def showConfig (config : Config) (files : FileTree) : Ending :=
  match config.render with
  | .ok text => .ok files (Layout.line text)
  | .error e => .failed files e

/-- Writes the default configuration, unless there is a file that is not to be overwritten. -/
def initConfig (p : Config.Place) (force : Bool) (files : FileTree) : Ending :=
  if files.holds p.path && !force then
    .ok files (Layout.warned s!"Config already exists at {p.path.text}" "Use --force to overwrite")
  else
    match p.save {} files with
    | (.ok (), files) => .ok files (Layout.succeeded s!"Configuration initialized ({p.path.text})")
    | (.error e, files) => .failed files e

/-- Changes one value in the file. -/
def setConfig (p : Config.Place) (config : Config) (key value : String) (files : FileTree) : Ending :=
  match Config.Key.parse? key with
  | none => {
      out := Layout.remark "Valid keys:" ++
        String.join (Config.Key.all.map fun k => Layout.remark ("  " ++ k.name))
      err := Layout.remark s!"[FAIL] Unknown config key: {key}"
      files
      failure := some (.user s!"Unknown config key: {key}") }
  | some k =>
    match config.set k value with
    | .error e => .failed files e
    | .ok config =>
      match p.save config files with
      | (.ok (), files) => .ok files (Layout.succeeded s!"Set {key} = {value}")
      | (.error e, files) => .failed files e

/-- Shows the key of an invocation, and where it runs if its caller is in `cwd`. -/
def normalize (asJson : Bool) (cwd : Option Path) (words : List String) (files : FileTree) : Ending :=
  match words with
  | [] => .failed files (.user "No command given")
  | program :: args =>
    match Invocation.normalize program args with
    | none =>
      let shown := " ".intercalate words
      .failed files (.user s!"Not normalizable, would query the server: {shown}")
    | some n =>
      let directory := cwd.map n.effectiveDirectory
      .ok files (if asJson then Layout.invocationJson n directory else Layout.invocation n directory)

/-- Shows the prefetch batch for a directory. -/
def plan (asJson : Bool) (directory : Path) (config : Config) (files : FileTree) : Ending :=
  if !directory.isAbsolute then
    .failed files (.user s!"Directory must be an absolute remote path: {directory.text}")
  else
    let plan := ProbePlan.build directory config.prefetch.metadataDir
    .ok files (if asJson then Layout.planJson plan config else Layout.plan plan config)

/-- The command at the end of a path of names. -/
def perform (p : Config.Place) (config : Config) (path : List String) (values : List (String × String))
    (flags operands : List String) (files : FileTree) : Ending :=
  let asJson := values.lookup "format" == some "json"
  match path, operands with
  | ["config"], _ => showConfig config files
  | ["config", "show"], _ => showConfig config files
  | ["config", "path"], _ => .ok files (Layout.line p.path.text)
  | ["config", "init"], _ => initConfig p (flags.contains "force") files
  | ["config", "set"], [key, value] => setConfig p config key value files
  | ["normalize"], words => normalize asJson ((values.lookup "cwd").map Path.mk) words files
  | ["plan"], [directory] => plan asJson ⟨directory⟩ config files
  | _, _ => .failed files (.internal "no such command")

/-! ## The run -/

/-- How the words of a command line are used. -/
def usage : String :=
  "Usage: remcache [--config <PATH>] [--verbose]... <COMMAND>\n\n" ++
  "Commands:\n" ++
  "  config [show | path | init [--force] | set <KEY> <VALUE>]\n" ++
  "  normalize [--cwd <DIR>] [--format <table|json>] -- <PROGRAM> [ARG]...\n" ++
  "  plan <DIRECTORY> [--format <table|json>]\n"

/-- Loads the configuration; a command about it may be the one that makes the file. -/
def loadFor (path : List String) (p : Config.Place) (files : FileTree) : Except Error Config :=
  if path.head? == some "config" then p.loadOrDefault files else p.load files

/-- Whether a command on the way finds no name in the variable that may name the file: each one reads it
unless it is given the option itself. -/
def emptyVariable (s : Surroundings) (path : List String) (values : List (String × String)) : Bool :=
  s.environment.lookup "REMCACHE_CONFIG" == some "" &&
    decide (values.countP (·.1 == "config") < path.length + 1)

/-- The file that a program started with `words` makes use of, if they name a command. -/
def placeFor (s : Surroundings) (words : List String) : Option Config.Place :=
  match read grammar words with
  | .run _ values _ _ => some (place values s)
  | _ => none

/-- What a program started with `words` prints and leaves behind. -/
def run (s : Surroundings) (words : List String) : Result :=
  match read grammar words with
  | .misuse => ⟨2, "", usage, s.files⟩
  | .help _ => ⟨0, usage, "", s.files⟩
  | .version name => ⟨0, Layout.line (name ++ " " ++ version), "", s.files⟩
  | .run path values flags operands =>
    if emptyVariable s path values then ⟨2, "", usage, s.files⟩
    else
      let p := place values s
      let ending : Ending := match loadFor path p s.files with
        | .error e => .failed s.files e
        | .ok config => perform p config path values flags operands s.files
      match ending.failure with
      | none => ⟨0, ending.out, ending.err, ending.files⟩
      | some e => ⟨1, ending.out, ending.err ++ Layout.failure e, ending.files⟩

end RemoteFacts.CommandLine.Program
