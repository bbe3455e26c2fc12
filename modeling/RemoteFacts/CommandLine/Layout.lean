import RemoteFacts.Config.Place
import RemoteFacts.Invocation
import RemoteFacts.Json.Printer
import RemoteFacts.Probe
import RemoteFacts.Rpc.Call

/-!
# What the commands print

* `Layout.line`, `Layout.remark`, `Layout.entry`, `Layout.succeeded`, `Layout.warned`, `Layout.graded` : kinds of lines;
* `Layout.plan`, `Layout.planJson` : a prefetch batch;
* `Layout.invocation`, `Layout.invocationJson` : an invocation and its key;
* `Layout.failure` : an error, and what can be done about it.
-/

namespace RemoteFacts.CommandLine.Layout

/-- A line as it stands. -/
def line (s : String) : String := s ++ "\n"

/-- A line below a heading. -/
def remark (s : String) : String := line ("  " ++ s)

/-- A name and a value. -/
def entry (name value : String) : String := remark (name ++ ": " ++ value)

/-- Something that went well. -/
def succeeded (s : String) : String := remark ("[OK] " ++ s)

/-- Something that the user should know, and what can be done about it. -/
def warned (s advice : String) : String := remark ("[WARN] " ++ s ++ " - " ++ advice)

/-- A value that is as it should be, or not. -/
def graded (good : Bool) (name value : String) : String :=
  remark ((if good then "[OK] " else "[WARN] ") ++ name ++ ": " ++ value)

/-- An error, and what can be done about it. -/
def failure (e : Error) : String :=
  line ("Error: " ++ e.message) ++
    match e.hint? with
    | some hint => line ("Hint: " ++ hint)
    | none => ""

/-! ## Batches -/

/-- The files that a batch asks for. -/
def stateFiles (plan : ProbePlan) : List Path :=
  plan.commands.filterMap fun c =>
    match ProbeKey.parse c.key with
    | .stateFile path => some path
    | .command _ => none

/-- The commands that ask the queries of a batch. -/
def queries (plan : ProbePlan) : List String :=
  plan.commands.filterMap fun c =>
    match ProbeKey.parse c.key with
    | .command _ => some (c.cmd ++ " " ++ " ".intercalate c.args)
    | .stateFile _ => none

/-- A batch and the ancestor scan that goes with it, as sections. -/
def plan (plan : ProbePlan) (config : Config) : String :=
  let queries := queries plan
  let files := stateFiles plan
  line s!"Repository queries ({queries.length})" ++ String.join (queries.map remark) ++ line ""
    ++ line s!"State files ({files.length})" ++ String.join (files.map fun p => remark p.text) ++ line ""
    ++ line "Ancestor scan" ++ entry "markers" (", ".intercalate config.prefetch.ancestorMarkers)
    ++ entry "max depth" (toString config.prefetch.ancestorMaxDepth)
    ++ (if config.prefetch.enabled then ""
      else warned "Prefetch is disabled" "Set prefetch.enabled = true")

/-- A batch and the ancestor scan that goes with it, as one JSON value. -/
def planJson (plan : ProbePlan) (config : Config) : String :=
  line (Json.pretty (.object [
    ("ancestor_markers", .array (config.prefetch.ancestorMarkers.map Json.text)),
    ("ancestor_max_depth", .int config.prefetch.ancestorMaxDepth),
    ("commands", .array (plan.commands.map Rpc.Request.commandJson)),
    ("directory", .text plan.directory.text)]))

/-! ## Invocations -/

/-- An invocation and its key, one entry a line; the directory is shown as far as it is known. -/
def invocation (n : Normalized) (directory : Option Path) : String :=
  let prefetched := Probe.isQueryKey n.key
  let place := match directory, n.directory with
    | some dir, _ => entry "directory" dir.text
    | none, some dir => entry "-C" dir.text
    | none, none => ""
  entry "key" n.key ++ place ++ graded prefetched "prefetched" (if prefetched then "yes" else "no")

/-- An invocation and its key as one JSON value. -/
def invocationJson (n : Normalized) (directory : Option Path) : String :=
  line (Json.pretty (.object [
    ("directory", match directory with | some dir => .text dir.text | none => .null),
    ("key", .text n.key),
    ("prefetched", .bool (Probe.isQueryKey n.key))]))

end RemoteFacts.CommandLine.Layout
