import RemoteFacts.Invocation

/-!
# Probes

A prefetch batch asks two kinds of questions: what a git query prints, and whether a file of the
repository's metadata exists.

* `Probe.queries`, `Probe.stateFiles` : the questions of every batch;
* `ProbeKey`, `ProbeKey.parse`, `ProbeKey.toWire` : a question and the key it travels under;
* `Probe.isQueryKey` : whether a batch answers the query with a given key;
* `CommandSpec`, `ProbePlan.build` : the commands of the batch for one directory.
-/

namespace RemoteFacts

namespace Probe

/-- The query whose output names the top-level directory of the repository. -/
def toplevelQuery : List String := ["rev-parse", "--show-toplevel"]

/-- The queries of every batch. -/
def queries : List (List String) := [
  toplevelQuery,
  ["rev-parse", "--git-dir"],
  ["rev-parse", "--is-bare-repository"],
  ["rev-parse", "--verify", "HEAD"],
  ["rev-parse", "--abbrev-ref", "HEAD"],
  ["symbolic-ref", "--short", "HEAD"],
  ["rev-parse", "--abbrev-ref", "--symbolic-full-name", "@\x7bupstream\x7d"],
  ["rev-parse", "--abbrev-ref", "--symbolic-full-name", "@\x7bpush\x7d"],
  ["rev-parse", "--verify", "refs/stash"],
  ["describe", "--long", "--tags"],
  ["describe", "--contains", "HEAD"],
  ["diff", "--quiet"],
  ["diff", "--cached", "--quiet"],
  ["diff", "--shortstat"],
  ["diff", "--cached", "--shortstat"],
  ["config", "--list", "-z"],
  ["config", "--get", "remote.origin.url"],
  ["status", "-z", "--porcelain"],
  ["stash", "list", "--format=%gd"],
  ["log", "--format=%H", "-n", "1"]]

/-- The metadata files whose existence every batch asks for. -/
def stateFiles : List String := [
  "HEAD",
  "ORIG_HEAD",
  "FETCH_HEAD",
  "MERGE_HEAD",
  "MERGE_MSG",
  "AUTO_MERGE",
  "REBASE_HEAD",
  "CHERRY_PICK_HEAD",
  "REVERT_HEAD",
  "BISECT_LOG",
  "BISECT_START",
  "rebase-merge",
  "rebase-apply",
  "sequencer",
  "config",
  "index",
  "info/exclude",
  "refs/stash",
  "logs/refs/stash"]

/-- Whether a batch answers the query with this key. -/
def isQueryKey (key : String) : Bool := queries.any fun args => Invocation.key args == key

end Probe

/-! ## Keys -/

/-- What a probe asks. -/
inductive ProbeKey where
  /-- The output of the query with this key. -/
  | command (key : String)
  /-- The existence of this file. -/
  | stateFile (path : Path)

namespace ProbeKey

/-- What marks the key of a question for a file. -/
def statePrefix : List Char := ['s', 't', 'a', 't', 'e', ':']

/-- The question that travels under a key. -/
def parse (wire : String) : ProbeKey :=
  if statePrefix.isPrefixOf wire.toList then
    stateFile ⟨String.ofList (wire.toList.drop statePrefix.length)⟩
  else command wire

/-- The key under which a question travels. -/
def toWire : ProbeKey → String
  | command key => key
  | stateFile path => String.ofList (statePrefix ++ path.text.toList)

end ProbeKey

/-! ## The batch for one directory -/

/-- One command of a batch, with the key of its result. -/
structure CommandSpec where
  key : String
  cmd : String
  args : List String
  cwd : Path
  deriving Inhabited

/-- The commands of a batch. -/
structure ProbePlan where
  directory : Path
  commands : List CommandSpec
  deriving Inhabited

namespace ProbePlan

/-- The command that asks a query in `directory`. -/
def query (directory : Path) (args : List String) : CommandSpec where
  key := Invocation.key args
  cmd := Invocation.git
  args := "--no-pager" :: args
  cwd := directory

/-- The command that asks for a file, run in `directory`. -/
def existence (directory file : Path) : CommandSpec where
  key := (ProbeKey.stateFile file).toWire
  cmd := "test"
  args := ["-e", file.text]
  cwd := directory

/-- The files that the batch for `directory` asks for. -/
def statePaths (directory : Path) (metadataDir : String) : List Path :=
  Probe.stateFiles.map fun file => (directory.join ⟨metadataDir⟩).join ⟨file⟩

/-- The batch for `directory`, whose metadata files lie under `metadataDir`. -/
def build (directory : Path) (metadataDir : String) : ProbePlan where
  directory
  commands := Probe.queries.map (query directory)
    ++ (statePaths directory metadataDir).map (existence directory)

end ProbePlan

end RemoteFacts
