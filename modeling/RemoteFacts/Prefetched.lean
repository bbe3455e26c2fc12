import RemoteFacts.AncestorScan
import RemoteFacts.CommandOutput
import RemoteFacts.Fact
import RemoteFacts.Probe

/-!
# Prefetched answers

* `PrefetchResult` : the outputs of the queries of one batch;
* `PrefetchResult.ofBatch` : splits the outputs of a batch into those of queries and the existence of files;
* `PrefetchResult.toplevel?` : the top-level directory that the batch found;
* `Transient` : the result and the ancestor scan held for one render;
* `Transient.lookup?`, `Transient.resolve`, `Transient.dropScanFor`, `Transient.empty`.
-/

namespace RemoteFacts

/-- The outputs of the queries of one batch, by key. -/
structure PrefetchResult where
  directory : Path
  entries : List (String × CommandOutput)

namespace PrefetchResult

/-- A result without outputs. -/
def empty (directory : Path) : PrefetchResult := ⟨directory, []⟩

/-- The output under a key. -/
def get? (r : PrefetchResult) (key : String) : Option CommandOutput := r.entries.lookup key

/-- Keeps an output under a key, in place of one that is there. -/
def insert (r : PrefetchResult) (key : String) (output : CommandOutput) : PrefetchResult :=
  { r with entries := r.entries.filter (fun e => !(e.1 == key)) ++ [(key, output)] }

/-- The number of outputs. -/
def size (r : PrefetchResult) : Nat := r.entries.length

/-- Splits the outputs of a batch into the outputs of queries and the existence of state files; a file
exists when its own test succeeded. -/
def ofBatch (directory : Path) (outputs : List (String × CommandOutput)) :
    PrefetchResult × List (Path × Bool) :=
  outputs.foldl (fun (result, facts) (wire, output) =>
    match ProbeKey.parse wire with
    | .stateFile path => (result, facts ++ [(path, output.succeeded)])
    | .command key => (result.insert key output, facts)) (empty directory, [])

/-- The top-level directory that the batch found, if its query succeeded and printed one. -/
def toplevel? (r : PrefetchResult) : Option Path :=
  match r.get? (Invocation.key Probe.toplevelQuery) with
  | some output => if output.succeeded then output.firstLine?.map Path.mk else none
  | none => none

end PrefetchResult

/-- What a prefetch leaves for the render that follows it, dated by the beginning of its batch. -/
structure Transient where
  result : Option (Dated PrefetchResult)
  scan : Option (Dated AncestorScan)

namespace Transient

/-- Nothing is held. -/
def empty : Transient := ⟨none, none⟩

/-- The output under a key, if the batch ran in `directory`. -/
def lookup? (t : Transient) (directory : Path) (key : String) : Option CommandOutput :=
  match t.result with
  | some r => if r.value.directory == directory then r.value.get? key else none
  | none => none

/-- The answer of the scan that is held, if one is. -/
def resolve (t : Transient) (query : Path) (marker : String) : MarkerAnswer :=
  match t.scan with
  | some s => s.value.resolve query marker
  | none => .unknown

/-- Drops the scan if a change at `path` may falsify it. -/
def dropScanFor (path : Path) (t : Transient) : Transient :=
  { t with scan := t.scan.filter fun s => !s.value.isAffectedBy path }

end Transient

end RemoteFacts
