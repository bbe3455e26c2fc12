import RemoteFacts.CommandLine.Program

/-!
# The executable

* `Disk.snapshot` : what the disk holds along the way to the configuration;
* `Disk.bring` : makes the disk hold what a run has left;
* `main` : one run of `CommandLine.Program.run` on such a snapshot.
-/

namespace RemoteFacts.Disk

/-- What the disk holds at a location. -/
def look (l : Location) : IO (Option FileTree.Node) := do
  try
    let bytes ← IO.FS.readBinFile l.path.text
    pure (some (.file bytes.toList))
  catch e =>
    pure (match e with
      | .inappropriateType .. => some .directory
      | _ => none)

/-- A tree with what the disk holds where a path leads, if it leads anywhere. -/
def addAt (t : FileTree) (p : Path) : IO FileTree := do
  match t.locate p with
  | .error _ => pure t
  | .ok l => pure (match ← look l with
    | some n => t.put l n
    | none => t)

/-- The part of the disk that lies on the way to `target`, seen from the directory `here`. -/
def snapshot (here : Location) (target : Option Path) : IO FileTree := do
  let above := (List.range here.length).map fun n => (here.take (n + 1), FileTree.Node.directory)
  ((target.map FileTree.chain).getD []).foldlM addAt ⟨above, here⟩

/-- Makes the disk hold what `new` holds and `old` does not. -/
def bring (old new : FileTree) : IO Unit := do
  for (l, n) in new.nodes.reverse do
    if old.node? l != some n then
      match n with
      | .directory => IO.FS.createDir l.path.text
      | .file bytes => IO.FS.writeBinFile l.path.text ⟨bytes.toArray⟩

/-- The variables that a run reads, as far as they are set. -/
def environment : IO (List (String × String)) := do
  let names := ["REMCACHE_CONFIG", "XDG_CONFIG_HOME", "HOME"]
  names.filterMapM fun name => do pure ((← IO.getEnv name).map (name, ·))

end RemoteFacts.Disk

open RemoteFacts in
/-- Runs the program once. -/
def main (words : List String) : IO UInt32 := do
  let here := Location.ofPath ⟨(← IO.currentDir).toString⟩
  let environment ← Disk.environment
  let empty : CommandLine.Program.Surroundings := ⟨environment, none, ⟨[], here⟩⟩
  let target := (CommandLine.Program.placeFor empty words).map (·.path)
  let files ← Disk.snapshot here target
  let result := CommandLine.Program.run { empty with files } words
  Disk.bring files result.files
  IO.print result.out
  IO.eprint result.err
  pure (UInt32.ofNat result.exit)
