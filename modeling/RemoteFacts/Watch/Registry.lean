import RemoteFacts.Path

/-!
# The belief about watches

A registry holds which paths the remote side is believed to watch, for any number of connections. A path is
in it because a request to watch it was accepted; that it is missing proves nothing.

* `Watch.Registry`, `Watch.Entry`;
* `Watch.Registry.isWatched`, `register`, `unregister`, `clearFor`, `replaceFor`;
* `Watch.Registry.entriesFor` : the watches of one connection, oldest first, then by path.
-/

namespace RemoteFacts.Watch

/-- One connection to a remote side. -/
abbrev ConnectionId := Nat

/-- A watched path and the moment of its registration. -/
structure Entry where
  connection : ConnectionId
  path : Path
  registeredAt : Nat

/-- The watches that all connections together are believed to have. -/
structure Registry where
  entries : List Entry

namespace Registry

/-- No path is watched. -/
def empty : Registry := ⟨[]⟩

/-- Whether an entry is that of a connection and path. -/
def isFor (c : ConnectionId) (path : Path) (e : Entry) : Bool :=
  e.connection == c && e.path == path

/-- Whether a path is believed to be watched. -/
def isWatched (c : ConnectionId) (path : Path) (r : Registry) : Bool := r.entries.any (isFor c path)

/-- Adds a watch, and tells whether it is new; one that is there stays as it is. -/
def register (c : ConnectionId) (path : Path) (now : Nat) (r : Registry) : Bool × Registry :=
  if r.isWatched c path then (false, r) else (true, ⟨r.entries ++ [⟨c, path, now⟩]⟩)

/-- Drops a watch, and tells whether it was there. -/
def unregister (c : ConnectionId) (path : Path) (r : Registry) : Bool × Registry :=
  (r.isWatched c path, ⟨r.entries.filter fun e => !isFor c path e⟩)

/-- Drops every watch of a connection, and tells how many there were. -/
def clearFor (c : ConnectionId) (r : Registry) : Nat × Registry :=
  (r.entries.countP (·.connection == c), ⟨r.entries.filter fun e => !(e.connection == c)⟩)

/-- Makes `paths` the watches of a connection: those it had keep their moment, the others share `now`. -/
def replaceFor (c : ConnectionId) (paths : List Path) (now : Nat) (r : Registry) : Registry :=
  let since (path : Path) : Nat :=
    match r.entries.find? (isFor c path) with
    | some e => e.registeredAt
    | none => now
  ⟨(r.clearFor c).2.entries ++ (Path.distinct paths).map fun path => ⟨c, path, since path⟩⟩

/-- Entries by moment, and those of one moment by path. -/
def entryLe (a b : Entry) : Bool :=
  decide (a.registeredAt < b.registeredAt) ||
    (a.registeredAt == b.registeredAt && a.path.le b.path)

/-- The watches of a connection, oldest first, then by path. -/
def entriesFor (c : ConnectionId) (r : Registry) : List Entry :=
  (r.entries.filter (·.connection == c)).mergeSort entryLe

/-- The watched paths of a connection, oldest first, then by path. -/
def pathsFor (c : ConnectionId) (r : Registry) : List Path := (r.entriesFor c).map (·.path)

/-- The number of watches of all connections. -/
def size (r : Registry) : Nat := r.entries.length

end Registry

end RemoteFacts.Watch
