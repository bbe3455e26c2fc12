import RemoteFacts.Cache.Bounded

/-!
# Facts about remote paths

A fact is dated by the moment as of which it was true on the remote side, which for a prefetched fact is the
moment its batch began. The two caches share their bounds and are invalidated together.

* `Dated` : a value and the moment as of which it holds;
* `FactStore` : what is known of the existence and of the true names of paths;
* `FactStore.exists?`, `FactStore.recordExists`, `FactStore.truename?`, `FactStore.recordTruename`;
* `FactStore.invalidatePath` : forgets a path and its parent;
* `FactStore.flush` : forgets everything.
-/

namespace RemoteFacts

/-- A value and the moment as of which it holds. -/
structure Dated (α : Type) where
  asOf : Nat
  value : α

/-- What is known of remote paths. -/
structure FactStore where
  existence : Cache (Dated Bool)
  truename : Cache (Dated Path)

namespace FactStore

/-- A store that knows nothing, both of its caches bounded alike. -/
def empty (ttl maxSize : Option Nat) : FactStore where
  existence := .empty ttl maxSize
  truename := .empty ttl maxSize

/-- Whether a path exists, if that is known. -/
def exists? (path : Path) (now : Nat) (s : FactStore) : Option Bool × FactStore :=
  let (fact, existence) := s.existence.get path now
  (fact.map (·.value), { s with existence })

/-- Keeps whether a path exists. -/
def recordExists (path : Path) (fact : Dated Bool) (now : Nat) (s : FactStore) : FactStore :=
  { s with existence := s.existence.put path fact now }

/-- The true name of a path, if it is known. -/
def truename? (path : Path) (now : Nat) (s : FactStore) : Option Path × FactStore :=
  let (fact, truename) := s.truename.get path now
  (fact.map (·.value), { s with truename })

/-- Keeps the true name of a path. -/
def recordTruename (path : Path) (fact : Dated Path) (now : Nat) (s : FactStore) : FactStore :=
  { s with truename := s.truename.put path fact now }

/-- A cache without the entries of a path and of its parent. -/
def dropAround {α : Type} (path : Path) (c : Cache α) : Cache α :=
  let c := (c.invalidate path).2
  match path.parent? with
  | some parent => (c.invalidate parent).2
  | none => c

/-- Forgets every fact about a path and about the directory that holds it. -/
def invalidatePath (path : Path) (s : FactStore) : FactStore where
  existence := dropAround path s.existence
  truename := dropAround path s.truename

/-- Forgets every fact. -/
def flush (s : FactStore) : FactStore where
  existence := s.existence.clear
  truename := s.truename.clear

end FactStore

end RemoteFacts
