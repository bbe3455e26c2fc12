import RemoteFacts.Config.Schema
import RemoteFacts.Prefetched
import RemoteFacts.Rpc.Call
import RemoteFacts.Rpc.Notification
import RemoteFacts.Suppression
import RemoteFacts.Watch.Registry

/-!
# Sessions

A session is all that is held for one connection to a remote side: the facts, the answers of the last
prefetch, the suppressed scope, and the operations that wait for the remote side or for each other.

* `Session.Operation`, `Session.Outcome` : what the host asks for, and what comes of it;
* `Session.Stage`, `Session.Flight` : where an operation waits, and what it holds meanwhile;
* `Session`, `Session.opened` : the session and its first state;
* `Session.Site` : a session together with the registry it shares with others;
* `Site.notify`, `Site.invalidate`, `Site.flush`, `Site.release`, `Site.close` and the other operations that
  end at once.

Prefetches wait for each other at the gate and registrations of watches at the desk; each queue lists those
who wait in order of arrival, and whoever is first is served.
-/

namespace RemoteFacts

namespace Session

/-- Names an operation that has been launched and has not ended. -/
abbrev FlightId := Nat

/-- What the host asks for and may have to wait for. A lenient request answers `false` where a strict one
fails. -/
inductive Operation where
  | prefetch (directory : Path)
  /-- A prefetch for a render, which goes on whether it succeeds or not. -/
  | render (directory : Path)
  | watch (path : Path) (strict : Bool)
  | unwatch (path : Path) (strict : Bool)
  | unwatchAll
  | resync

/-- What comes of an operation. -/
inductive Outcome where
  | prefetched (result : Except Error PrefetchResult)
  | rendered
  | flag (result : Except Error Bool)
  | count (result : Except Error Nat)

/-- What a prefetch has brought in so far, to be committed when its scope has closed. -/
structure Harvest where
  directory : Path
  /-- The moment at which the scope was entered. -/
  since : Nat
  result : PrefetchResult
  facts : List (Path × Bool)
  scan : Option AncestorScan

/-- For whom a watch is registered. -/
inductive Purpose where
  | host
  /-- For the top-level directory that a prefetch found. -/
  | root (harvest : Harvest)

/-- Where an operation waits. -/
inductive Stage where
  /-- At the gate, for the prefetches before it. -/
  | atGate (directory : Path)
  /-- In its scope, for the outputs of its batch. -/
  | batch (directory : Path) (since : Nat) (commands : List CommandSpec)
  /-- In its scope, for the ancestor scan. -/
  | scan (harvest : Harvest)
  /-- At the desk, to register a watch. -/
  | atDesk (path : Path) (purpose : Purpose)
  /-- First at the desk, for the remote side to accept the watch. -/
  | adding (path : Path) (purpose : Purpose)
  /-- For the remote side to end a watch. -/
  | removing (path : Path)
  /-- For the remote side to end several watches; each with its answer, once it has come. -/
  | removingAll (calls : List (Path × Option Bool))
  /-- At the desk, to ask for the list of watches. -/
  | atDeskToList
  /-- First at the desk, for the list of watches. -/
  | listing

/-- Whether an operation is inside a scope of its own while it waits here. -/
def Stage.inScope : Stage → Bool
  | batch .. => true
  | scan _ => true
  | atDesk _ (.root _) => true
  | adding _ (.root _) => true
  | _ => false

/-- An operation that has been launched and has not ended. -/
structure Flight where
  id : FlightId
  operation : Operation
  stage : Stage

end Session

/-- What is held for one connection. -/
structure Session where
  id : Watch.ConnectionId
  config : Config
  /-- Whether the end of a scope that dropped something flushes the facts. -/
  flushesOnLeave : Bool
  store : FactStore
  suppression : Suppression
  /-- Whether the open scope is one that the host has entered itself. -/
  hostScope : Bool
  transient : Transient
  /-- The prefetches that have not ended, in order of arrival; the first one is past the gate. -/
  gate : List Session.FlightId
  /-- Those who want to register watches or ask for their list; the first one is being served. -/
  desk : List Session.FlightId
  flights : List Session.Flight
  /-- The name of the next operation. -/
  next : Session.FlightId
  closed : Bool

namespace Session

/-- A session in which nothing has happened. Moments are counted in `ticks` a second. -/
def opened (id : Watch.ConnectionId) (config : Config) (ticks : Nat) (flushesOnLeave : Bool) :
    Session where
  id
  config
  flushesOnLeave
  store := .empty (config.cache.ttl?.map (· * ticks)) config.cache.maxSize?
  suppression := .idle
  hostScope := false
  transient := .empty
  gate := []
  desk := []
  flights := []
  next := 0
  closed := false

/-- The batch that a prefetch for `directory` sends. -/
def plan (s : Session) (directory : Path) : ProbePlan :=
  ProbePlan.build directory s.config.prefetch.metadataDir

/-- The output of an invocation, if the last prefetch asked for it. -/
def output? (s : Session) (program : String) (args : List String) (cwd : Path) :
    Option CommandOutput := do
  let n ← Invocation.normalize program args
  s.transient.lookup? (n.effectiveDirectory cwd) n.key

/-- A session and the registry that it shares with others. -/
structure Site where
  session : Session
  registry : Watch.Registry

/-- What a notification has led to. -/
inductive Effect where
  /-- The facts about this many paths were dropped. -/
  | applied (paths : Nat)
  /-- A scope was open, and the notification is in its report. -/
  | suppressed
  /-- The notification reports no change. -/
  | ignored
  deriving DecidableEq, Repr

namespace Site

/-- Replaces the facts of a session. -/
def withStore (store : FactStore) (x : Site) : Site :=
  { x with session := { x.session with store } }

/-- The paths that the connection is believed to watch. -/
def watched (x : Site) : List Path := x.registry.pathsFor x.session.id

/-- Forgets what may have changed with `path`: the facts about it and its parent, and a scan for a marker of
its name. -/
def applyChange (x : Site) (path : Path) : Site :=
  { x with session := { x.session with
    store := x.session.store.invalidatePath path
    transient := x.session.transient.dropScanFor path } }

/-- Takes a notification from the remote side. -/
def notify (n : Rpc.Notification) (x : Site) : Effect × Site :=
  match n.changedPaths with
  | [] => (.ignored, x)
  | paths =>
    match x.session.suppression.suppress paths with
    | (true, suppression) => (.suppressed, { x with session := { x.session with suppression } })
    | (false, _) => (.applied paths.length, paths.foldl applyChange x)

/-- Closes the open scope. If it dropped notifications, the facts they would have dropped are not known, so
all facts go. -/
def leaveScope (x : Site) : Suppression.Report × Site :=
  let (report, suppression) := x.session.suppression.leave
  let store := if x.session.flushesOnLeave && report.needsFlush then x.session.store.flush
    else x.session.store
  (report, { x with session := { x.session with suppression, store, hostScope := false } })

/-- Opens a scope for the host. -/
def enterHostScope (x : Site) : Except Error Unit × Site :=
  match x.session.suppression.enter with
  | .error e => (.error e, x)
  | .ok suppression => (.ok (), { x with session := { x.session with suppression, hostScope := true } })

/-- Closes the scope that the host has entered, if it has. -/
def leaveHostScope (x : Site) : Option Suppression.Report × Site :=
  if x.session.hostScope then
    let (report, x) := x.leaveScope
    (some report, x)
  else (none, x)

/-- Forgets the facts about a path that the host has changed itself. -/
def invalidate (path : Path) (x : Site) : Site := x.withStore (x.session.store.invalidatePath path)

/-- Forgets what the last prefetch left for a render. -/
def release (x : Site) : Site := { x with session := { x.session with transient := .empty } }

/-- Forgets every fact and what the last prefetch left. -/
def flush (x : Site) : Site := (x.withStore x.session.store.flush).release

/-- Forgets the watches of the connection, and tells how many there were. -/
def forgetWatches (x : Site) : Nat × Site :=
  let (n, registry) := x.registry.clearFor x.session.id
  (n, { x with registry })

/-- Ends a session whose connection is gone. -/
def close (x : Site) : Site :=
  if x.session.closed then x
  else
    let x := { x with session := { x.session with closed := true } }
    x.forgetWatches.2.flush

end Site

end Session

end RemoteFacts
