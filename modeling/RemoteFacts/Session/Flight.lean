import RemoteFacts.Session.Basic

/-!
# Operations that wait

An operation is launched, goes on whenever a call of its ends or its turn comes in a queue, and ends with an
outcome or is abandoned. Each function below takes one operation from one place where it waits to the next.

* `Session.Progress` : the calls sent on the way, and the outcome if the operation has ended;
* `Site.launch` : begins an operation;
* `Site.proceed` : lets one go on whose turn has come;
* `Site.settle` : lets one go on whose call has ended;
* `Site.abandon` : drops one, with its scope and its places in the queues;
* `Site.commit` : what a prefetch keeps once its scope has closed;
* `Session.touches` : which facts of a batch a dropped notification makes worthless.
-/

namespace RemoteFacts.Session

/-- What an operation has done before it waits again or ends. -/
structure Progress where
  /-- The calls that it has sent, each with its place among the calls of the operation. -/
  sent : List (Nat × Rpc.Request)
  outcome : Option Outcome

/-- The operation waits, and has sent nothing. -/
def Progress.waiting : Progress := ⟨[], none⟩

/-- The operation waits for the answer to one request. -/
def Progress.asking (r : Rpc.Request) : Progress := ⟨[(0, r)], none⟩

/-- What the host is told of an outcome: a render is told nothing, a lenient request no error. -/
def Operation.report : Operation → Outcome → Outcome
  | render _, _ => .rendered
  | watch _ false, .flag (.error _) => .flag (.ok false)
  | unwatch _ false, .flag (.error _) => .flag (.ok false)
  | _, outcome => outcome

/-- What the host is told of an operation on a session that is closed. -/
def Operation.refusal : Operation → Outcome
  | prefetch _ => .prefetched (.error .connectionClosed)
  | render _ => .rendered
  | watch .. => .flag (.error .connectionClosed)
  | unwatch .. => .flag (.error .connectionClosed)
  | unwatchAll => .count (.error .connectionClosed)
  | resync => .count (.error .connectionClosed)

/-- Whether a change of `changed` would have dropped the fact about `path`: it is the path itself, its
parent, or lies in it. -/
def touches (changed path : Path) : Bool :=
  changed == path || path.parent?.any (changed == ·) || changed.parent?.any (· == path)

namespace Site

variable (now : Nat) (id : FlightId)

/-- The operation with this name, if it has not ended. -/
def flight? (x : Site) : Option Flight := x.session.flights.find? (·.id == id)

/-- Where the operation with this name waits, if it has not ended. -/
def stage? (x : Site) : Option Stage := (x.flight? id).map Flight.stage

/-- Lets an operation wait at `stage`. -/
def wait (stage : Stage) (x : Site) : Site :=
  { x with session := { x.session with
    flights := x.session.flights.map fun f => if f.id == id then { f with stage } else f } }

/-- Takes an operation from the table and from both queues. -/
def remove (x : Site) : Site :=
  { x with session := { x.session with
    flights := x.session.flights.filter fun f => !(f.id == id)
    gate := x.session.gate.erase id
    desk := x.session.desk.erase id } }

/-- Ends an operation. -/
def finish (outcome : Outcome) (x : Site) : Site × Progress :=
  let told := match x.flight? id with
    | some f => f.operation.report outcome
    | none => outcome
  (x.remove id, ⟨[], some told⟩)

/-! ## Prefetches -/

/-- Ends a prefetch that is in its scope without keeping anything. -/
def giveUp (e : Error) (x : Site) : Site × Progress := x.leaveScope.2.finish id (.prefetched (.error e))

/-- Keeps the facts of a batch. -/
def recordFacts (since : Nat) (facts : List (Path × Bool)) (x : Site) : Site :=
  x.withStore (facts.foldl (fun s f => s.recordExists f.1 ⟨since, f.2⟩ now) x.session.store)

/-- Closes the scope of a prefetch and keeps what it has brought in, except what a notification dropped
meanwhile makes worthless. -/
def commit (h : Harvest) (x : Site) : Site × Progress :=
  let (report, x) := x.leaveScope
  let fresh := h.facts.filter fun f => !report.paths.any (touches · f.1)
  let scan := h.scan.filter fun s => !report.paths.any s.isAffectedBy
  let x := x.recordFacts now h.since fresh
  let transient := ⟨some ⟨h.since, h.result⟩, scan.map (⟨h.since, ·⟩)⟩
  Site.finish id (.prefetched (.ok h.result)) { x with session := { x.session with transient } }

/-- Opens the scope of a prefetch that is first at the gate, and sends its batch. -/
def openBatch (directory : Path) (x : Site) : Site × Progress :=
  match x.session.suppression.enter with
  | .error e => x.finish id (.prefetched (.error e))
  | .ok suppression =>
    let commands := (x.session.plan directory).commands
    let x := { x with session := { x.session with suppression } }
    (x.wait id (.batch directory now commands), .asking (.runParallel commands))

/-! ## The desk -/

/-- Goes on after the watch of `path` has been registered or not. -/
def leaveDesk (purpose : Purpose) (result : Except Error Bool) (x : Site) : Site × Progress :=
  let x := { x with session := { x.session with desk := x.session.desk.erase id } }
  match purpose with
  | .host => x.finish id (.flag result)
  | .root h => x.commit now id h

/-- Asks for a watch of `path`, unless it is believed to be watched. -/
def requestWatch (path : Path) (purpose : Purpose) (x : Site) : Site × Progress :=
  if x.registry.isWatched x.session.id path then x.leaveDesk now id purpose (.ok false)
  else
    (x.wait id (.adding path purpose), .asking (.watchAdd path x.session.config.watch.recursive))

/-- Lets an operation go on whose turn has come: it is first at the gate or at the desk. -/
def proceed (x : Site) : Site × Progress :=
  match x.stage? id with
  | some (.atGate directory) =>
    if x.session.gate.head? == some id then x.openBatch now id directory else (x, .waiting)
  | some (.atDesk path purpose) =>
    if x.session.desk.head? == some id then x.requestWatch now id path purpose else (x, .waiting)
  | some .atDeskToList =>
    if x.session.desk.head? == some id then (x.wait id .listing, .asking .watchList)
    else (x, .waiting)
  | _ => (x, .waiting)

/-- Queues an operation at the desk, where it waits at `stage` unless it is first. -/
def queueAtDesk (stage : Stage) (x : Site) : Site × Progress :=
  let x := x.wait id stage
  Site.proceed now id { x with session := { x.session with desk := x.session.desk ++ [id] } }

/-- Registers a watch of the top-level directory that a prefetch has found, if it is to. -/
def seekRoot (h : Harvest) (x : Site) : Site × Progress :=
  match h.result.toplevel? with
  | some root =>
    if x.session.config.watch.autoRegister then x.queueAtDesk now id (.atDesk root (.root h))
    else x.commit now id h
  | none => x.commit now id h

/-- Goes on after the batch of a prefetch has been answered. -/
def takeOutputs (directory : Path) (since : Nat) (outputs : List (String × CommandOutput)) (x : Site) :
    Site × Progress :=
  let (result, facts) := PrefetchResult.ofBatch directory outputs
  let h : Harvest := { directory, since, result, facts, scan := none }
  match x.session.config.prefetch.ancestorMarkers with
  | [] => x.seekRoot now id h
  | markers =>
    (x.wait id (.scan h),
      .asking (.scanAncestors directory markers x.session.config.prefetch.ancestorMaxDepth))

/-! ## Ends of watches -/

/-- Forgets a watch whose end the remote side has confirmed. -/
def dropWatch (path : Path) (x : Site) : Site :=
  { x with registry := (x.registry.unregister x.session.id path).2 }

/-- Takes the answer to one of several requests to end a watch, and ends when it was the last. -/
def takeRemoval (calls : List (Path × Option Bool)) (slot : Nat) (reply : Rpc.Reply) (x : Site) :
    Site × Progress :=
  match calls[slot]? with
  | some (path, none) =>
    let answer := reply.flag (Rpc.Request.watchRemove path).method
    let x := if answer.isOk then x.dropWatch path else x
    let calls := calls.set slot (path, some answer.isOk)
    if calls.all (·.2.isSome) then
      x.finish id (.count (.ok (calls.countP (·.2 == some true))))
    else (x.wait id (.removingAll calls), .waiting)
  | _ => (x, .waiting)

/-! ## Events of an operation -/

/-- Lets an operation go on whose call in `slot` has ended with `reply`. -/
def settle (slot : Nat) (reply : Rpc.Reply) (x : Site) : Site × Progress :=
  match x.stage? id, slot with
  | some (.removingAll calls), slot => x.takeRemoval id calls slot reply
  | some (.batch directory since commands), 0 =>
    match reply.outputs commands with
    | .error e => x.giveUp id e
    | .ok outputs => x.takeOutputs now id directory since outputs
  | some (.scan h), 0 =>
    let scan := reply.markers.toOption.map (AncestorScan.mk h.directory)
    x.seekRoot now id { h with scan }
  | some (.adding path purpose), 0 =>
    let result := reply.flag (Rpc.Request.watchAdd path true).method
    let x := match result with
      | .ok true => { x with registry := (x.registry.register x.session.id path now).2 }
      | _ => x
    x.leaveDesk now id purpose result
  | some (.removing path), 0 =>
    match reply.flag (Rpc.Request.watchRemove path).method with
    | .error e => x.finish id (.flag (.error e))
    | .ok _ => (x.dropWatch path).finish id (.flag (.ok true))
  | some .listing, 0 =>
    match reply.watches with
    | .error e => x.finish id (.count (.error e))
    | .ok watches =>
      let registry := x.registry.replaceFor x.session.id (watches.map (·.1)) now
      Site.finish id (.count (.ok watches.length)) { x with registry }
  | _, _ => (x, .waiting)

/-- Drops an operation that has not ended: its scope closes and its places in the queues are free. -/
def abandon (x : Site) : Site :=
  match x.flight? id with
  | none => x
  | some f => (if f.stage.inScope then x.leaveScope.2 else x).remove id

/-- Puts a new operation into the table. -/
def enlist (operation : Operation) (stage : Stage) (x : Site) : FlightId × Site :=
  let id := x.session.next
  (id, { x with session := { x.session with
    flights := x.session.flights ++ [⟨id, operation, stage⟩]
    next := id + 1 } })

/-- Begins a prefetch, which waits at the gate unless it is first. -/
def launchPrefetch (operation : Operation) (directory : Path) (x : Site) :
    FlightId × Site × Progress :=
  let (id, x) := x.enlist operation (.atGate directory)
  (id, Site.proceed now id { x with session := { x.session with gate := x.session.gate ++ [id] } })

/-- Begins an operation. Of a closed session nothing can be asked, and a session that is not to prefetch
only refuses to. -/
def launch (operation : Operation) (x : Site) : FlightId × Site × Progress :=
  let id := x.session.next
  if x.session.closed then (id, x, ⟨[], some operation.refusal⟩)
  else match operation with
    | .prefetch directory =>
      if x.session.config.prefetch.enabled then x.launchPrefetch now operation directory
      else (id, x, ⟨[], some (.prefetched (.error .prefetchDisabled))⟩)
    | .render directory =>
      if x.session.config.prefetch.enabled then x.launchPrefetch now operation directory
      else (id, x, ⟨[], some .rendered⟩)
    | .watch path _ =>
      let (id, x) := x.enlist operation (.atDesk path .host)
      (id, x.queueAtDesk now id (.atDesk path .host))
    | .unwatch path _ =>
      if x.registry.isWatched x.session.id path then
        let (id, x) := x.enlist operation (.removing path)
        (id, x, .asking (.watchRemove path))
      else (id, x, ⟨[], some (.flag (.ok false))⟩)
    | .unwatchAll =>
      match x.watched with
      | [] => (id, x, ⟨[], some (.count (.ok 0))⟩)
      | paths =>
        let (id, x) := x.enlist operation (.removingAll (paths.map (·, none)))
        (id, x, ⟨paths.zipIdx.map fun (path, slot) => (slot, .watchRemove path), none⟩)
    | .resync =>
      let (id, x) := x.enlist operation .atDeskToList
      (id, x.queueAtDesk now id .atDeskToList)

end Site

end RemoteFacts.Session
