import RemoteFacts.Rehearsal.Server
import RemoteFacts.Session.Event

/-!
# Rehearsals

A rehearsal plays what a host does against a remote side by the book, on one thread and by a clock that
moves only when everybody waits. It decides nothing but the order of events: whatever is ready goes on in
the order in which it was begun.

* `Rehearsal.World` : the client, the remote side, the time and the record of calls;
* `World.send` : a call, which ends at once unless the remote side delays it;
* `World.follow` : the calls that an operation sends, as far as they end at once;
* `World.poll` : lets an operation go on that is ready;
* `Rehearsal.callAlone` : one call without sessions.
-/

namespace RemoteFacts.Rehearsal

/-- What a record of calls holds. -/
inductive Entry where
  | called (r : Rpc.Request)
  /-- A notification came; to a session that does not exist or does not listen, without effect. -/
  | pushed (effect : Option Session.Effect)

/-- A call that has not ended. -/
structure Pending where
  slot : Nat
  /-- When the reply comes. -/
  due : Nat
  /-- When the caller stops waiting, and for how long it has waited then. -/
  limit : Option (Nat × Nat)
  reply : Rpc.Reply
  after : List Push

/-- Notifications in the queue of a session that reads them as soon as everybody waits. -/
structure Feed where
  ticket : Nat
  session : Nat
  notifications : List Rpc.Notification

/-- All that a rehearsal keeps. -/
structure World where
  client : Client
  /-- Whether notifications sent along with calls reach the sessions. -/
  listening : Bool
  server : Server
  /-- How many milliseconds a call may take. -/
  limit : Option Nat
  millis : Nat
  /-- What was recorded since it was last asked for. -/
  log : List Entry
  feeds : List Feed
  nextTicket : Nat
  /-- The tickets of the queues that have been read. -/
  drained : List Nat
  /-- How often something has gone on. -/
  moves : Nat

namespace World

/-- A world in which nothing has happened. -/
def opened (client : Client) (listening : Bool) (server : Server) (limit : Option Nat) : World where
  client
  listening
  server
  limit
  millis := 0
  log := []
  feeds := []
  nextTicket := 0
  drained := []
  moves := 0

/-- One event of a session. -/
def step (i : Nat) (event : Session.Event) (w : World) : Session.Answer × World :=
  let (answer, client) := w.client.step i event
  (answer, { w with client })

/-- Adds to the record. -/
def note (e : Entry) (w : World) : World := { w with log := w.log ++ [e] }

/-- Hands a notification of the remote side to its session. -/
def push (p : Push) (w : World) : World :=
  if w.listening then
    match w.step p.session (.notify p.notification) with
    | (.effect e, w) => w.note (.pushed (some e))
    | (_, w) => w.note (.pushed none)
  else w.note (.pushed none)

/-- Makes a call: the reply if it ends at once, or else what is to be waited for. -/
def send (slot : Nat) (request : Rpc.Request) (w : World) : Sum Rpc.Reply Pending × World :=
  let reaction := w.server.reactionTo request
  let w := reaction.before.foldl (fun w p => w.push p) (w.note (.called request))
  if reaction.delayMillis = 0 then
    (.inl (reaction.reply request), reaction.after.foldl (fun w p => w.push p) w)
  else if w.limit = some 0 then (.inl (.timedOut 0), w)
  else
    (.inr {
      slot
      due := w.millis + reaction.delayMillis
      limit := w.limit.map fun limit => (w.millis + limit, limit)
      reply := reaction.reply request
      after := reaction.after }, w)

/-- What an operation waits for, and its outcome if it has ended. -/
structure Wait where
  pending : List Pending
  outcome : Option Session.Outcome

/-- Makes the calls of an operation, and those that it makes after a call that ends at once; at most `fuel`
calls follow one another. -/
def follow (i : Nat) (id : Session.FlightId) :
    (fuel : Nat) → (p : Session.Progress) → Wait → World → Wait × World
  | 0, _, wait, w => (wait, w)
  | fuel + 1, p, wait, w =>
    p.sent.foldl (fun (wait, w) (slot, request) =>
      match w.send slot request with
      | (.inr pending, w) => ({ wait with pending := wait.pending ++ [pending] }, w)
      | (.inl reply, w) =>
        match w.step i (.settle id slot reply) with
        | (.progress _ p, w) => follow i id fuel p wait w
        | (_, w) => (wait, w))
      ({ wait with outcome := p.outcome.or wait.outcome }, w)

/-- No operation makes more calls than these that follow one another. -/
def callsInARow : Nat := 8

/-- Lets an operation go on by one event, and makes the calls that follow. -/
def advance (i : Nat) (id : Session.FlightId) (event : Session.Event) (wait : Wait) (w : World) :
    Wait × World :=
  match w.step i event with
  | (.progress _ p, w) =>
    let moved := !p.sent.isEmpty || p.outcome.isSome
    let w := if moved then { w with moves := w.moves + 1 } else w
    follow i id callsInARow p wait w
  | (_, w) => (wait, w)

/-- Begins an operation. -/
def launch (i : Nat) (operation : Session.Operation) (w : World) :
    Session.FlightId × Wait × World :=
  match w.step i (.launch operation) with
  | (.progress id p, w) =>
    let (wait, w) := follow i id callsInARow p ⟨[], none⟩ w
    (id, wait, w)
  | (_, w) => (0, ⟨[], none⟩, w)

/-- Ends one call whose time has come, by its reply or by its limit. -/
def expire (i : Nat) (id : Session.FlightId) (p : Pending) (wait : Wait) (w : World) : Wait × World :=
  if p.due ≤ w.millis then
    let w := p.after.foldl (fun w p => w.push p) w
    advance i id (.settle id p.slot p.reply) wait { w with moves := w.moves + 1 }
  else match p.limit with
    | some (deadline, waited) =>
      if deadline ≤ w.millis then
        advance i id (.settle id p.slot (.timedOut waited)) wait { w with moves := w.moves + 1 }
      else ({ wait with pending := wait.pending ++ [p] }, w)
    | none => ({ wait with pending := wait.pending ++ [p] }, w)

/-- Lets an operation go on if its turn has come or calls of its have ended. -/
def poll (i : Nat) (id : Session.FlightId) (pending : List Pending) (w : World) : Wait × World :=
  let (wait, w) := advance i id (.proceed id) ⟨[], none⟩ w
  pending.foldl (fun (wait, w) p => expire i id p wait w) (wait, w)

/-- Lets every session read its queue. -/
def drain (w : World) : World :=
  w.feeds.foldl (fun w feed =>
    let w := feed.notifications.foldl (fun w n => (w.step feed.session (.notify n)).2) w
    { w with drained := w.drained ++ [feed.ticket], moves := w.moves + 1 })
    { w with feeds := [] }

/-- The record since it was last asked for, which begins anew. -/
def takeLog (w : World) : List Entry × World := (w.log, { w with log := [] })

end World

/-- One call without sessions: how it ends and what is recorded. -/
def callAlone (server : Server) (limit : Option Nat) (request : Rpc.Request) :
    Rpc.Reply × List Entry :=
  match (World.opened (Client.opened []) false server limit).send 0 request with
  | (.inl reply, w) => (reply, w.log)
  | (.inr p, w) =>
    match p.limit with
    | some (deadline, waited) =>
      if p.due ≤ deadline then (p.reply, (p.after.foldl (fun w p => w.push p) w).log)
      else (.timedOut waited, w.log)
    | none => (p.reply, (p.after.foldl (fun w p => w.push p) w).log)

end RemoteFacts.Rehearsal
