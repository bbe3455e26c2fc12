import RemoteFacts.Session.Flight

/-!
# What can happen to a session

Everything that happens to a session is one event at one moment: the host asks for something, a call ends, a
turn comes, an operation is dropped, or the remote side sends a notification. Events come in any order.

* `Session.Event`, `Session.Answer`;
* `Session.Site.step` : what one event changes and answers;
* `Client` : any number of sessions that share a registry, and the clock they are dated by;
* `Client.step`, `Client.run` : one event of one session, and a history of them.
-/

namespace RemoteFacts

namespace Session

/-- What can happen to a session. -/
inductive Event where
  | launch (operation : Operation)
  /-- The call in a slot of an operation has ended. -/
  | settle (id : FlightId) (slot : Nat) (reply : Rpc.Reply)
  /-- An operation that waits in a queue looks whether its turn has come. -/
  | proceed (id : FlightId)
  | abandon (id : FlightId)
  | notify (n : Rpc.Notification)
  | askExists (path : Path)
  | askTruename (path : Path)
  | recordExists (path : Path) (value : Bool)
  | recordTruename (path target : Path)
  | invalidate (path : Path)
  | flush
  | release
  | close
  | forgetWatches
  | enterScope
  | leaveScope

/-- What an event answers. -/
inductive Answer where
  | nothing
  /-- An operation has gone on, or has begun. -/
  | progress (id : FlightId) (p : Progress)
  | effect (e : Effect)
  | existence (known : Option Bool)
  | truename (known : Option Path)
  | count (n : Nat)
  | entered (result : Except Error Unit)
  | left (report : Option Suppression.Report)

/-- What one event at moment `now` answers and changes. -/
def Site.step (now : Nat) (event : Event) (x : Site) : Answer × Site :=
  match event with
  | .launch operation =>
    let (id, x, p) := x.launch now operation
    (.progress id p, x)
  | .settle id slot reply =>
    let (x, p) := x.settle now id slot reply
    (.progress id p, x)
  | .proceed id =>
    let (x, p) := x.proceed now id
    (.progress id p, x)
  | .abandon id => (.nothing, x.abandon id)
  | .notify n =>
    let (e, x) := x.notify n
    (.effect e, x)
  | .askExists path =>
    let (known, store) := x.session.store.exists? path now
    (.existence known, x.withStore store)
  | .askTruename path =>
    let (known, store) := x.session.store.truename? path now
    (.truename known, x.withStore store)
  | .recordExists path value =>
    (.nothing, x.withStore (x.session.store.recordExists path ⟨now, value⟩ now))
  | .recordTruename path target =>
    (.nothing, x.withStore (x.session.store.recordTruename path ⟨now, target⟩ now))
  | .invalidate path => (.nothing, x.invalidate path)
  | .flush => (.nothing, x.flush)
  | .release => (.nothing, x.release)
  | .close => (.nothing, x.close)
  | .forgetWatches =>
    let (n, x) := x.forgetWatches
    (.count n, x)
  | .enterScope =>
    let (result, x) := x.enterHostScope
    (.entered result, x)
  | .leaveScope =>
    let (report, x) := x.leaveHostScope
    (.left report, x)

end Session

/-- Sessions that share a registry, and the clock by which all of them date what they hold. -/
structure Client where
  registry : Watch.Registry
  sessions : List Session
  /-- The moment of the next event; no two events share one. -/
  clock : Nat

namespace Client

/-- A client in which nothing has happened. -/
def opened (sessions : List Session) : Client := ⟨.empty, sessions, 0⟩

/-- The session with this number and the registry. -/
def site? (c : Client) (i : Nat) : Option Session.Site :=
  c.sessions[i]?.map (⟨·, c.registry⟩)

/-- What one event of the session with number `i` answers and changes. -/
def step (i : Nat) (event : Session.Event) (c : Client) : Session.Answer × Client :=
  match c.site? i with
  | none => (.nothing, c)
  | some x =>
    let (answer, x) := x.step c.clock event
    (answer, ⟨x.registry, c.sessions.set i x.session, c.clock + 1⟩)

/-- A history of events, each with the number of its session. -/
def run (c : Client) (history : List (Nat × Session.Event)) : Client :=
  history.foldl (fun c e => (c.step e.1 e.2).2) c

end Client

end RemoteFacts
