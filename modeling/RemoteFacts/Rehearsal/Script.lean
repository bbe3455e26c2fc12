import RemoteFacts.Rehearsal.World

/-!
# Scripts

What a host does in a rehearsal: one thing after another, several at a time, some of it with a limit in
time, some of it inside a render.

* `Rehearsal.Query` : questions about a session that change nothing;
* `Rehearsal.Step`, `Rehearsal.Answer` : one thing to do, and what it answers;
* `Rehearsal.Running` : a step that has begun;
* `Running.begin`, `Running.poll`, `Running.drop` : begins a step, lets it go on, drops it;
* `Rehearsal.perform` : a step from its beginning to its end.
-/

namespace RemoteFacts.Rehearsal

/-- A question that changes nothing. -/
inductive Query where
  | output (program : String) (args : List String) (cwd : Path)
  | marker (path : Path) (name : String)
  | lookup (directory : Path) (key : String)
  | scan
  | watched
  | isWatched (path : Path)
  | planSize (directory : Path)

/-- One thing that a host does. -/
inductive Step where
  | event (session : Nat) (event : Session.Event)
  | launch (session : Nat) (operation : Session.Operation)
  | ask (session : Nat) (query : Query)
  | idle
  | setServer (behaviours : Server)
  /-- Puts notifications into the queue of a session and waits until it is read, unless it is stopped before. -/
  | feed (session : Nat) (notifications : List Rpc.Notification) (stopped : Bool)
  /-- Does `body` between a prefetch for a render and the release of what it left. -/
  | render (session : Nat) (directory : Path) (body : List Step)
  | together (steps : List Step)
  /-- Drops `step` if it still waits after so many milliseconds. -/
  | within (millis : Nat) (step : Step)

/-- What a step answers. -/
inductive Answer where
  | nothing
  | event (a : Session.Answer)
  | outcome (o : Session.Outcome)
  | output (o : Option CommandOutput)
  | marker (a : MarkerAnswer)
  | scan (s : Option AncestorScan)
  | paths (ps : List Path)
  | flag (b : Bool)
  | count (n : Nat)
  | list (as : List Answer)
  | dropped

/-- A step that has begun. -/
inductive Running where
  | ended (a : Answer)
  | flying (session : Nat) (id : Session.FlightId) (pending : List Pending)
  | feeding (ticket count : Nat)
  /-- Before the body of a render. -/
  | preparing (session : Nat) (prefetch : Running) (body : List Step)
  /-- In the body of a render, after the steps that have answered. -/
  | rendering (session : Nat) (answers : List Answer) (current : Running) (rest : List Step)
  | together (steps : List Running)
  | within (deadline : Nat) (step : Running)

/-- The answer to a question. -/
def Query.answer (x : Session.Site) : Query → Answer
  | output program args cwd => .output (x.session.output? program args cwd)
  | marker path name => .marker (x.session.transient.resolve path name)
  | lookup directory key => .output (x.session.transient.lookup? directory key)
  | scan => .scan (x.session.transient.scan.map (·.value))
  | watched => .paths x.watched
  | isWatched path => .flag (x.registry.isWatched x.session.id path)
  | planSize directory => .count (x.session.plan directory).commands.length

namespace Running

/-- The answer of a step, if it has ended. -/
def answer? : Running → Option Answer
  | ended a => some a
  | _ => none

/-- The answers of steps that have all ended. -/
def answers? (steps : List Running) : Option (List Answer) := steps.mapM answer?

/-- Steps that run together end when all have ended. -/
def gather (steps : List Running) : Running :=
  match answers? steps with
  | some answers => .ended (.list answers)
  | none => .together steps

/-- An operation after it has gone on. -/
def ofWait (i : Nat) (id : Session.FlightId) (wait : World.Wait) : Running :=
  match wait.outcome with
  | some outcome => .ended (.outcome outcome)
  | none => .flying i id wait.pending

mutual

/-- Drops a step: its operations are abandoned, and a render whose body has begun is released. -/
def drop (w : World) : Running → World
  | ended _ => w
  | flying i id _ => (w.step i (.abandon id)).2
  | feeding .. => w
  | preparing _ prefetch _ => drop w prefetch
  | rendering i _ current _ => ((drop w current).step i .release).2
  | together steps => dropAll w steps
  | within _ step => drop w step

/-- Drops several steps. -/
def dropAll (w : World) : List Running → World
  | [] => w
  | r :: rs => dropAll (drop w r) rs

end

/-- A step with a limit in time, after it has begun or gone on. -/
def limited (deadline : Nat) (step : Running) (w : World) : Running × World :=
  match step with
  | .ended a => (.ended a, w)
  | step =>
    if deadline ≤ w.millis then
      let w := step.drop w
      (.ended .dropped, { w with moves := w.moves + 1 })
    else (.within deadline step, w)

mutual

/-- Begins a step, which runs until it ends or has to wait. -/
def begin (w : World) : Step → Running × World
  | .event i e =>
    let (a, w) := w.step i e
    (.ended (.event a), w)
  | .launch i operation =>
    let (id, wait, w) := w.launch i operation
    (ofWait i id wait, w)
  | .ask i query =>
    (.ended (match w.client.site? i with | some x => query.answer x | none => .nothing), w)
  | .idle => (.ended .nothing, w)
  | .setServer behaviours => (.ended .nothing, { w with server := w.server.override behaviours })
  | .feed i notifications stopped =>
    let notifications := if stopped then [] else notifications
    let feed : Feed := ⟨w.nextTicket, i, notifications⟩
    (.feeding w.nextTicket notifications.length,
      { w with feeds := w.feeds ++ [feed], nextTicket := w.nextTicket + 1 })
  | .render i directory body =>
    let (id, wait, w) := w.launch i (.render directory)
    match ofWait i id wait with
    | .ended _ => beginBody i [] w body
    | prefetch => (.preparing i prefetch body, w)
  | .together steps =>
    let (steps, w) := beginAll w steps
    (gather steps, w)
  | .within millis step =>
    let deadline := w.millis + millis
    let (r, w) := begin w step
    limited deadline r w

/-- Begins steps one beside the other. -/
def beginAll (w : World) : List Step → List Running × World
  | [] => ([], w)
  | s :: ss =>
    let (r, w) := begin w s
    let (rs, w) := beginAll w ss
    (r :: rs, w)

/-- Goes on with the body of a render, which is released at its end. -/
def beginBody (i : Nat) (answers : List Answer) (w : World) : List Step → Running × World
  | [] => (.ended (.list answers), (w.step i .release).2)
  | s :: ss =>
    match begin w s with
    | (.ended a, w) => beginBody i (answers ++ [a]) w ss
    | (r, w) => (.rendering i answers r ss, w)

end

mutual

/-- Lets a step go on as far as it can. -/
def poll (w : World) : Running → Running × World
  | .ended a => (.ended a, w)
  | .flying i id pending =>
    let (wait, w) := w.poll i id pending
    (ofWait i id wait, w)
  | .feeding ticket count =>
    (if w.drained.contains ticket then .ended (.count count) else .feeding ticket count, w)
  | .preparing i prefetch body =>
    match poll w prefetch with
    | (.ended _, w) => beginBody i [] w body
    | (prefetch, w) => (.preparing i prefetch body, w)
  | .rendering i answers current rest =>
    match poll w current with
    | (.ended a, w) => beginBody i (answers ++ [a]) w rest
    | (current, w) => (.rendering i answers current rest, w)
  | .together steps =>
    let (steps, w) := pollAll w steps
    (gather steps, w)
  | .within deadline step =>
    let (r, w) := poll w step
    limited deadline r w

/-- Lets steps go on, in order. -/
def pollAll (w : World) : List Running → List Running × World
  | [] => ([], w)
  | r :: rs =>
    let (r, w) := poll w r
    let (rs, w) := pollAll w rs
    (r :: rs, w)

end

mutual

/-- The moments at which a step can go on. -/
def alarms : Running → List Nat
  | .ended _ => []
  | .flying _ _ pending => pending.flatMap fun p => p.due :: (p.limit.map (·.1)).toList
  | .feeding .. => []
  | .preparing _ prefetch _ => alarms prefetch
  | .rendering _ _ current _ => alarms current
  | .together steps => alarmsOf steps
  | .within deadline step => deadline :: alarms step

/-- The moments at which one of several steps can go on. -/
def alarmsOf : List Running → List Nat
  | [] => []
  | r :: rs => alarms r ++ alarmsOf rs

end

/-- Lets a step go on until it ends: in rounds while anything moves, and when nothing does, from the next
moment at which something can. -/
def complete : (fuel : Nat) → Running → World → Answer × World
  | _, .ended a, w => (a, w)
  | 0, _, w => (.nothing, w)
  | fuel + 1, r, w =>
    let (r', w') := poll w.drain r
    if w'.moves ≠ w.moves then complete fuel r' w'
    else match (alarms r').min? with
      | some moment => complete fuel r' { w' with millis := max moment w'.millis }
      | none => complete fuel r' w'

end Running

/-- No step takes more rounds than these. -/
def rounds : Nat := 100000

/-- Does one thing from its beginning to its end. -/
def perform (s : Step) (w : World) : Answer × World :=
  let (r, w) := Running.begin w s
  r.complete rounds w

end RemoteFacts.Rehearsal
