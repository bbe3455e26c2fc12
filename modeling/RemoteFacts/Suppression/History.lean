import RemoteFacts.Suppression

/-!
# Histories of suppressed scopes

The host holds at most one scope of its own, which it closes or drops; operations may run in scopes of
theirs. A flush is due once for each scope that dropped something, when it has been closed.

* `Suppression.Act`, `Suppression.Holder` : what a host does, and what it holds;
* `Suppression.Holder.step` : one act, with its answer and the flushes that it makes due;
* `Suppression.Holder.run` : a history of acts.
-/

namespace RemoteFacts.Suppression

/-- What a host does about scopes. -/
inductive Act where
  | enter
  | suppress (paths : List Path)
  | close
  /-- Gives up the scope that is held without asking for its report. -/
  | drop
  /-- Drops notifications inside a scope that lasts as long as the operation does, which may try to open
  another one at its end, and may fail. -/
  | run (notifications : List (List Path)) (nested : Bool) (fault : Option String)

/-- What an act answers. -/
inductive Reply where
  | entered (result : Except Error Unit)
  | suppressed (b : Bool)
  | report (r : Option Report)
  | dropped (held : Bool)
  /-- What each notification of an operation met, and then its attempt to open another scope. -/
  | ran (result : Except Error (List Bool × Option (Except Error Unit)))

/-- Whether a scope is open, and whether it is the host's. -/
structure Holder where
  suppression : Suppression
  held : Bool

/-- The flushes that the end of a scope makes due. -/
def flushes (r : Report) : List Report := if r.needsFlush then [r] else []

/-- Drops several notifications, one after the other. -/
def suppressEach (s : Suppression) : List (List Path) → List Bool × Suppression
  | [] => ([], s)
  | paths :: rest =>
    let (b, s) := s.suppress paths
    let (bs, s) := suppressEach s rest
    (b :: bs, s)

/-- What happens in the scope of an operation. -/
def body (notifications : List (List Path)) (nested : Bool) (s : Suppression) :
    (List Bool × Option (Except Error Unit)) × Suppression :=
  let (bs, s) := suppressEach s notifications
  if nested then
    let (result, s) := s.within fun s => ((), s)
    ((bs, some (result.map fun _ => ())), s)
  else ((bs, none), s)

namespace Holder

/-- No scope is open. -/
def idle : Holder := ⟨.idle, false⟩

/-- Closes the scope that the host holds. -/
def release (h : Holder) : Option Report × List Report × Holder :=
  if h.held then
    let (r, s) := h.suppression.leave
    (some r, flushes r, ⟨s, false⟩)
  else (none, [], h)

/-- One act, with its answer and the flushes that it makes due. -/
def step (h : Holder) : Act → Reply × List Report × Holder
  | .enter =>
    match h.suppression.enter with
    | .error e => (.entered (.error e), [], h)
    | .ok s => (.entered (.ok ()), [], ⟨s, true⟩)
  | .suppress paths =>
    let (b, s) := h.suppression.suppress paths
    (.suppressed b, [], { h with suppression := s })
  | .close =>
    let (r, due, h) := h.release
    (.report r, due, h)
  | .drop =>
    let (r, due, h) := h.release
    (.dropped r.isSome, due, h)
  | .run notifications nested fault =>
    match h.suppression.within (body notifications nested) with
    | (.error e, _) => (.ran (.error e), [], h)
    | (.ok (answers, r), s) =>
      let answer := match fault with
        | some reason => .error (.internal reason)
        | none => .ok answers
      (.ran answer, flushes r, { h with suppression := s })

/-- A history of acts, each with its answer, the flushes that it makes due and what is held after it. -/
def run (h : Holder) : List Act → List (Reply × List Report × Holder)
  | [] => []
  | act :: acts =>
    let (reply, due, h) := h.step act
    (reply, due, h) :: run h acts

end Holder

end RemoteFacts.Suppression
