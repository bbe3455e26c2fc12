import RemoteFacts.Error

/-!
# Suppressed scopes

A prefetch touches the very files that it asks for, so the remote side reports them as changed. While a
scope is open such reports are dropped and counted instead of applied; whoever closes the scope learns what
was dropped and makes up for it. Scopes do not nest.

* `Suppression`, `Suppression.Report` : whether a scope is open, and what it has dropped;
* `Suppression.enter`, `Suppression.suppress`, `Suppression.leave`;
* `Suppression.Report.needsFlush` : whether something was dropped, so that a flush is due;
* `Suppression.within` : an operation inside a scope of its own.
-/

namespace RemoteFacts

/-- What a scope has dropped. -/
structure Suppression.Report where
  notifications : Nat
  /-- The paths that the notifications named, each once, in the spelling of the notification that named it first. -/
  paths : List Path

/-- The report of a scope that has dropped nothing. -/
def Suppression.Report.empty : Report := ⟨0, []⟩

/-- Whether a flush has to make up for what was dropped. -/
def Suppression.Report.needsFlush (r : Report) : Bool := decide (0 < r.notifications)

/-- Whether a scope is open, and its report so far. -/
structure Suppression where
  active : Bool
  report : Suppression.Report

namespace Suppression

/-- No scope is open. -/
def idle : Suppression := ⟨false, .empty⟩

/-- Opens a scope, unless one is open. -/
def enter (s : Suppression) : Except Error Suppression :=
  if s.active then .error .scopeActive else .ok ⟨true, .empty⟩

/-- Drops a notification that names `paths` if a scope is open, and tells whether it did. -/
def suppress (paths : List Path) (s : Suppression) : Bool × Suppression :=
  if s.active then
    (true, { s with report := {
      notifications := s.report.notifications + 1
      paths := Path.insertAll s.report.paths paths } })
  else (false, s)

/-- Closes the scope and hands out its report. -/
def leave (s : Suppression) : Report × Suppression := (s.report, idle)

/-- Runs `body` inside a scope of its own, which is closed whatever the body answers. -/
def within {α : Type} (body : Suppression → α × Suppression) (s : Suppression) :
    Except Error (α × Report) × Suppression :=
  match s.enter with
  | .error e => (.error e, s)
  | .ok s =>
    let (answer, s) := body s
    let (report, s) := s.leave
    (.ok (answer, report), s)

end Suppression

end RemoteFacts
