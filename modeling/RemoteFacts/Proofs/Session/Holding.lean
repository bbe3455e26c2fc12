import Mathlib.Logic.Function.Basic
import RemoteFacts.Session.Event

/-!
# The part of a session that coherence is about

* `Stage.since?`, `Site.since?` : the moment at which an operation has entered the scope that it is in;
* `flight?_wait`, `flight?_remove`, `flight?_enlist` : what the changes of the table do to the operations in it, and so
  to their stages (`stage?_wait`, `stage?_remove`, `stage?_enlist`);
* `Holding`, `Site.holding` : the facts, what the last prefetch left, the open scope and who is in it;
* `Holding.enter`, `Holding.leave`, `Holding.quit`, `Holding.commit` : entering a scope, closing it, and keeping what
  a prefetch has brought in (`holding_commit` : this is what `Site.commit` does).
-/

namespace RemoteFacts.Session

/-! ## Scopes of operations -/

/-- The moment at which a purpose's prefetch has entered its scope. -/
def Purpose.since? : Purpose → Option Nat
  | host => none
  | root h => some h.since

/-- The moment at which an operation that waits here has entered the scope that it is in. -/
def Stage.since? : Stage → Option Nat
  | batch _ since _ => some since
  | scan h => some h.since
  | atDesk _ purpose => purpose.since?
  | adding _ purpose => purpose.since?
  | _ => none

theorem Stage.isSome_since? (s : Stage) : s.since?.isSome = s.inScope := by
  cases s with
  | atDesk _ purpose => cases purpose <;> rfl
  | adding _ purpose => cases purpose <;> rfl
  | _ => rfl

namespace Site

variable {x : Site} {id j : FlightId} {stage : Stage}

/-- The moment at which the operation `id` has entered the scope that it is in. -/
def since? (id : FlightId) (x : Site) : Option Nat := (x.stage? id).bind Stage.since?

theorem stage?_of_find? {f : Flight} (h : x.flight? id = some f) : x.stage? id = some f.stage := by
  rw [stage?, h]; rfl

theorem since?_of_stage? (h : x.stage? id = some stage) : x.since? id = stage.since? := by
  rw [since?, h]; rfl

/-! ## The table -/

theorem flight?_wait : (x.wait id stage).flight? j =
    if j = id then (x.flight? id).map fun f => { f with stage } else x.flight? j := by
  have hname : ((fun f : Flight => f.id == j) ∘ fun f : Flight => if f.id == id then { f with stage } else f) =
      fun f => f.id == j := by
    funext f
    simp only [Function.comp]
    split <;> rfl
  simp only [flight?, wait, List.find?_map]
  rw [hname]
  by_cases hj : j = id
  · subst hj
    rw [if_pos rfl]
    cases hf : x.session.flights.find? fun f => f.id == j with
    | none => rfl
    | some f =>
      have hid : f.id = j := by simpa using List.find?_some hf
      simp [hid]
  · rw [if_neg hj]
    cases hf : x.session.flights.find? fun f => f.id == j with
    | none => rfl
    | some f =>
      have hid : f.id = j := by simpa using List.find?_some hf
      simp [hid, hj]

theorem flight?_remove : (x.remove id).flight? j = if j = id then none else x.flight? j := by
  simp only [flight?, remove, List.find?_filter]
  by_cases hj : j = id
  · subst hj
    rw [if_pos rfl, List.find?_eq_none.2]
    simp
  · rw [if_neg hj]
    congr 1
    funext f
    cases hf : f.id == j with
    | false => simp
    | true =>
      have hid : f.id = j := by simpa using hf
      simp [hid, hj]

theorem flight?_enlist {operation : Operation} (hnew : x.stage? x.session.next = none) :
    (x.enlist operation stage).2.flight? j =
      if j = x.session.next then some ⟨x.session.next, operation, stage⟩ else x.flight? j := by
  have hnone : x.session.flights.find? (fun f => f.id == x.session.next) = none := by
    simpa [stage?, flight?] using hnew
  simp only [flight?, enlist, List.find?_append, List.find?_singleton]
  by_cases hj : j = x.session.next
  · subst hj
    simp [hnone]
  · simp [hj, Ne.symm hj]

theorem stage?_wait : (x.wait id stage).stage? j =
    if j = id then (x.stage? id).map fun _ => stage else x.stage? j := by
  rw [stage?, flight?_wait]
  split
  · rw [stage?, Option.map_map, Option.map_map]
    rfl
  · rfl

theorem stage?_wait_self (hs : (x.stage? id).isSome = true) : (x.wait id stage).stage? id = some stage := by
  obtain ⟨s, hs⟩ := Option.isSome_iff_exists.1 hs
  rw [stage?_wait, if_pos rfl, hs]
  rfl

theorem stage?_remove : (x.remove id).stage? j = if j = id then none else x.stage? j := by
  rw [stage?, flight?_remove]
  split <;> rfl

theorem stage?_enlist {operation : Operation} (hnew : x.stage? x.session.next = none) :
    (x.enlist operation stage).2.stage? j = if j = x.session.next then some stage else x.stage? j := by
  rw [stage?, flight?_enlist hnew]
  split <;> rfl

theorem since?_wait (h : x.since? id = stage.since?) : (x.wait id stage).since? j = x.since? j := by
  rw [since?, stage?_wait]
  split
  · next hj =>
    subst hj
    rw [h]
    cases hs : x.stage? j with
    | none =>
      rw [since?, hs] at h
      exact h
    | some _ => rfl
  · rfl

theorem since?_remove : (x.remove id).since? j = if j = id then none else x.since? j := by
  rw [since?, stage?_remove]
  split <;> rfl

theorem since?_enlist {operation : Operation} (hnew : x.stage? x.session.next = none) :
    (x.enlist operation stage).2.since? j = if j = x.session.next then stage.since? else x.since? j := by
  rw [since?, stage?_enlist hnew]
  split <;> rfl

end Site

/-! ## What a session holds -/

/-- What a session holds of the remote side, and the scopes that keep notifications from it. -/
@[ext] structure Holding where
  store : FactStore
  transient : Transient
  suppression : Suppression
  hostScope : Bool
  flushesOnLeave : Bool
  /-- Since when an operation is in a scope of its own. -/
  since? : FlightId → Option Nat

namespace Holding

variable (now : Nat) (id : FlightId) (v : Holding)

/-- An operation opens a scope. -/
def enter : Holding :=
  { v with suppression := ⟨true, .empty⟩, since? := Function.update v.since? id (some now) }

/-- The open scope closes, and all facts go if it has dropped something. -/
def leave : Holding :=
  { v with
    store := if v.flushesOnLeave && v.suppression.report.needsFlush then v.store.flush else v.store
    suppression := .idle
    hostScope := false }

/-- An operation is in no scope any more. -/
def quit : Holding := { v with since? := Function.update v.since? id none }

/-- The facts of a harvest that no dropped notification makes worthless. -/
def fresh (h : Harvest) : List (Path × Bool) :=
  h.facts.filter fun f => !v.suppression.report.paths.any (touches · f.1)

/-- What a harvest leaves for a render; a scan goes if a dropped notification may falsify it. -/
def left (h : Harvest) : Transient where
  result := some ⟨h.since, h.result⟩
  scan := (h.scan.filter fun s => !v.suppression.report.paths.any s.isAffectedBy).map (⟨h.since, ·⟩)

/-- The scope of a prefetch closes, and what it has brought in is kept. -/
def commit (h : Harvest) : Holding :=
  { v.leave.quit id with
    store := (v.fresh h).foldl (fun s f => s.recordExists f.1 ⟨h.since, f.2⟩ now) v.leave.store
    transient := v.left h }

end Holding

namespace Site

variable {x : Site} {id : FlightId} {stage : Stage}

/-- What the session of a site holds. -/
def holding (x : Site) : Holding where
  store := x.session.store
  transient := x.session.transient
  suppression := x.session.suppression
  hostScope := x.session.hostScope
  flushesOnLeave := x.session.flushesOnLeave
  since? := fun id => x.since? id

/-- Another stage in the same scope changes nothing of it. -/
theorem holding_wait (h : x.since? id = stage.since?) : (x.wait id stage).holding = x.holding :=
  Holding.ext rfl rfl rfl rfl rfl (funext fun _ => since?_wait h)

theorem holding_remove : (x.remove id).holding = x.holding.quit id := by
  refine Holding.ext rfl rfl rfl rfl rfl (funext fun j => ?_)
  show (x.remove id).since? j = Function.update (fun j => x.since? j) id none j
  rw [since?_remove, Function.update_apply]

theorem quit_eq_self {v : Holding} (h : v.since? id = none) : v.quit id = v := by
  have hsame : Function.update v.since? id none = v.since? := by rw [← h, Function.update_eq_self]
  exact Holding.ext rfl rfl rfl rfl rfl hsame

theorem holding_remove_of_none (h : x.since? id = none) : (x.remove id).holding = x.holding := by
  rw [holding_remove]; exact quit_eq_self h

theorem holding_leaveScope : x.leaveScope.2.holding = x.holding.leave := rfl

theorem holding_giveUp {e : Error} : (x.giveUp id e).1.holding = x.holding.leave.quit id := by
  show (x.leaveScope.2.remove id).holding = _
  rw [holding_remove, holding_leaveScope]

theorem holding_commit (now : Nat) (h : Harvest) :
    (x.commit now id h).1.holding = x.holding.commit now id h := by
  unfold Site.commit
  exact holding_remove

end Site

end RemoteFacts.Session
