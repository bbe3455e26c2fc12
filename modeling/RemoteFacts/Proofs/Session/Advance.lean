import RemoteFacts.Proofs.Session.Table

/-!
# What an operation that goes on does to what is held

* `Advance` : it enters a scope, leaves it with or without keeping something, or changes nothing of what is held;
* `advance_turn`, `advance_start` : so does whatever takes an operation from one place to the next, or begins one;
* `advance_launch`, `advance_settle`, `advance_proceed`, `advance_abandon` : so does each event of an operation
  (`advance_step`).
-/

namespace RemoteFacts.Session

/-- What an operation that goes on at `now` can do to what the session holds. -/
inductive Advance (now : Nat) (v : Holding) : Holding → Prop where
  | rest : Advance now v v
  | enter (id : FlightId) (hidle : v.suppression.active = false) (hout : v.since? id = none) :
      Advance now v (v.enter now id)
  | leave (id : FlightId) (since : Nat) (hin : v.since? id = some since) : Advance now v (v.leave.quit id)
  | commit (id : FlightId) (h : Harvest) (hin : v.since? id = some h.since) : Advance now v (v.commit now id h)

theorem Advance.of_eq {now : Nat} {v w : Holding} (h : w = v) : Advance now v w := h ▸ Advance.rest

namespace Site

variable {now : Nat} {x : Site} {id : FlightId} {s stage : Stage} {reply? : Option Rpc.Reply} {yp : Site × Progress}

theorem holding_openScope (stage : Stage) (hs : (x.stage? id).isSome = true) (hst : stage.since? = some now) :
    (Site.wait id stage { x with session := { x.session with suppression := ⟨true, .empty⟩ } }).holding =
      x.holding.enter now id := by
  refine Holding.ext rfl rfl rfl rfl rfl (funext fun j => ?_)
  show Site.since? j (Site.wait id stage _) = Function.update (fun j => x.since? j) id (some now) j
  rw [since?, stage?_wait, Function.update_apply]
  split
  · next hj =>
    obtain ⟨s, hs⟩ := Option.isSome_iff_exists.1 hs
    show ((x.stage? id).map fun _ => stage).bind Stage.since? = _
    rw [hs]
    exact hst
  · rfl

/-- An operation that goes on in its scope, or outside of scopes, changes nothing of what is held. -/
theorem holding_wait_placed {desk : List FlightId} {registry : Watch.Registry} (hs : x.stage? id = some s)
    (hsame : s.since? = stage.since?) : ((x.placed desk registry).wait id stage).holding = x.holding := by
  have hin : (x.placed desk registry).since? id = stage.since? := (since?_of_stage? (x := x) hs).trans hsame
  exact holding_wait hin

/-- Whatever an operation passes when it goes on, what is held is affected in one way only. -/
theorem advance_turn (hturn : Turn now id reply? x yp) : Advance now x.holding yp.1.holding := by
  cases hturn with
  | rest => exact Advance.rest
  | enter hs hfirst hidle =>
    rw [holding_openScope _ (Option.isSome_of_eq_some hs) rfl]
    exact Advance.enter id hidle (since?_of_stage? hs)
  | refuse hs _ _ => exact Advance.of_eq (holding_remove_of_none (since?_of_stage? hs))
  | giveUp hs _ _ =>
    rw [holding_giveUp]
    exact Advance.leave id _ (since?_of_stage? hs)
  | carry desk _ hs hb hs' _ =>
    have hsame := (Stage.since?_of_brings hb).trans (Stage.since?_of_harvest? hs').symm
    exact Advance.of_eq (holding_wait_placed hs hsame)
  | commit desk registry hs hb _ =>
    have hin : (x.placed desk registry).holding.since? id = _ :=
      (since?_of_stage? (x := x) hs).trans (Stage.since?_of_brings hb)
    rw [holding_commit]
    exact Advance.commit id _ hin
  | goOn desk registry _ hs hhost hhost' _ =>
    have hsame := (Stage.since?_eq_none_of_host hhost).trans (Stage.since?_eq_none_of_host hhost').symm
    exact Advance.of_eq (holding_wait_placed hs hsame)
  | ended desk registry hs hhost _ _ =>
    have hout : (x.placed desk registry).since? id = none :=
      (since?_of_stage? (x := x) hs).trans (Stage.since?_eq_none_of_host hhost)
    exact Advance.of_eq (holding_remove_of_none hout)

/-- A new operation that is in no scope changes nothing of what is held. -/
theorem holding_enlist (operation : Operation) (hnew : x.stage? x.session.next = none) (hst : stage.since? = none) :
    (x.enlist operation stage).2.holding = x.holding := by
  refine Holding.ext rfl rfl rfl rfl rfl (funext fun j => ?_)
  show (x.enlist operation stage).2.since? j = x.since? j
  rw [since?_enlist hnew]
  split
  · next hj => rw [hst, since?, hj, hnew]; rfl
  · rfl

theorem holding_joined (operation : Operation) (directory : Path) (hnew : x.stage? x.session.next = none) :
    (x.joined operation (.atGate directory) x.session.suppression x.session.desk).holding = x.holding := by
  have henlisted : (x.enlist operation (.atGate directory)).2.holding = x.holding := holding_enlist operation hnew rfl
  exact henlisted

/-- A new operation enters a scope at once, or waits outside. -/
theorem advance_start {operation : Operation} (hnew : x.stage? x.session.next = none)
    (hstart : Start now operation x yp) : Advance now x.holding yp.1.holding := by
  cases hstart with
  | refused _ => exact Advance.rest
  | @prefetch directory _ _ _ hturn =>
    have hsame := holding_joined operation directory hnew
    exact hsame ▸ advance_turn hturn
  | host _ _ hstage hturn =>
    have hsame := holding_enlist operation hnew (Stage.since?_eq_none_of_host hstage)
    exact hsame ▸ advance_turn hturn
  | atOnce _ _ _ hstage => exact Advance.of_eq (holding_enlist operation hnew (Stage.since?_eq_none_of_host hstage))

/-! ## Events of an operation -/

theorem advance_launch {operation : Operation} (hnew : x.stage? x.session.next = none) :
    Advance now x.holding (x.launch now operation).2.1.holding := advance_start hnew (start_launch hnew)

theorem advance_settle {slot : Nat} {reply : Rpc.Reply} :
    Advance now x.holding (x.settle now id slot reply).1.holding := advance_turn turn_settle

theorem advance_proceed : Advance now x.holding (x.proceed now id).1.holding := by
  have hturn : Turn now id none x (x.proceed now id) := turn_proceed
  exact advance_turn hturn

theorem advance_abandon : Advance now x.holding (x.abandon id).holding := by
  have hmoves : Moves now x (.abandon id) (.nothing, x.abandon id) := moves_abandon
  generalize x.abandon id = y at hmoves
  cases hmoves with
  | dropInside hin =>
    rw [holding_remove]
    exact Advance.leave id _ hin
  | dropOutside _ hout => exact Advance.of_eq (holding_remove_of_none hout)
  | dropNone _ => exact Advance.rest
  | stay he _ _ => contradiction

/-- Each event that takes an operation on, drops it or begins it is one of these. -/
theorem advance_step {e : Event} (hx : x.Numbered) (hmover : x.mover? e = some id) :
    Advance now x.holding (x.step now e).2.holding := by
  cases e with
  | launch operation => exact advance_launch (hx.stage?_eq_none (Nat.le_refl _))
  | settle id slot reply => exact advance_settle
  | proceed id => exact advance_proceed
  | abandon id => exact advance_abandon
  | _ => contradiction

end Site

end RemoteFacts.Session
