import RemoteFacts.Proofs.Coherence.Facts
import RemoteFacts.Proofs.Prefetch.Course
import RemoteFacts.Proofs.Session.Calls

/-!
# Prefetches never overlap

Prefetches of one session wait for each other at the gate. As long as the host opens no scope of its own, the scope that
is open is always that of the first one at the gate.

* `outcome_step` : no prefetch is ever told that a scope is open already;
* `Client.Pushed` : the notifications that have come since a moment (`tally_notify` : the report of a scope is about
  them);
* `Client.Serial`, `prefetches_never_overlap` : what all of this comes to, in every history.
-/

namespace RemoteFacts

/-! ## Refusals -/

theorem Rpc.Reply.outputs_ne_scopeActive {commands : List CommandSpec} {r : Rpc.Reply} :
    r.outputs commands ≠ .error .scopeActive := by
  have hdecode : r.decode (Rpc.Request.runParallel commands).method (Json.map? CommandOutput.ofJson?) ≠
      .error .scopeActive := by
    unfold decode value
    cases r with
    | answered result =>
      dsimp only
      split
      · exact nofun
      · simp only [bind, Except.bind]
        split <;> exact nofun
    | failed reason => exact nofun
    | timedOut millis => exact nofun
  unfold outputs
  dsimp only
  cases hall : r.decode (Rpc.Request.runParallel commands).method (Json.map? CommandOutput.ofJson?) with
  | error e =>
    rw [hall] at hdecode
    exact fun h => hdecode h
  | ok all =>
    simp only [bind, Except.bind]
    split <;> exact nofun

namespace Session

theorem Operation.report_ne_scopeActive {operation : Operation} {outcome : Outcome}
    (hout : outcome ≠ .prefetched (.error .scopeActive)) :
    operation.report outcome ≠ .prefetched (.error .scopeActive) := by
  unfold report
  split
  · exact nofun
  · exact nofun
  · exact nofun
  · exact hout

namespace Site

variable {now : Nat} {x y : Site} {id : FlightId} {reply? : Option Rpc.Reply} {p : Progress} {operation : Operation}
  {outcome : Outcome} {e : Event}

theorem finish_ne_scopeActive (hout : outcome ≠ .prefetched (.error .scopeActive)) :
    (x.finish id outcome).2.outcome ≠ some (.prefetched (.error .scopeActive)) := by
  unfold finish
  dsimp only
  split
  · exact fun h => Operation.report_ne_scopeActive hout (Option.some.inj h)
  · exact fun h => hout (Option.some.inj h)

/-- When its turn comes, an operation that waits at the gate finds no scope open. -/
def Clear (x : Site) : Prop :=
  ∀ id directory, x.stage? id = some (.atGate directory) → x.session.gate.head? = some id →
    x.session.suppression.active = false

/-- Whoever is first at the gate and not in a scope is alone, for else the one in the scope would be first. -/
theorem clear_of_gated (hgated : x.Gated) (hoccupied : Occupied x.holding) : x.Clear := by
  intro id directory hs hfirst
  by_contra hactive
  have hopen : x.session.suppression.active = true := by simpa using hactive
  obtain ⟨other, since, hin⟩ := hoccupied.inside hopen
  obtain rfl : id = other := Option.some.inj (hfirst.symm.trans (hgated.first other since hin))
  have hout : x.since? id = none := since?_of_stage? hs
  rw [show x.since? id = some since from hin] at hout
  contradiction

theorem outcome_turn (hclear : x.Clear) (hturn : Turn now id reply? x (y, p)) :
    p.outcome ≠ some (.prefetched (.error .scopeActive)) := by
  cases hturn with
  | rest => exact nofun
  | enter _ _ _ => exact nofun
  | refuse hs hfirst hactive =>
    rw [hclear id _ hs hfirst] at hactive
    contradiction
  | giveUp hs hreply hr =>
    refine finish_ne_scopeActive (x := x.leaveScope.2) fun h => ?_
    cases h
    exact Rpc.Reply.outputs_ne_scopeActive hr
  | carry _ _ _ _ _ _ => exact nofun
  | commit desk registry _ _ _ => exact finish_ne_scopeActive (x := (x.placed desk registry).landing now _) nofun
  | goOn _ _ _ _ _ _ _ => exact nofun
  | ended desk registry _ _ hout _ => exact finish_ne_scopeActive (x := x.placed desk registry) (hout _)

/-- No prefetch is told that a scope is open already. -/
theorem outcome_step (hnumbered : x.Numbered) (hgated : x.Gated) (hoccupied : Occupied x.holding)
    (hanswer : (x.step now e).1 = .progress id p) : p.outcome ≠ some (.prefetched (.error .scopeActive)) := by
  have hclear := clear_of_gated hgated hoccupied
  have hnew := hnumbered.stage?_eq_none (Nat.le_refl x.session.next)
  have hmoves : Moves now x e (x.step now e) := moves_step hnumbered
  generalize x.step now e = ay at hmoves hanswer
  cases hmoves with
  | @launch operation _ _ h =>
    cases hanswer
    cases h with
    | refused hout => exact fun h => hout (Option.some.inj h)
    | @prefetch directory _ _ _ hturn =>
      have hsame := holding_joined operation directory hnew
      exact outcome_turn (clear_of_gated (hgated.joined hnumbered) (hsame ▸ hoccupied)) hturn
    | host _ _ hstage hturn =>
      have hsame := holding_enlist operation hnew (Stage.since?_eq_none_of_host hstage)
      exact outcome_turn (clear_of_gated (hgated.enlist hnew hstage) (hsame ▸ hoccupied)) hturn
    | atOnce _ _ _ _ => exact nofun
  | settle h => cases hanswer; exact outcome_turn hclear h
  | proceed h => cases hanswer; exact outcome_turn hclear h
  | dropInside _ => contradiction
  | dropOutside _ _ => contradiction
  | dropNone _ => contradiction
  | stay _ hquiet _ =>
    cases hanswer
    contradiction

/-! ## Reports -/

variable {since : Nat}

/-- A notification that comes in an open scope is added to its report. -/
theorem tally_notify {pushes : List Rpc.Notification} (n : Rpc.Notification)
    (hactive : x.session.suppression.active = true) (h : Tally pushes x.session.suppression.report) :
    Tally (pushes ++ [n]) (x.notify n).2.session.suppression.report := by
  unfold notify
  split
  · next hnone =>
    refine h.of_ignored fun q hq => ?_
    obtain ⟨r, hr, -⟩ := Rpc.Notification.exists_mem_changedPaths hq
    rw [hnone] at hr
    contradiction
  · next hsome =>
    obtain ⟨q, hq⟩ := List.exists_mem_of_ne_nil _ hsome
    rw [Suppression.suppress, if_pos hactive]
    exact h.suppress hq

/-- An operation that is in a scope has just opened it, or was in it before and has the report it had then. -/
theorem report_of_shift {v w : Holding} (hw : Shift now v e w) (he : ∀ n, e ≠ .notify n) (hx : Exclusive v)
    (hin : w.since? id = some since) :
    w.suppression = v.suppression ∧ v.since? id = some since ∨ since = now ∧ w.suppression.report = .empty := by
  have hnone : ∀ u : Holding, (∀ other, u.since? other = none) → u.since? id ≠ some since := by
    intro u hu hsome
    rw [hu id] at hsome
    contradiction
  cases hw with
  | advance _ hw =>
    cases hw with
    | rest => exact Or.inl ⟨rfl, hin⟩
    | enter other hidle hout =>
      have hin' : Function.update v.since? other (some now) id = some since := hin
      rw [Function.update_apply] at hin'
      split at hin'
      · exact Or.inr ⟨(Option.some.inj hin').symm, rfl⟩
      · exact absurd hin' (hnone v (hx.since?_eq_none hidle))
    | leave other s hout => exact absurd hin (hnone (v.leave.quit other) (hx.since?_quit hout))
    | commit other h hout => exact absurd hin (hnone (v.commit now other h) (hx.since?_quit hout))
  | lose _ hw => exact Or.inl ⟨hw.suppression, hw.since? ▸ hin⟩
  | recordExists path value => exact Or.inl ⟨rfl, hin⟩
  | recordTruename path target => exact Or.inl ⟨rfl, hin⟩
  | enterHost hidle => exact absurd hin (hnone v (hx.since?_eq_none hidle))
  | leaveHost hhost => exact absurd hin (hnone v (hx.host hhost).2)
  | drop n _ => exact absurd rfl (he n)
  | apply n _ _ => exact absurd rfl (he n)

/-- The event by which an operation leaves its scope is its own; what was held is what the end of the scope leaves of
it, and if the prefetch has succeeded, what it keeps besides. -/
theorem leave_of_step (hnumbered : x.Numbered) (hx : Exclusive x.holding) (hin : x.since? id = some since)
    (hout : (x.step now e).2.since? id = none) : x.mover? e = some id ∧
      ((x.step now e).2.holding = x.holding.leave.quit id ∨
        ∃ h, h.since = since ∧ (x.step now e).2.holding = x.holding.commit now id h) := by
  have hmover : x.mover? e = some id := by
    by_contra hother
    rw [since?_step_of_ne hnumbered hother, hin] at hout
    contradiction
  refine ⟨hmover, ?_⟩
  have halone : ∀ other s, x.holding.since? other = some s → other = id := fun other s hother => by
    by_contra hne
    rw [hx.alone id since other hin hne] at hother
    contradiction
  have hadvance : Advance now x.holding (x.step now e).2.holding := advance_step hnumbered hmover
  have hleft : (x.step now e).2.holding.since? id = none := hout
  generalize (x.step now e).2.holding = w at hadvance hleft
  cases hadvance with
  | rest =>
    rw [show x.holding.since? id = some since from hin] at hleft
    contradiction
  | enter other hidle _ =>
    rw [hx.active id since hin] at hidle
    contradiction
  | leave other s hother =>
    obtain rfl := halone other s hother
    exact Or.inl rfl
  | commit other h hother =>
    obtain rfl := halone other h.since hother
    exact Or.inr ⟨h, Option.some.inj (hother.symm.trans hin), rfl⟩

end Site

end Session

namespace Client

open Session

variable {c : Client} {i j since : Nat} {id : FlightId} {e : Event} {x : Site} {history : List (Nat × Event)}
  {pushes : List Rpc.Notification}

/-- These are the notifications that have come to a session since a moment. -/
def Pushed (c : Client) (history : List (Nat × Event)) (i since : Nat) (pushes : List Rpc.Notification) : Prop :=
  ∀ n, n ∈ pushes ↔ ∃ u y, since < u ∧ c.Met history i u (.notify n) y

theorem pushed_nil (hlast : (c.run history).clock ≤ since + 1) : c.Pushed history i since [] := by
  intro n
  refine iff_of_false List.not_mem_nil ?_
  rintro ⟨u, y, hu, hmet⟩
  have hlt := hmet.lt_clock
  omega

theorem Pushed.snoc (h : c.Pushed history i since pushes) (hne : ∀ n, (j, e) ≠ (i, .notify n)) :
    c.Pushed (history ++ [(j, e)]) i since pushes := by
  intro n
  rw [h n]
  constructor
  · rintro ⟨u, y, hu, hmet⟩
    exact ⟨u, y, hu, hmet.snoc⟩
  · rintro ⟨u, y, hu, hmet⟩
    rcases hmet.of_snoc with hmet | ⟨rfl, rfl, -⟩
    · exact ⟨u, y, hu, hmet⟩
    · exact absurd rfl (hne n)

theorem Pushed.notify (h : c.Pushed history i since pushes) (n : Rpc.Notification)
    (hx : (c.run history).site? i = some x) (hpast : since < (c.run history).clock) :
    c.Pushed (history ++ [(i, .notify n)]) i since (pushes ++ [n]) := by
  intro m
  rw [List.mem_append, List.mem_singleton, h m]
  constructor
  · rintro (⟨u, y, hu, hmet⟩ | rfl)
    · exact ⟨u, y, hu, hmet.snoc⟩
    · exact ⟨_, x, hpast, met_last hx⟩
  · rintro ⟨u, y, hu, hmet⟩
    rcases hmet.of_snoc with hmet | ⟨-, hsame, -⟩
    · exact Or.inl ⟨u, y, hu, hmet⟩
    · cases hsame
      exact Or.inr rfl

/-! ## Whole histories -/

/-- What holds of a session after every history in which the host opens no scope of its own. -/
structure Orderly (c : Client) (history : List (Nat × Event)) (i : Nat) (x : Site) : Prop extends
    c.InOrder history x where
  assigned : x.Assigned
  gated : x.Gated
  occupied : Occupied x.holding
  sourced : c.Sourced history i x.holding
  inTurn : Site.InTurn (c.calls i history) x
  reported : ∀ id since, x.since? id = some since →
    ∃ pushes, c.Pushed history i since pushes ∧ Tally pushes x.session.suppression.report

theorem Orderly.reported_own (h : c.Orderly history i x) (hx : (c.run history).site? i = some x)
    (hin : (x.step (c.run history).clock e).2.since? id = some since) : ∃ pushes,
      c.Pushed (history ++ [(i, e)]) i since pushes ∧
        Tally pushes (x.step (c.run history).clock e).2.session.suppression.report := by
  by_cases hpush : ∃ n, e = .notify n
  · obtain ⟨n, rfl⟩ := hpush
    have hin' : x.since? id = some since := by
      rw [← hin]
      exact (Site.since?_step_of_ne h.numbered fun hmover => by contradiction).symm
    obtain ⟨pushes, hpushed, htally⟩ := h.reported id since hin'
    have hactive : x.session.suppression.active = true := h.exclusive.active id since hin'
    exact ⟨pushes ++ [n], hpushed.notify n hx (h.aged.scopes id since hin'), Site.tally_notify n hactive htally⟩
  · have hquiet : ∀ n, e ≠ .notify n := fun n hn => hpush ⟨n, hn⟩
    have hshift : Shift (c.run history).clock x.holding e (x.step (c.run history).clock e).2.holding :=
      Site.shift_step h.numbered
    rcases Site.report_of_shift hshift hquiet h.exclusive hin with ⟨hsame, hin'⟩ | ⟨rfl, hempty⟩
    · obtain ⟨pushes, hpushed, htally⟩ := h.reported id since hin'
      refine ⟨pushes, hpushed.snoc fun n hn => hquiet n (Prod.mk.inj hn).2, ?_⟩
      show Tally pushes (x.step (c.run history).clock e).2.holding.suppression.report
      rw [hsame]
      exact htally
    · refine ⟨[], pushed_nil ?_, ?_⟩
      · exact Nat.le_of_eq (run_snoc ▸ clock_step hx)
      · show Tally [] (x.step (c.run history).clock e).2.holding.suppression.report
        rw [hempty]
        exact tally_nil

theorem Orderly.own (h : c.Orderly history i x) (hx : (c.run history).site? i = some x) (he : e ≠ .enterScope) :
    c.Orderly (history ++ [(i, e)]) i (x.step (c.run history).clock e).2 := by
  have hshift : Shift (c.run history).clock x.holding e (x.step (c.run history).clock e).2.holding :=
    Site.shift_step h.numbered
  refine ⟨h.toInOrder.own hx, h.assigned.step h.numbered, h.gated.step h.numbered, h.occupied.shift hshift he,
    h.sourced.step hx h.numbered, ?_, fun id since hin => h.reported_own hx hin⟩
  rw [calls_snoc hx]
  exact Site.inTurn_step h.numbered h.assigned h.gated h.inTurn

theorem Orderly.other {registry : Watch.Registry} (h : c.Orderly history i x) (hj : j ≠ i) :
    c.Orderly (history ++ [(j, e)]) i { x with registry } := by
  have hcalls : c.calls i (history ++ [(j, e)]) = c.calls i history := calls_snoc_of_ne hj
  refine ⟨h.toInOrder.other (j, e), h.assigned, ⟨h.gated.ordered, h.gated.listed, h.gated.first⟩, h.occupied,
    h.sourced.snoc, hcalls ▸ ⟨h.inTurn.ordered, h.inTurn.past⟩, fun id since hin => ?_⟩
  obtain ⟨pushes, hpushed, htally⟩ := h.reported id since hin
  exact ⟨pushes, hpushed.snoc fun n hn => hj (Prod.mk.inj hn).1, htally⟩

theorem orderly_opened (connection : Watch.ConnectionId) (config : Config) (ticks : Nat) (flushesOnLeave : Bool)
    (registry : Watch.Registry) :
    c.Orderly [] i ⟨Session.opened connection config ticks flushesOnLeave, registry⟩ where
  toInOrder := inOrder_opened _ _ _ _ _
  assigned := nofun
  gated := ⟨List.Pairwise.nil, fun _ => iff_of_false List.not_mem_nil Bool.false_ne_true, nofun⟩
  occupied := Occupied.of_idle rfl rfl
  sourced := sourced_opened _ _ _ _ _
  inTurn := ⟨List.Pairwise.nil, nofun⟩
  reported := nofun

theorem orderly_run {sessions : List Session} {connection : Watch.ConnectionId} {config : Config} {ticks : Nat}
    {flushesOnLeave : Bool} (hopened : sessions[i]? = some (Session.opened connection config ticks flushesOnLeave))
    (hown : (i, Event.enterScope) ∉ history) :
    ∃ x, ((opened sessions).run history).site? i = some x ∧ (opened sessions).Orderly history i x := by
  have hstart : (opened sessions).site? i = some ⟨Session.opened connection config ticks flushesOnLeave, .empty⟩ := by
    rw [site?, opened, hopened]
    rfl
  let P : List (Nat × Event) → Site → Prop := fun history x =>
    (i, Event.enterScope) ∉ history → (opened sessions).Orderly history i x
  have hstep : ∀ history x e, ((opened sessions).run history).site? i = some x → P history x →
      P (history ++ [(i, e)]) (x.step ((opened sessions).run history).clock e).2 := by
    intro history x e hx h hown
    rw [List.mem_append, not_or, List.mem_singleton] at hown
    exact Orderly.own (h hown.1) hx fun he => hown.2 (by rw [he])
  have hother : ∀ history x j e registry, j ≠ i → P history x → P (history ++ [(j, e)]) { x with registry } :=
    fun history x j e registry hj h hown => Orderly.other (h fun hin => hown (List.mem_append_left _ hin)) hj
  have hinit : P [] ⟨Session.opened connection config ticks flushesOnLeave, .empty⟩ := fun _ => orderly_opened _ _ _ _ _
  obtain ⟨x, hx, horderly⟩ := run_invariant (P := P) hstart hinit hstep hother
  exact ⟨x, hx, horderly hown⟩

/-- Whatever a session meets in such a history, it meets in a state of that kind. -/
theorem orderly_of_met {sessions : List Session} {connection : Watch.ConnectionId} {config : Config} {ticks t : Nat}
    {flushesOnLeave : Bool} {y : Site}
    (hopened : sessions[i]? = some (Session.opened connection config ticks flushesOnLeave))
    (hown : (i, Event.enterScope) ∉ history) (hmet : (opened sessions).Met history i t e y) :
    ∃ before, (opened sessions).Orderly before i y := by
  obtain ⟨before, after, rfl, -, hy⟩ := hmet
  have hbefore : (i, Event.enterScope) ∉ before := fun hin => hown (List.mem_append_left _ hin)
  obtain ⟨x, hx, horderly⟩ := orderly_run hopened hbefore
  obtain rfl : x = y := Option.some.inj (hx.symm.trans hy)
  exact ⟨before, horderly⟩

/-- What it means that the prefetches of a session, which `history` has led to the state `x`, have not overlapped. -/
structure Serial (c : Client) (history : List (Nat × Event)) (i : Nat) (x : Site) : Prop where
  /-- A scope is open exactly while some prefetch is between entering and leaving its own. -/
  active : x.session.suppression.active = true ↔ ∃ id, (x.since? id).isSome = true
  /-- Such a prefetch holds the gate, so it is the only one. -/
  first : ∀ id, (x.since? id).isSome = true → x.session.gate.head? = some id
  /-- A prefetch whose turn has come finds no scope open. -/
  clear : x.Clear
  /-- No prefetch has ever been told that a scope is open already. -/
  granted : ∀ t e y id p, c.Met history i t e y → (y.step t e).1 = .progress id p →
    p.outcome ≠ some (.prefetched (.error .scopeActive))
  unmixed : Site.Unmixed (c.calls i history)
  /-- The report of the open scope is about the notifications that have come since its prefetch has entered it. -/
  reported : ∀ id since, x.since? id = some since → c.Entered history i since id ∧
    ∃ pushes, c.Pushed history i since pushes ∧ Tally pushes x.session.suppression.report
  /-- Whoever has entered a scope has left it itself and made up for its report. -/
  consumed : ∀ t e y id since, c.Met history i t e y → y.since? id = some since → (y.step t e).2.since? id = none →
    y.mover? e = some id ∧ ((y.step t e).2.holding = y.holding.leave.quit id ∨
      ∃ h, h.since = since ∧ (y.step t e).2.holding = y.holding.commit t id h)

/-- The prefetches of a session never overlap, whatever else happens to it and in whatever order, as long as the host
opens no scope of its own. -/
theorem prefetches_never_overlap {sessions : List Session} {connection : Watch.ConnectionId} {config : Config}
    {ticks : Nat} {flushesOnLeave : Bool}
    (hopened : sessions[i]? = some (Session.opened connection config ticks flushesOnLeave))
    (hown : (i, Event.enterScope) ∉ history) :
    ∃ x, ((opened sessions).run history).site? i = some x ∧ (opened sessions).Serial history i x := by
  obtain ⟨x, hx, h⟩ := orderly_run hopened hown
  refine ⟨x, hx, ⟨⟨fun hactive => ?_, ?_⟩, ?_, Site.clear_of_gated h.gated h.occupied, ?_, h.inTurn.unmixed, ?_, ?_⟩⟩
  · obtain ⟨id, since, hin⟩ := h.occupied.inside hactive
    exact ⟨id, Option.isSome_of_eq_some hin⟩
  · rintro ⟨id, hin⟩
    obtain ⟨since, hin⟩ := Option.isSome_iff_exists.1 hin
    exact h.exclusive.active id since hin
  · intro id hin
    obtain ⟨since, hin⟩ := Option.isSome_iff_exists.1 hin
    exact h.gated.first id since hin
  · intro t e y id p hmet hanswer
    obtain ⟨before, hy⟩ := orderly_of_met hopened hown hmet
    exact Site.outcome_step hy.numbered hy.gated hy.occupied hanswer
  · intro id since hin
    exact ⟨h.sourced.scopes id since hin, h.reported id since hin⟩
  · intro t e y id since hmet hin hout
    obtain ⟨before, hy⟩ := orderly_of_met hopened hown hmet
    exact Site.leave_of_step hy.numbered hy.exclusive hin hout

/-- Three prefetches at once: one fails after a notification has been dropped, one is cancelled at the gate, and the
third one enters its scope then. -/
theorem prefetches_never_overlap_of_three :
    let client := opened [Session.opened 0 {} 1 true]
    let history : List (Nat × Event) := [(0, .launch (.prefetch ⟨"/a"⟩)), (0, .launch (.render ⟨"/b"⟩)),
      (0, .launch (.prefetch ⟨"/c"⟩)), (0, .notify ⟨"fs.changed", .object [("paths", .array [.text "/a/f"])]⟩),
      (0, .settle 0 0 (.failed "down")), (0, .abandon 1), (0, .proceed 2)]
    (0, Event.enterScope) ∉ history ∧ (client.calls 0 history).map Call.flight = [0, 2] ∧
    Site.Unmixed (client.calls 0 history) ∧
    ∃ x, (client.run history).site? 0 = some x ∧ x.session.gate.head? = some 2 ∧ client.Entered history 0 6 2 ∧
      x.session.suppression.active = true := by
  intro client history
  have hown : (0, Event.enterScope) ∉ history := by
    simp [history]
  have hopened : [Session.opened 0 {} 1 true][0]? = some (Session.opened 0 {} 1 true) := rfl
  obtain ⟨x, hx, hserial⟩ := prefetches_never_overlap hopened hown
  have hinside : ((client.run history).site? 0).bind (Site.since? 2) = some 6 := by decide +kernel
  have hin : x.since? 2 = some 6 := by
    rw [hx] at hinside
    exact hinside
  have hsome : (x.since? 2).isSome = true := Option.isSome_of_eq_some hin
  refine ⟨hown, by decide +kernel, hserial.unmixed, x, hx, hserial.first 2 hsome, (hserial.reported 2 6 hin).1, ?_⟩
  exact hserial.active.2 ⟨2, hsome⟩

end Client

end RemoteFacts
