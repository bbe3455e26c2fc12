import RemoteFacts.Proofs.Prefetch.Running

/-!
# A prefetch that does not succeed keeps nothing

* `abandon_of_running` : dropped while it waits, a prefetch leaves the site as it was;
* `failed_prefetch_keeps_nothing` : so it does when it answers an error; only the facts go, if its scope has dropped a
  notification.
-/

namespace RemoteFacts.Session

variable {x y z : Site} {directory : Path} {replies : List Rpc.Reply} {pushes : List Rpc.Notification}
  {outcome : Option Outcome}

theorem Waits.inScope {stage : Stage} {desk : List FlightId} (h : Waits x directory replies stage desk) :
    stage.inScope = true ∧ (desk = x.session.desk ∨ desk = x.session.desk ++ [x.session.next]) := by
  cases h with
  | batch since => exact ⟨rfl, Or.inl rfl⟩
  | scan hb hone hmarkers => exact ⟨rfl, Or.inl rfl⟩
  | atDesk path hb hscanned => exact ⟨rfl, Or.inr rfl⟩
  | adding path hb hscanned => exact ⟨rfl, Or.inr rfl⟩

/-- A prefetch that is dropped while it waits leaves the site as it was, without its facts if something was dropped. -/
theorem abandon_of_running (hx : x.Sound) (hy : Running x directory replies pushes y) :
    ∃ flushed, (flushed = true ↔ SomeNamed pushes) ∧
      y.abandon x.session.next = x.restored (x.session.next + 1) flushed := by
  cases hy with
  | atGate =>
    refine ⟨false, not_flushed, ?_⟩
    rw [Site.abandon, Site.flight?_joined hx.numbered]
    exact Site.remove_joined hx.numbered (Or.inl rfl)
  | @inScope _ _ stage desk report hidle hw htally =>
    obtain ⟨hscope, hdesk⟩ := hw.inScope
    have hremove :
        ((x.restored x.session.next report.needsFlush).joined (.prefetch directory) stage x.session.suppression
          desk).remove x.session.next = x.restored (x.session.next + 1) report.needsFlush :=
      Site.remove_joined (Site.numbered_restored hx _) hdesk
    refine ⟨report.needsFlush, htally.flush, ?_⟩
    rw [Site.abandon, Site.flight?_joined hx.numbered]
    simp only [hscope, if_true]
    rw [Site.leaveScope_joined hx hidle]
    exact hremove

theorem restored_of_failed (hx : x.Sound) (h : Course x directory replies pushes y outcome)
    (hfailed : (∃ e, outcome = some (.prefetched (.error e)) ∧ z = y) ∨ outcome = none ∧ z = y.abandon x.session.next) :
    ∃ next flushed, (flushed = true ↔ SomeNamed pushes) ∧ z = x.restored next flushed := by
  have hstands := h.standing hx []
  rcases hfailed with ⟨e, rfl, rfl⟩ | ⟨rfl, rfl⟩
  · have hended : Ended x directory replies pushes z (.prefetched (.error e)) := hstands
    cases hended with
    | failed _ next flushed hflush => exact ⟨next, flushed, hflush, rfl⟩
  · obtain ⟨flushed, hflush, hsame⟩ := abandon_of_running hx hstands
    exact ⟨_, flushed, hflush, hsame⟩

/-- A prefetch that answers an error, or is dropped while it waits, leaves what the last one left, the watches and the
scopes as they were, and of the caches either all or, if its scope has dropped a notification, nothing. -/
theorem failed_prefetch_keeps_nothing (hx : Client.Reaches x) (h : Course x directory replies pushes y outcome)
    (hfailed : (∃ e, outcome = some (.prefetched (.error e)) ∧ z = y) ∨ outcome = none ∧ z = y.abandon x.session.next) :
    z.session.transient = x.session.transient ∧ z.registry = x.registry ∧
    z.session.suppression = x.session.suppression ∧ z.session.hostScope = x.session.hostScope ∧
    z.session.gate = x.session.gate ∧ z.session.desk = x.session.desk ∧ z.session.flights = x.session.flights ∧
    (¬ SomeNamed pushes → z.session.store = x.session.store) ∧
    (SomeNamed pushes → z.session.store.existence.entries = [] ∧ z.session.store.truename.entries = []) := by
  obtain ⟨next, flushed, hflush, rfl⟩ := restored_of_failed (Site.sound_of_reaches hx) h hfailed
  refine ⟨rfl, rfl, rfl, rfl, rfl, rfl, rfl, fun hnone => ?_, fun hsome => ?_⟩
  · cases flushed with
    | false => rfl
    | true => exact absurd (hflush.1 rfl) hnone
  · rw [hflush.2 hsome]
    exact ⟨rfl, rfl⟩

/-- The batch fails after a notification has been dropped: a fact that was known is not any more. -/
theorem failed_prefetch_keeps_nothing_of_down :
    let x := (Site.step 0 (.recordExists ⟨"/r/f"⟩ true) ⟨Session.opened 0 {} 1 true, .empty⟩).2
    let change : Rpc.Notification := ⟨"fs.changed", .object [("paths", .array [.text "/r/g"])]⟩
    let y := ((x.launch 1 (.prefetch ⟨"/r"⟩)).2.1.notify change).2
    let z := (y.settle 2 0 0 (.failed "down")).1
    (∃ e, Course x ⟨"/r"⟩ [.failed "down"] [change] z (some (.prefetched (.error e)))) ∧
      x.session.store.existence.size = 1 ∧ z.session.store.existence.entries = [] := by
  intro x change y z
  have hreaches : Client.Reaches x :=
    ⟨[Session.opened 0 {} 1 true], 0, 0, {}, 1, [(0, .recordExists ⟨"/r/f"⟩ true)], rfl, rfl⟩
  have hnamed : change.Names ⟨"/r/g"⟩ := ⟨rfl, by decide +kernel, [⟨"/r/g"⟩], rfl, List.mem_singleton_self _⟩
  have hlaunched : Course x ⟨"/r"⟩ [] [] (x.launch 1 (.prefetch ⟨"/r"⟩)).2.1 none := Course.launch 1
  have hpushed : Course x ⟨"/r"⟩ [] [change] y none := Course.push change hlaunched rfl
  have hwaits : (y.stage? 0).any Stage.hasCall = true := by decide +kernel
  obtain ⟨stage, hstage, hcall⟩ := (Option.any_eq_true _ _).1 hwaits
  have hcourse := Course.reply 2 (.failed "down") hpushed hstage hcall
  have hanswered : ((y.settle 2 0 0 (.failed "down")).2.outcome.bind Outcome.error?).isSome = true := by decide +kernel
  have hfailed : ∃ e, (y.settle 2 0 0 (.failed "down")).2.outcome = some (.prefetched (.error e)) := by
    obtain ⟨e, he⟩ := Option.isSome_iff_exists.1 hanswered
    obtain ⟨outcome, houtcome, he⟩ := Option.bind_eq_some_iff.1 he
    exact ⟨e, houtcome.trans (congrArg some (Outcome.eq_of_error? he))⟩
  have hkept := failed_prefetch_keeps_nothing hreaches hcourse (Or.inl (hfailed.imp fun _ he => ⟨he, rfl⟩))
  obtain ⟨e, he⟩ := hfailed
  refine ⟨⟨e, he ▸ hcourse⟩, rfl, ?_⟩
  obtain ⟨-, -, -, -, -, -, -, -, hflushed⟩ := hkept
  exact (hflushed ⟨change, List.mem_singleton_self _, _, hnamed⟩).1

end RemoteFacts.Session
