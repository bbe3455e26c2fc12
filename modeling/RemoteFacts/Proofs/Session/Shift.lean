import RemoteFacts.Proofs.Fact
import RemoteFacts.Proofs.Session.Advance
import RemoteFacts.Proofs.Session.Table

/-!
# What one event does to what is held

* `Loses` : facts and the answers of the last prefetch may go, and nothing else changes;
* `Shift`, `shift_step` : an event lets an operation go on, loses something, records a fact for the host, opens or
  closes the scope of the host, or reports changes, which are dropped or applied;
* `Exclusive` : an operation in a scope is alone in it (`exclusive_opened`, `Exclusive.shift`).
-/

namespace RemoteFacts.Session

/-- `w` is what is left of `v` when facts and answers of the last prefetch go. -/
structure Loses (v w : Holding) : Prop where
  existence : ∀ e ∈ w.store.existence.entries, e ∈ v.store.existence.entries
  truename : ∀ e ∈ w.store.truename.entries, e ∈ v.store.truename.entries
  result : ∀ r, w.transient.result = some r → v.transient.result = some r
  scan : ∀ d, w.transient.scan = some d → v.transient.scan = some d
  suppression : w.suppression = v.suppression
  hostScope : w.hostScope = v.hostScope
  flushesOnLeave : w.flushesOnLeave = v.flushesOnLeave
  since? : w.since? = v.since?

theorem Loses.refl (v : Holding) : Loses v v :=
  ⟨fun _ h => h, fun _ h => h, fun _ h => h, fun _ h => h, rfl, rfl, rfl, rfl⟩

/-- What one event at `now` can do to what a session holds. -/
inductive Shift (now : Nat) (v : Holding) : Event → Holding → Prop where
  | advance {e : Event} {w : Holding} (he : ∀ n, e ≠ .notify n) (h : Advance now v w) : Shift now v e w
  | lose {e : Event} {w : Holding} (he : ∀ n, e ≠ .notify n) (h : Loses v w) : Shift now v e w
  | recordExists (path : Path) (value : Bool) : Shift now v (.recordExists path value)
      { v with store := v.store.recordExists path ⟨now, value⟩ now }
  | recordTruename (path target : Path) : Shift now v (.recordTruename path target)
      { v with store := v.store.recordTruename path ⟨now, target⟩ now }
  | enterHost (hidle : v.suppression.active = false) :
      Shift now v .enterScope { v with suppression := ⟨true, .empty⟩, hostScope := true }
  | leaveHost (hhost : v.hostScope = true) : Shift now v .leaveScope v.leave
  | drop (n : Rpc.Notification) (hactive : v.suppression.active = true) :
      Shift now v (.notify n) { v with suppression := (v.suppression.suppress n.changedPaths).2 }
  | apply (n : Rpc.Notification) {w : Holding} (hidle : v.suppression.active = false ∨ ∀ p, ¬ n.Names p) (h : Loses v w)
      (existence : ∀ e ∈ w.store.existence.entries, ∀ p, n.Names p → ¬ p.Unsettles e.key)
      (truename : ∀ e ∈ w.store.truename.entries, ∀ p, n.Names p → ¬ p.Unsettles e.key)
      (scan : ∀ d, w.transient.scan = some d → ∀ p, n.Names p → d.value.isAffectedBy p = false) :
      Shift now v (.notify n) w

namespace Site

variable {now : Nat} {x : Site}

/-! ## Losses -/

theorem loses_flush : Loses x.holding x.flush.holding :=
  ⟨nofun, nofun, nofun, nofun, rfl, rfl, rfl, rfl⟩

theorem loses_close : Loses x.holding x.close.holding := by
  unfold close
  split
  · exact Loses.refl _
  · exact ⟨nofun, nofun, nofun, nofun, rfl, rfl, rfl, rfl⟩

theorem loses_release : Loses x.holding x.release.holding :=
  ⟨fun _ h => h, fun _ h => h, nofun, nofun, rfl, rfl, rfl, rfl⟩

theorem loses_invalidate (path : Path) : Loses x.holding (x.invalidate path).holding :=
  ⟨fun _ h => (FactStore.mem_dropAround.1 h).1, fun _ h => (FactStore.mem_dropAround.1 h).1, fun _ h => h,
    fun _ h => h, rfl, rfl, rfl, rfl⟩

theorem loses_askExists (path : Path) : Loses x.holding (x.withStore (x.session.store.exists? path now).2).holding :=
  ⟨fun _ h => Cache.mem_of_mem_get h, fun _ h => h, fun _ h => h, fun _ h => h, rfl, rfl, rfl, rfl⟩

theorem loses_askTruename (path : Path) :
    Loses x.holding (x.withStore (x.session.store.truename? path now).2).holding :=
  ⟨fun _ h => h, fun _ h => Cache.mem_of_mem_get h, fun _ h => h, fun _ h => h, rfl, rfl, rfl, rfl⟩

/-! ## Notifications -/

theorem scan_dropScanFor {t : Transient} {path : Path} {d : Dated AncestorScan}
    (h : (t.dropScanFor path).scan = some d) : t.scan = some d ∧ d.value.isAffectedBy path = false := by
  unfold Transient.dropScanFor at h
  obtain ⟨hd, hunaffected⟩ := Option.filter_eq_some_iff.1 h
  exact ⟨hd, by simpa using hunaffected⟩

/-- An applied notification takes all that one of its paths may falsify. -/
theorem loses_foldl_applyChange (paths : List Path) :
    Loses x.holding (paths.foldl applyChange x).holding ∧
      (∀ e ∈ (paths.foldl applyChange x).session.store.existence.entries, ∀ p ∈ paths, ¬ p.Unsettles e.key) ∧
      (∀ e ∈ (paths.foldl applyChange x).session.store.truename.entries, ∀ p ∈ paths, ¬ p.Unsettles e.key) ∧
      ∀ d, (paths.foldl applyChange x).session.transient.scan = some d →
        ∀ p ∈ paths, d.value.isAffectedBy p = false := by
  induction paths generalizing x with
  | nil =>
    refine ⟨Loses.refl _, ?_, ?_, ?_⟩
    · exact fun _ _ _ hp => nomatch hp
    · exact fun _ _ _ hp => nomatch hp
    · exact fun _ _ _ hp => nomatch hp
  | cons p ps ih =>
    obtain ⟨h, hexistence, htruename, hscan⟩ := ih (x := x.applyChange p)
    refine ⟨⟨fun e he => ?_, fun e he => ?_, h.result, fun d hd => ?_, h.suppression, h.hostScope, h.flushesOnLeave,
      h.since?⟩, fun e he q hq => ?_, fun e he q hq => ?_, fun d hd q hq => ?_⟩
    · exact (FactStore.mem_dropAround.1 (h.existence e he)).1
    · exact (FactStore.mem_dropAround.1 (h.truename e he)).1
    · exact (scan_dropScanFor (h.scan d hd)).1
    · rcases List.mem_cons.1 hq with rfl | hq
      · exact (FactStore.mem_dropAround.1 (h.existence e he)).2
      · exact hexistence e he q hq
    · rcases List.mem_cons.1 hq with rfl | hq
      · exact (FactStore.mem_dropAround.1 (h.truename e he)).2
      · exact htruename e he q hq
    · rcases List.mem_cons.1 hq with rfl | hq
      · exact (scan_dropScanFor (h.scan d hd)).2
      · exact hscan d hd q hq

theorem shift_notify (n : Rpc.Notification) : Shift now x.holding (.notify n) (x.notify n).2.holding := by
  unfold notify
  split
  · next hnone =>
    have hnames : ∀ p, ¬ n.Names p := fun p hp => by
      obtain ⟨r, hr, -⟩ := Rpc.Notification.exists_mem_changedPaths hp
      rw [hnone] at hr
      contradiction
    exact Shift.apply n (Or.inr hnames) (Loses.refl _) (fun _ _ p hp => absurd hp (hnames p))
      (fun _ _ p hp => absurd hp (hnames p))
      fun _ _ p hp => absurd hp (hnames p)
  · cases hactive : x.session.suppression.active with
    | true =>
      have hdrop : Shift now x.holding (.notify n) _ := Shift.drop n hactive
      simp only [holding, Suppression.suppress, hactive, if_true] at hdrop ⊢
      exact hdrop
    | false =>
      simp only [Suppression.suppress, hactive]
      obtain ⟨h, hexistence, htruename, hscan⟩ := loses_foldl_applyChange (x := x) n.changedPaths
      refine Shift.apply n (Or.inl hactive) h (fun e he p hp => ?_) (fun e he p hp => ?_) fun d hd p hp => ?_
      · obtain ⟨r, hr, hrp⟩ := Rpc.Notification.exists_mem_changedPaths hp
        exact fun hu => hexistence e he r hr (hu.congr (BEq.symm hrp) BEq.rfl)
      · obtain ⟨r, hr, hrp⟩ := Rpc.Notification.exists_mem_changedPaths hp
        exact fun hu => htruename e he r hr (hu.congr (BEq.symm hrp) BEq.rfl)
      · obtain ⟨r, hr, hrp⟩ := Rpc.Notification.exists_mem_changedPaths hp
        rw [← AncestorScan.isAffectedBy_congr hrp]
        exact hscan d hd r hr

/-! ## Scopes of the host -/

theorem transient_enterHostScope : x.enterHostScope.2.session.transient = x.session.transient := by
  unfold enterHostScope
  split <;> rfl

theorem transient_leaveHostScope : x.leaveHostScope.2.session.transient = x.session.transient := by
  unfold leaveHostScope
  split <;> rfl

theorem shift_enterScope : Shift now x.holding .enterScope x.enterHostScope.2.holding := by
  unfold enterHostScope Suppression.enter
  cases hactive : x.session.suppression.active with
  | true => exact Shift.lose nofun (Loses.refl _)
  | false => exact Shift.enterHost (v := x.holding) hactive

theorem shift_leaveScope : Shift now x.holding .leaveScope x.leaveHostScope.2.holding := by
  unfold leaveHostScope
  split
  · next hhost => exact Shift.leaveHost (v := x.holding) hhost
  · exact Shift.lose nofun (Loses.refl _)

/-- Each event is one of these. -/
theorem shift_step {e : Event} (hx : x.Numbered) : Shift now x.holding e (x.step now e).2.holding := by
  cases e with
  | launch operation => exact Shift.advance nofun (advance_launch (hx.stage?_eq_none (Nat.le_refl _)))
  | settle id slot reply => exact Shift.advance nofun advance_settle
  | proceed id => exact Shift.advance nofun advance_proceed
  | abandon id => exact Shift.advance nofun advance_abandon
  | notify n => exact shift_notify n
  | askExists path => exact Shift.lose nofun (loses_askExists path)
  | askTruename path => exact Shift.lose nofun (loses_askTruename path)
  | recordExists path value => exact Shift.recordExists path value
  | recordTruename path target => exact Shift.recordTruename path target
  | invalidate path => exact Shift.lose nofun (loses_invalidate path)
  | flush => exact Shift.lose nofun loses_flush
  | release => exact Shift.lose nofun loses_release
  | close => exact Shift.lose nofun loses_close
  | forgetWatches => exact Shift.lose nofun (Loses.refl _)
  | enterScope => exact shift_enterScope
  | leaveScope => exact shift_leaveScope

end Site

/-! ## Who is in a scope -/

/-- A scope is that of one operation or of the host; none has a report. -/
structure Exclusive (v : Holding) : Prop where
  active : ∀ id since, v.since? id = some since → v.suppression.active = true
  alone : ∀ id since other, v.since? id = some since → other ≠ id → v.since? other = none
  host : v.hostScope = true → v.suppression.active = true ∧ ∀ id, v.since? id = none
  idle : v.suppression.active = false → v.suppression = .idle

namespace Exclusive

variable {now : Nat} {v w : Holding} {id : FlightId} {since : Nat} {e : Event}

theorem since?_eq_none (h : Exclusive v) (hidle : v.suppression.active = false) (id : FlightId) :
    v.since? id = none := by
  cases hs : v.since? id with
  | none => rfl
  | some since =>
    have hactive := h.active id since hs
    rw [hidle] at hactive
    contradiction

/-- When the one operation that is in the scope leaves it, none is left in it. -/
theorem since?_quit (h : Exclusive v) (hin : v.since? id = some since) (other : FlightId) :
    (v.quit id).since? other = none := by
  show Function.update v.since? id none other = none
  rw [Function.update_apply]
  split
  · rfl
  · next hne => exact h.alone id since other hin hne

/-- When nobody is in a scope and none is open, all is well. -/
theorem of_idle (hnone : ∀ id, v.since? id = none) (hhost : v.hostScope = false) (hidle : v.suppression = .idle) :
    Exclusive v := by
  refine ⟨fun id since hs => ?_, fun id since other hs _ => hnone other, fun h => ?_, fun _ => hidle⟩
  · rw [hnone id] at hs
    contradiction
  · rw [hhost] at h
    contradiction

theorem advance (h : Exclusive v) (hw : Advance now v w) : Exclusive w := by
  cases hw with
  | rest => exact h
  | enter id hidle hout =>
    have hnone := h.since?_eq_none hidle
    refine ⟨fun _ _ _ => rfl, fun i since other hi hne => ?_, fun hhost => ?_, fun hno => nomatch hno⟩
    · have hi' : Function.update v.since? id (some now) i = some since := hi
      rw [Function.update_apply] at hi'
      split at hi'
      · next heq =>
        show Function.update v.since? id (some now) other = none
        rw [Function.update_of_ne (heq ▸ hne)]
        exact hnone other
      · rw [hnone i] at hi'
        contradiction
    · have hactive := (h.host hhost).1
      rw [hidle] at hactive
      contradiction
  | leave id since hin => exact of_idle (h.since?_quit hin) rfl rfl
  | commit id harvest hin => exact of_idle (h.since?_quit hin) rfl rfl

theorem loses (h : Exclusive v) (hw : Loses v w) : Exclusive w := by
  refine ⟨?_, ?_, ?_, ?_⟩
  · rw [hw.since?, hw.suppression]; exact h.active
  · rw [hw.since?]; exact h.alone
  · rw [hw.since?, hw.suppression, hw.hostScope]; exact h.host
  · rw [hw.suppression]; exact h.idle

/-- Every event keeps scopes to one operation or the host. -/
theorem shift (h : Exclusive v) (hw : Shift now v e w) : Exclusive w := by
  cases hw with
  | advance _ hw => exact h.advance hw
  | lose _ hw => exact h.loses hw
  | apply n _ hw => exact h.loses hw
  | recordExists path value => exact ⟨h.active, h.alone, h.host, h.idle⟩
  | recordTruename path target => exact ⟨h.active, h.alone, h.host, h.idle⟩
  | enterHost hidle =>
    have hnone := h.since?_eq_none hidle
    exact ⟨fun _ _ _ => rfl, h.alone, fun _ => ⟨rfl, hnone⟩, fun hno => nomatch hno⟩
  | leaveHost hhost => exact of_idle (h.host hhost).2 rfl rfl
  | drop n hactive =>
    have hstill : (v.suppression.suppress n.changedPaths).2.active = true := by
      simp [Suppression.suppress, hactive]
    refine ⟨fun _ _ _ => hstill, h.alone, fun hhost => ⟨hstill, (h.host hhost).2⟩, fun hidle => ?_⟩
    rw [hstill] at hidle
    contradiction

end Exclusive

theorem exclusive_opened (id : Watch.ConnectionId) (config : Config) (ticks : Nat) (flushesOnLeave : Bool)
    (registry : Watch.Registry) : Exclusive (Site.holding ⟨opened id config ticks flushesOnLeave, registry⟩) :=
  Exclusive.of_idle (fun _ => rfl) rfl rfl

end RemoteFacts.Session
