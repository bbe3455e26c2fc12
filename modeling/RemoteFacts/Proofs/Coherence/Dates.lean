import RemoteFacts.Proofs.Session.History
import RemoteFacts.Proofs.Session.Shift

/-!
# The order of dates

* `Aged` : what the last prefetch left is older than the scope that is open, and that one is older than the present;
* `Aged.shift` : so it is after every event;
* `Client.InOrder` : names, scopes and dates are in order after a history (`InOrder.own`, `InOrder.other` : and after a
  longer one).
-/

namespace RemoteFacts.Session

variable {now : Nat} {v w : Holding} {e : Event}

/-- What the last prefetch left is older than every scope that an operation is in, and that one was entered in the
past. -/
structure Aged (now : Nat) (v : Holding) : Prop where
  result : ∀ r, v.transient.result = some r → r.asOf < now ∧ ∀ id since, v.since? id = some since → r.asOf < since
  scan : ∀ d, v.transient.scan = some d → d.asOf < now ∧ ∀ id since, v.since? id = some since → d.asOf < since
  scopes : ∀ id since, v.since? id = some since → since < now

namespace Aged

theorem mono {later : Nat} (h : Aged now v) (hnow : now ≤ later) : Aged later v where
  result r hr := ⟨Nat.lt_of_lt_of_le (h.result r hr).1 hnow, (h.result r hr).2⟩
  scan d hd := ⟨Nat.lt_of_lt_of_le (h.scan d hd).1 hnow, (h.scan d hd).2⟩
  scopes id since hs := Nat.lt_of_lt_of_le (h.scopes id since hs) hnow

theorem later (h : Aged now v) : Aged (now + 1) v := h.mono (Nat.le_succ now)

/-- Less is left, and nobody has entered a scope. -/
theorem of_subset (h : Aged now v) (hresult : ∀ r, w.transient.result = some r → v.transient.result = some r)
    (hscan : ∀ d, w.transient.scan = some d → v.transient.scan = some d)
    (hsince : ∀ id since, w.since? id = some since → v.since? id = some since) : Aged now w where
  result r hr := ⟨(h.result r (hresult r hr)).1,
    fun id since hs => (h.result r (hresult r hr)).2 id since (hsince id since hs)⟩
  scan d hd := ⟨(h.scan d (hscan d hd)).1, fun id since hs => (h.scan d (hscan d hd)).2 id since (hsince id since hs)⟩
  scopes id since hs := h.scopes id since (hsince id since hs)

theorem advance (h : Aged now v) (hx : Exclusive v) (hw : Advance now v w) : Aged (now + 1) w := by
  cases hw with
  | rest => exact h.later
  | enter id hidle hout =>
    have hnow : ∀ other since, (v.enter now id).since? other = some since → since = now := fun other since hs => by
      have hs' : Function.update v.since? id (some now) other = some since := hs
      rw [Function.update_apply] at hs'
      split at hs'
      · exact (Option.some.inj hs').symm
      · rw [hx.since?_eq_none hidle other] at hs'
        contradiction
    refine ⟨fun r hr => ⟨Nat.lt_succ_of_lt (h.result r hr).1, fun other since hs => ?_⟩,
      fun d hd => ⟨Nat.lt_succ_of_lt (h.scan d hd).1, fun other since hs => ?_⟩, fun other since hs => ?_⟩
    · exact hnow other since hs ▸ (h.result r hr).1
    · exact hnow other since hs ▸ (h.scan d hd).1
    · exact hnow other since hs ▸ Nat.lt_succ_self _
  | leave id since hin =>
    refine h.later.of_subset (fun _ hr => hr) (fun _ hd => hd) fun other s hs => ?_
    rw [show (v.leave.quit id).since? other = none from hx.since?_quit hin other] at hs
    contradiction
  | commit id harvest hin =>
    have hpast := h.scopes id harvest.since hin
    have hnone : ∀ other since, (v.commit now id harvest).since? other = some since → False := fun other since hs => by
      rw [show (v.commit now id harvest).since? other = none from hx.since?_quit hin other] at hs
      contradiction
    refine ⟨fun r hr => ⟨?_, fun other since hs => (hnone other since hs).elim⟩,
      fun d hd => ⟨?_, fun other since hs => (hnone other since hs).elim⟩,
      fun other since hs => (hnone other since hs).elim⟩
    · cases hr
      exact Nat.lt_succ_of_lt hpast
    · obtain ⟨scan, -, rfl⟩ := Option.map_eq_some_iff.1 hd
      exact Nat.lt_succ_of_lt hpast

theorem loses (h : Aged now v) (hw : Loses v w) : Aged (now + 1) w :=
  h.later.of_subset hw.result hw.scan fun _ _ hs => hw.since? ▸ hs

/-- Every event keeps the order of the dates. -/
theorem shift (h : Aged now v) (hx : Exclusive v) (hw : Shift now v e w) : Aged (now + 1) w := by
  cases hw with
  | advance _ hw => exact h.advance hx hw
  | lose _ hw => exact h.loses hw
  | apply n _ hw => exact h.loses hw
  | recordExists path value => exact h.later.of_subset (fun _ hr => hr) (fun _ hd => hd) fun _ _ hs => hs
  | recordTruename path target => exact h.later.of_subset (fun _ hr => hr) (fun _ hd => hd) fun _ _ hs => hs
  | enterHost _ => exact h.later.of_subset (fun _ hr => hr) (fun _ hd => hd) fun _ _ hs => hs
  | leaveHost _ => exact h.later.of_subset (fun _ hr => hr) (fun _ hd => hd) fun _ _ hs => hs
  | drop n _ => exact h.later.of_subset (fun _ hr => hr) (fun _ hd => hd) fun _ _ hs => hs

end Aged

theorem aged_opened (id : Watch.ConnectionId) (config : Config) (ticks : Nat) (flushesOnLeave : Bool)
    (registry : Watch.Registry) : Aged now (Site.holding ⟨opened id config ticks flushesOnLeave, registry⟩) :=
  ⟨nofun, nofun, nofun⟩

end RemoteFacts.Session

namespace RemoteFacts.Client

open Session

variable {c : Client} {i : Nat} {e : Event} {x : Site} {history : List (Nat × Event)}

/-- Names, scopes and dates of a session are in order after a history. -/
structure InOrder (c : Client) (history : List (Nat × Event)) (x : Site) : Prop where
  numbered : x.Numbered
  exclusive : Exclusive x.holding
  aged : Aged (c.run history).clock x.holding

theorem InOrder.own (h : c.InOrder history x) (hx : (c.run history).site? i = some x) :
    c.InOrder (history ++ [(i, e)]) (x.step (c.run history).clock e).2 := by
  have hshift : Shift (c.run history).clock x.holding e (x.step (c.run history).clock e).2.holding :=
    Site.shift_step h.numbered
  refine ⟨h.numbered.step, h.exclusive.shift hshift, ?_⟩
  rw [run_snoc, clock_step hx]
  exact h.aged.shift h.exclusive hshift

theorem InOrder.other {registry : Watch.Registry} (h : c.InOrder history x) (f : Nat × Event) :
    c.InOrder (history ++ [f]) { x with registry } :=
  ⟨⟨h.numbered.flights, h.numbered.gate, h.numbered.desk⟩, h.exclusive, h.aged.mono (clock_le_run_append _ _)⟩

theorem inOrder_opened (connection : Watch.ConnectionId) (config : Config) (ticks : Nat) (flushesOnLeave : Bool)
    (registry : Watch.Registry) :
    c.InOrder history ⟨Session.opened connection config ticks flushesOnLeave, registry⟩ :=
  ⟨Site.numbered_opened _ _ _ _ _, exclusive_opened _ _ _ _ _, aged_opened _ _ _ _ _⟩

end RemoteFacts.Client
