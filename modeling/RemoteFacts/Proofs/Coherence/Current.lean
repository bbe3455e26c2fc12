import RemoteFacts.Proofs.Session.Shift

/-!
# No fact is older than a change

* `Suppression.Reports` : the open scope has dropped a notification that named a path;
* `Settled`, `Current` : a fact that a delivered notification may falsify is younger than it, or the open scope reports
  the notification;
* `Current.shift` : so it is after every event, whatever it is (`current_opened` : and in the beginning).
-/

namespace RemoteFacts

/-- The open scope has dropped a notification that named `p`. -/
def Suppression.Reports (s : Suppression) (p : Path) : Prop := s.active = true ∧ ∃ r ∈ s.report.paths, (r == p) = true

namespace Suppression

variable {s : Suppression} {p : Path}

theorem not_reports_of_idle (hidle : s.active = false) : ¬ s.Reports p := by
  rintro ⟨hactive, -⟩
  rw [hidle] at hactive
  contradiction

theorem not_reports_of_nil (hnone : s.report.paths = []) : ¬ s.Reports p := by
  rintro ⟨-, r, hr, -⟩
  rw [hnone] at hr
  contradiction

theorem reports_suppress (h : s.Reports p) (paths : List Path) : (s.suppress paths).2.Reports p := by
  obtain ⟨hactive, r, hr, hrp⟩ := h
  rw [suppress, if_pos hactive]
  refine ⟨hactive, Path.exists_mem_of_contains ?_⟩
  rw [Path.contains_insertAll, Path.contains_of_mem hr hrp, Bool.true_or]

/-- What a notification names is in the report of the scope that drops it. -/
theorem reports_of_names {n : Rpc.Notification} (hactive : s.active = true) (hp : n.Names p) :
    (s.suppress n.changedPaths).2.Reports p := by
  obtain ⟨r, hr, hrp⟩ := Rpc.Notification.exists_mem_changedPaths hp
  rw [suppress, if_pos hactive]
  refine ⟨hactive, Path.exists_mem_of_contains ?_⟩
  rw [Path.contains_insertAll, Path.contains_of_mem hr hrp, Bool.or_true]

end Suppression

namespace Session

/-- Each fact is younger than every notification that may falsify it, unless the open scope reports the notification;
`D t p` says that one that names `p` was delivered at `t`. -/
def Settled {α : Type} (D : Nat → Path → Prop) (s : Suppression) (c : Cache (Dated α)) : Prop :=
  ∀ e ∈ c.entries, ∀ t p, D t p → p.Unsettles e.key → t < e.value.asOf ∨ s.Reports p

theorem Settled.younger {α : Type} {D : Nat → Path → Prop} {s : Suppression} {c : Cache (Dated α)} (h : Settled D s c)
    (hs : ∀ p, ¬ s.Reports p) {e : Cache.Entry (Dated α)} (he : e ∈ c.entries) {t : Nat} {p : Path} (hp : D t p)
    (hu : p.Unsettles e.key) : t < e.value.asOf :=
  (h e he t p hp hu).resolve_right (hs p)

/-- What is held agrees with the notifications delivered so far. -/
structure Current (D : Nat → Path → Prop) (now : Nat) (v : Holding) : Prop where
  existence : Settled D v.suppression v.store.existence
  truename : Settled D v.suppression v.store.truename
  /-- A prefetch that is in its scope brings in facts as old as its entry. -/
  scopes : ∀ id since, v.since? id = some since → ∀ t p, D t p → t < since ∨ v.suppression.Reports p
  past : ∀ t p, D t p → t < now
  /-- Whoever has dropped a path will have the facts flushed. -/
  counted : v.suppression.report.paths ≠ [] → v.suppression.report.needsFlush = true
  flushes : v.flushesOnLeave = true

namespace Current

variable {D D' : Nat → Path → Prop} {now later : Nat} {v w : Holding} {e : Event}

/-- Time passes, and fewer notifications ask for less. -/
theorem mono (h : Current D now v) (hD : ∀ t p, D' t p → D t p) (hnow : now ≤ later) : Current D' later v where
  existence e he t p hp := h.existence e he t p (hD t p hp)
  truename e he t p hp := h.truename e he t p (hD t p hp)
  scopes id since hs t p hp := h.scopes id since hs t p (hD t p hp)
  past t p hp := Nat.lt_of_lt_of_le (h.past t p (hD t p hp)) hnow
  counted := h.counted
  flushes := h.flushes

/-! ## Scopes that close -/

/-- What the end of a scope leaves is younger than every notification that may falsify it. -/
theorem settled_leave (h : Current D now v) : Settled D .idle v.leave.store.existence ∧
    Settled D .idle v.leave.store.truename := by
  unfold Holding.leave
  cases hflush : v.suppression.report.needsFlush with
  | true =>
    simp only [h.flushes, Bool.and_self, if_true]
    exact ⟨nofun, nofun⟩
  | false =>
    simp only [h.flushes, Bool.and_false, Bool.false_eq_true, if_false]
    have hnone : v.suppression.report.paths = [] := by
      by_contra hpaths
      rw [h.counted hpaths] at hflush
      contradiction
    have hfree : ∀ p, ¬ v.suppression.Reports p := fun p => Suppression.not_reports_of_nil hnone
    exact ⟨fun e he t p hp hu => Or.inl (h.existence.younger hfree he hp hu),
      fun e he t p hp hu => Or.inl (h.truename.younger hfree he hp hu)⟩

theorem quit {id : FlightId} {since : Nat} (h : Current D now v) (hx : Exclusive v) (hin : v.since? id = some since) :
    Current D now (v.quit id) where
  existence := h.existence
  truename := h.truename
  scopes other s hs := by
    rw [hx.since?_quit hin other] at hs
    contradiction
  past := h.past
  counted := h.counted
  flushes := h.flushes

/-- A scope that nobody is in any more can close. -/
theorem leave (h : Current D now v) (hnone : ∀ id, v.since? id = none) : Current D now v.leave where
  existence := h.settled_leave.1
  truename := h.settled_leave.2
  scopes id since hs := by
    rw [show v.leave.since? id = none from hnone id] at hs
    contradiction
  past := h.past
  counted hpaths := absurd rfl hpaths
  flushes := h.flushes

/-- A fact that no dropped notification touches is younger than every one that may falsify it. -/
theorem settled_commit {harvest : Harvest} {id : FlightId} (h : Current D now v)
    (hin : v.since? id = some harvest.since) : Settled D .idle (v.commit now id harvest).store.existence := by
  intro e he t p hp hu
  rcases FactStore.mem_foldl_recordExists he with he | ⟨f, hf, hkey, -, hvalue⟩
  · exact h.settled_leave.1 e he t p hp hu
  · refine Or.inl ?_
    rw [hvalue]
    rcases h.scopes id harvest.since hin t p hp with hlt | ⟨-, r, hr, hrp⟩
    · exact hlt
    -- else the scope has dropped the notification, and the fact would not have passed its filter
    · have htouched : touches r f.1 = true := touches_of_unsettles (hu.congr BEq.rfl hkey) hrp
      have hfresh := (List.mem_filter.1 hf).2
      rw [List.any_eq_true.2 ⟨r, hr, htouched⟩] at hfresh
      contradiction

theorem commit {harvest : Harvest} {id : FlightId} (h : Current D now v) (hx : Exclusive v)
    (hin : v.since? id = some harvest.since) : Current D now (v.commit now id harvest) where
  existence := h.settled_commit hin
  truename := by
    show Settled D .idle (List.foldl _ v.leave.store _).truename
    rw [FactStore.truename_foldl_recordExists]
    exact h.settled_leave.2
  scopes other since hs := by
    rw [show (v.commit now id harvest).since? other = none from hx.since?_quit hin other] at hs
    contradiction
  past := h.past
  counted hpaths := absurd rfl hpaths
  flushes := h.flushes

/-! ## Scopes that open -/

/-- A scope opens when none is open: up to now every fact is younger than what may falsify it. -/
theorem enter (h : Current D now v) (hidle : v.suppression.active = false) (since? : FlightId → Option Nat)
    (hsince : ∀ id since, since? id = some since → since = now) (hostScope : Bool) :
    Current D now { v with suppression := ⟨true, .empty⟩, since?, hostScope } := by
  have hfree : ∀ p, ¬ v.suppression.Reports p := fun p => Suppression.not_reports_of_idle hidle
  refine ⟨fun e he t p hp hu => ?_, fun e he t p hp hu => ?_, fun id since hs t p hp => ?_, h.past,
    fun hpaths => absurd rfl hpaths, h.flushes⟩
  · exact Or.inl (h.existence.younger hfree he hp hu)
  · exact Or.inl (h.truename.younger hfree he hp hu)
  · exact Or.inl (hsince id since hs ▸ h.past t p hp)

theorem advance (h : Current D now v) (hx : Exclusive v) (hw : Advance now v w) : Current D now w := by
  cases hw with
  | rest => exact h
  | enter id hidle hout =>
    refine h.enter hidle _ (fun i since hs => ?_) v.hostScope
    rw [Function.update_apply] at hs
    split at hs
    · exact (Option.some.inj hs).symm
    · rw [hx.since?_eq_none hidle i] at hs
      contradiction
  | leave id since hin =>
    exact (h.quit hx hin).leave (hx.since?_quit hin)
  | commit id harvest hin => exact h.commit hx hin

/-! ## Facts that come and go -/

theorem loses (h : Current D now v) (hw : Loses v w) : Current D now w := by
  refine ⟨fun e he => ?_, fun e he => ?_, ?_, h.past, ?_, hw.flushesOnLeave.trans h.flushes⟩
  · rw [hw.suppression]
    exact h.existence e (hw.existence e he)
  · rw [hw.suppression]
    exact h.truename e (hw.truename e he)
  · rw [hw.since?, hw.suppression]
    exact h.scopes
  · rw [hw.suppression]
    exact h.counted

/-- What is recorded now is younger than all that has been delivered. -/
theorem settled_put {α : Type} {s : Suppression} {c : Cache (Dated α)} {path : Path} {value : α}
    (hpast : ∀ t p, D t p → t < now) (h : Settled D s c) : Settled D s (c.put path ⟨now, value⟩ now) := by
  intro e he t p hp hu
  rcases Cache.mem_put he with he | ⟨-, -, hvalue⟩
  · exact h e he t p hp hu
  · rw [hvalue]
    exact Or.inl (hpast t p hp)

/-! ## Notifications -/

theorem past_succ {n : Rpc.Notification} (h : Current D now v) (hD : ∀ t p, D' t p → D t p ∨ t = now ∧ n.Names p)
    (t : Nat) (p : Path) (hp : D' t p) : t < now + 1 := by
  rcases hD t p hp with hp | ⟨rfl, -⟩
  · exact Nat.lt_succ_of_lt (h.past t p hp)
  · exact Nat.lt_succ_self _

theorem drop {n : Rpc.Notification} (h : Current D now v) (hactive : v.suppression.active = true)
    (hD : ∀ t p, D' t p → D t p ∨ t = now ∧ n.Names p) :
    Current D' (now + 1) { v with suppression := (v.suppression.suppress n.changedPaths).2 } := by
  have hkeeps : ∀ {t a : Nat} {p : Path}, D' t p → (D t p → t < a ∨ v.suppression.Reports p) →
      t < a ∨ (v.suppression.suppress n.changedPaths).2.Reports p := by
    intro t a p hp hold
    rcases hD t p hp with hp | ⟨-, hp⟩
    · exact (hold hp).imp_right fun hr => Suppression.reports_suppress hr _
    · exact Or.inr (Suppression.reports_of_names hactive hp)
  refine ⟨fun e he t p hp hu => ?_, fun e he t p hp hu => ?_, fun id since hs t p hp => ?_, h.past_succ hD, ?_,
    h.flushes⟩
  · exact hkeeps hp fun hp => h.existence e he t p hp hu
  · exact hkeeps hp fun hp => h.truename e he t p hp hu
  · exact hkeeps hp fun hp => h.scopes id since hs t p hp
  · intro _
    rw [Suppression.suppress, if_pos hactive]
    exact decide_eq_true (Nat.succ_pos _)

theorem apply {n : Rpc.Notification} (h : Current D now v) (hx : Exclusive v) (hw : Loses v w)
    (hexistence : ∀ e ∈ w.store.existence.entries, ∀ p, n.Names p → ¬ p.Unsettles e.key)
    (htruename : ∀ e ∈ w.store.truename.entries, ∀ p, n.Names p → ¬ p.Unsettles e.key)
    (hidle : v.suppression.active = false ∨ ∀ p, ¬ n.Names p)
    (hD : ∀ t p, D' t p → D t p ∨ t = now ∧ n.Names p) : Current D' (now + 1) w := by
  have hleft := h.loses hw
  refine ⟨fun e he t p hp hu => ?_, fun e he t p hp hu => ?_, fun id since hs t p hp => ?_, h.past_succ hD,
    hleft.counted, hleft.flushes⟩
  · rcases hD t p hp with hp | ⟨-, hp⟩
    · exact hleft.existence e he t p hp hu
    · exact absurd hu (hexistence e he p hp)
  · rcases hD t p hp with hp | ⟨-, hp⟩
    · exact hleft.truename e he t p hp hu
    · exact absurd hu (htruename e he p hp)
  · rcases hD t p hp with hp | ⟨-, hp⟩
    · exact hleft.scopes id since hs t p hp
    · rcases hidle with hidle | hnone
      · rw [hw.since?, hx.since?_eq_none hidle id] at hs
        contradiction
      · exact absurd hp (hnone p)

/-! ## Every event -/

theorem shift (h : Current D now v) (hx : Exclusive v) (hw : Shift now v e w)
    (hD : ∀ t p, D' t p → D t p ∨ t = now ∧ ∃ n, e = .notify n ∧ n.Names p) : Current D' (now + 1) w := by
  have hsame : (∀ n, e ≠ .notify n) → ∀ t p, D' t p → D t p := by
    intro he t p hp
    rcases hD t p hp with hp | ⟨-, n, hn, -⟩
    · exact hp
    · exact absurd hn (he n)
  have hnamed : ∀ n, e = .notify n → ∀ t p, D' t p → D t p ∨ t = now ∧ n.Names p := by
    rintro n rfl t p hp
    rcases hD t p hp with hp | ⟨ht, m, hm, hp⟩
    · exact Or.inl hp
    · cases hm
      exact Or.inr ⟨ht, hp⟩
  cases hw with
  | advance he hw => exact (h.advance hx hw).mono (hsame he) (Nat.le_succ _)
  | lose he hw => exact (h.loses hw).mono (hsame he) (Nat.le_succ _)
  | recordExists path value =>
    have hnew : Current D now { v with store := v.store.recordExists path ⟨now, value⟩ now } :=
      ⟨settled_put h.past h.existence, h.truename, h.scopes, h.past, h.counted, h.flushes⟩
    exact hnew.mono (hsame nofun) (Nat.le_succ _)
  | recordTruename path target =>
    have hnew : Current D now { v with store := v.store.recordTruename path ⟨now, target⟩ now } :=
      ⟨h.existence, settled_put h.past h.truename, h.scopes, h.past, h.counted, h.flushes⟩
    exact hnew.mono (hsame nofun) (Nat.le_succ _)
  | enterHost hidle =>
    have hnew := h.enter hidle v.since? (fun id since hs => by
      rw [hx.since?_eq_none hidle id] at hs
      contradiction) true
    exact hnew.mono (hsame nofun) (Nat.le_succ _)
  | leaveHost hhost => exact (h.leave (hx.host hhost).2).mono (hsame nofun) (Nat.le_succ _)
  | drop n hactive => exact h.drop hactive (hnamed n rfl)
  | apply n hidle hw hexistence htruename => exact h.apply hx hw hexistence htruename hidle (hnamed n rfl)

end Current

theorem current_opened (id : Watch.ConnectionId) (config : Config) (ticks now : Nat) (registry : Watch.Registry)
    {D : Nat → Path → Prop} (hD : ∀ t p, ¬ D t p) :
    Current D now (Site.holding ⟨opened id config ticks true, registry⟩) where
  existence := nofun
  truename := nofun
  scopes _ _ hs := nomatch hs
  past t p hp := absurd hp (hD t p)
  counted hpaths := absurd rfl hpaths
  flushes := rfl

end Session

end RemoteFacts
