import RemoteFacts.Proofs.Coherence.Current
import RemoteFacts.Proofs.Coherence.Dates

/-!
# No stale fact is served

* `Client.Entered`, `Client.Committed`, `Client.ToldExists`, `Client.ToldTruename` : what can have put a fact into a
  cache, read off the history;
* `Client.Sourced` : every fact has come in by one of these, and its date is the moment of the scope or of the host's
  word;
* `Client.Coherent`, `coherent_run` : the invariant of whole histories (`Client.Reaches` : a state that one leads to);
* `fact_younger_than_change` : outside of scopes, what is served was learnt after every change that may falsify it.
-/

namespace RemoteFacts.Client

open Session

variable {c : Client} {i s u : Nat} {id : FlightId} {e : Event} {x : Site} {history : List (Nat × Event)} {q : Path}
  {value : Bool} {target : Path}

/-- At `s` the prefetch `id` has entered a scope of its own. -/
def Entered (c : Client) (history : List (Nat × Event)) (i s : Nat) (id : FlightId) : Prop :=
  ∃ e x, c.Met history i s e x ∧ x.session.suppression.active = false ∧ x.since? id = none ∧
    (x.step s e).2.since? id = some s

/-- At `u` the prefetch `id` has left the scope that it had entered at `s`, and recorded `value` about `q`. -/
def Committed (c : Client) (history : List (Nat × Event)) (i s : Nat) (id : FlightId) (u : Nat) (q : Path)
    (value : Bool) : Prop :=
  ∃ e x, c.Met history i u e x ∧ x.since? id = some s ∧ (x.step u e).2.since? id = none ∧
    ∃ f ∈ (x.step u e).2.session.store.existence.entries, (f.key == q) = true ∧ f.insertedAt = u ∧ f.value = ⟨s, value⟩

/-- At `u` the host has recorded whether `q` exists. -/
def ToldExists (c : Client) (history : List (Nat × Event)) (i u : Nat) (q : Path) (value : Bool) : Prop :=
  ∃ r x, c.Met history i u (.recordExists r value) x ∧ (r == q) = true

/-- At `u` the host has recorded the true name of `q`. -/
def ToldTruename (c : Client) (history : List (Nat × Event)) (i u : Nat) (q target : Path) : Prop :=
  ∃ r x, c.Met history i u (.recordTruename r target) x ∧ (r == q) = true

/-- At `t` a notification has been delivered that named `p`. -/
def Delivered (c : Client) (history : List (Nat × Event)) (i t : Nat) (p : Path) : Prop :=
  ∃ n x, c.Met history i t (.notify n) x ∧ n.Names p

/-! ## Longer histories -/

theorem Entered.snoc {f : Nat × Event} (h : c.Entered history i s id) : c.Entered (history ++ [f]) i s id := by
  obtain ⟨e, x, hmet, hrest⟩ := h
  exact ⟨e, x, hmet.snoc, hrest⟩

theorem Committed.snoc {f : Nat × Event} (h : c.Committed history i s id u q value) :
    c.Committed (history ++ [f]) i s id u q value := by
  obtain ⟨e, x, hmet, hrest⟩ := h
  exact ⟨e, x, hmet.snoc, hrest⟩

theorem ToldExists.snoc {f : Nat × Event} (h : c.ToldExists history i u q value) :
    c.ToldExists (history ++ [f]) i u q value := by
  obtain ⟨r, x, hmet, hr⟩ := h
  exact ⟨r, x, hmet.snoc, hr⟩

theorem ToldTruename.snoc {f : Nat × Event} (h : c.ToldTruename history i u q target) :
    c.ToldTruename (history ++ [f]) i u q target := by
  obtain ⟨r, x, hmet, hr⟩ := h
  exact ⟨r, x, hmet.snoc, hr⟩

/-- What has been delivered is older, or the last event is the notification. -/
theorem Delivered.of_snoc {j t : Nat} {p : Path} (h : c.Delivered (history ++ [(j, e)]) i t p) :
    c.Delivered history i t p ∨ j = i ∧ t = (c.run history).clock ∧ ∃ n, e = .notify n ∧ n.Names p := by
  obtain ⟨n, x, hmet, hp⟩ := h
  rcases hmet.of_snoc with hmet | ⟨hj, he, ht, -⟩
  · exact Or.inl ⟨n, x, hmet, hp⟩
  · exact Or.inr ⟨hj, ht, n, he, hp⟩

/-! ## Where facts come from -/

/-- Every fact has come in by a word of the host, or by a prefetch from the scope by which it is dated. -/
structure Sourced (c : Client) (history : List (Nat × Event)) (i : Nat) (v : Holding) : Prop where
  existence : ∀ f ∈ v.store.existence.entries,
    f.value.asOf = f.insertedAt ∧ c.ToldExists history i f.insertedAt f.key f.value.value ∨
      ∃ id, c.Entered history i f.value.asOf id ∧
        c.Committed history i f.value.asOf id f.insertedAt f.key f.value.value
  truename : ∀ f ∈ v.store.truename.entries,
    f.value.asOf = f.insertedAt ∧ c.ToldTruename history i f.insertedAt f.key f.value.value
  /-- A scan is dated by the scope of the prefetch that asked for it. -/
  scan : ∀ d, v.transient.scan = some d → ∃ id, c.Entered history i d.asOf id
  scopes : ∀ id since, v.since? id = some since → c.Entered history i since id

namespace Sourced

variable {v w : Holding}

theorem snoc {f : Nat × Event} (h : c.Sourced history i v) : c.Sourced (history ++ [f]) i v where
  existence g hg := by
    rcases h.existence g hg with ⟨hdate, htold⟩ | ⟨id, hentered, hcommitted⟩
    · exact Or.inl ⟨hdate, htold.snoc⟩
    · exact Or.inr ⟨id, hentered.snoc, hcommitted.snoc⟩
  truename g hg := ⟨(h.truename g hg).1, (h.truename g hg).2.snoc⟩
  scan d hd := (h.scan d hd).imp fun _ hentered => hentered.snoc
  scopes id since hs := (h.scopes id since hs).snoc

theorem loses (h : c.Sourced history i v) (hw : Loses v w) : c.Sourced history i w where
  existence f hf := h.existence f (hw.existence f hf)
  truename f hf := h.truename f (hw.truename f hf)
  scan d hd := h.scan d (hw.scan d hd)
  scopes id since hs := h.scopes id since (hw.since? ▸ hs)

theorem mem_leave {f : Cache.Entry (Dated Bool)} (hf : f ∈ v.leave.store.existence.entries) :
    f ∈ v.store.existence.entries := by
  unfold Holding.leave at hf
  dsimp only at hf
  split at hf
  · contradiction
  · exact hf

theorem mem_truename_leave {f : Cache.Entry (Dated Path)} (hf : f ∈ v.leave.store.truename.entries) :
    f ∈ v.store.truename.entries := by
  unfold Holding.leave at hf
  dsimp only at hf
  split at hf
  · contradiction
  · exact hf

/-- The end of a scope takes facts and puts nobody into a scope. -/
theorem leave (h : c.Sourced history i v) : c.Sourced history i v.leave where
  existence f hf := h.existence f (mem_leave hf)
  truename f hf := h.truename f (mem_truename_leave hf)
  scan := h.scan
  scopes := h.scopes

theorem quit (h : c.Sourced history i v) : c.Sourced history i (v.quit id) where
  existence := h.existence
  truename := h.truename
  scan := h.scan
  scopes other since hs := by
    have hs' : Function.update v.since? id none other = some since := hs
    rw [Function.update_apply] at hs'
    split at hs'
    · contradiction
    · exact h.scopes other since hs'

/-- The event of an operation adds the entry into a scope, or the facts of one. -/
theorem advance {now : Nat} (h : c.Sourced history i x.holding) (hnow : (c.run history).clock = now)
    (hx : (c.run history).site? i = some x) (hw : Advance now x.holding (x.step now e).2.holding) :
    c.Sourced (history ++ [(i, e)]) i (x.step now e).2.holding := by
  have hmet : c.Met (history ++ [(i, e)]) i now e x := hnow ▸ met_last hx
  generalize hnew : (x.step now e).2.holding = w at hw
  cases hw with
  | rest => exact h.snoc
  | enter id hidle hout =>
    refine ⟨h.snoc.existence, h.snoc.truename, h.snoc.scan, fun other since hs => ?_⟩
    have hs' : Function.update x.holding.since? id (some now) other = some since := hs
    rw [Function.update_apply] at hs'
    split at hs'
    · next heq =>
      subst heq
      obtain rfl := Option.some.inj hs'
      refine ⟨e, x, hmet, hidle, hout, ?_⟩
      show (x.step now e).2.holding.since? other = some now
      rw [hnew]
      exact hs
    · exact h.snoc.scopes other since hs'
  | leave id since hin => exact h.snoc.leave.quit
  | commit id harvest hin =>
    refine ⟨fun f hf => ?_, fun f hf => ?_, fun d hd => ?_, h.snoc.leave.quit.scopes⟩
    · rcases FactStore.mem_foldl_recordExists hf with hold | ⟨g, hg, hkey, hinserted, hvalue⟩
      · exact h.snoc.leave.existence f hold
      · have hout : (x.step now e).2.holding.since? id = none := by
          rw [hnew]
          exact Function.update_self _ _ _
        have hstays : f ∈ (x.step now e).2.holding.store.existence.entries := by
          rw [hnew]
          exact hf
        have hdate : f.value.asOf = harvest.since := by rw [hvalue]
        refine Or.inr ⟨id, hdate ▸ (h.scopes id harvest.since hin).snoc, e, x, hinserted ▸ hmet, hdate ▸ hin, ?_, f, ?_⟩
        · rw [hinserted]
          exact hout
        · rw [hinserted]
          exact ⟨hstays, BEq.rfl, rfl, rfl⟩
    · have hf' : f ∈ (List.foldl _ x.holding.leave.store _).truename.entries := hf
      rw [FactStore.truename_foldl_recordExists] at hf'
      exact h.snoc.leave.truename f hf'
    · obtain ⟨scan, -, rfl⟩ := Option.map_eq_some_iff.1 hd
      exact ⟨id, (h.scopes id harvest.since hin).snoc⟩

/-- Every event adds only what has a source. -/
theorem step (h : c.Sourced history i x.holding) (hx : (c.run history).site? i = some x) (hnumbered : x.Numbered) :
    c.Sourced (history ++ [(i, e)]) i (x.step (c.run history).clock e).2.holding := by
  have hshift : Shift (c.run history).clock x.holding e (x.step (c.run history).clock e).2.holding :=
    Site.shift_step hnumbered
  have hmet : c.Met (history ++ [(i, e)]) i (c.run history).clock e x := met_last hx
  generalize hnew : (x.step (c.run history).clock e).2.holding = w at hshift
  cases hshift with
  | advance _ hw =>
    subst hnew
    exact h.advance rfl hx hw
  | lose _ hw => exact h.snoc.loses hw
  | apply n _ hw => exact h.snoc.loses hw
  | drop n _ => exact ⟨h.snoc.existence, h.snoc.truename, h.snoc.scan, h.snoc.scopes⟩
  | enterHost _ => exact ⟨h.snoc.existence, h.snoc.truename, h.snoc.scan, h.snoc.scopes⟩
  | leaveHost _ => exact h.snoc.leave
  | recordExists path value =>
    refine ⟨fun f hf => ?_, h.snoc.truename, h.snoc.scan, h.snoc.scopes⟩
    rcases Cache.mem_put hf with hold | ⟨hkey, hinserted, hvalue⟩
    · exact h.snoc.existence f hold
    · refine Or.inl ⟨by rw [hvalue, hinserted], path, x, ?_, BEq.symm hkey⟩
      rw [hinserted, hvalue]
      exact hmet
  | recordTruename path target =>
    refine ⟨h.snoc.existence, fun f hf => ?_, h.snoc.scan, h.snoc.scopes⟩
    rcases Cache.mem_put hf with hold | ⟨hkey, hinserted, hvalue⟩
    · exact h.snoc.truename f hold
    · refine ⟨by rw [hvalue, hinserted], path, x, ?_, BEq.symm hkey⟩
      rw [hinserted, hvalue]
      exact hmet

end Sourced

theorem sourced_opened (connection : Watch.ConnectionId) (config : Config) (ticks : Nat) (flushesOnLeave : Bool)
    (registry : Watch.Registry) :
    c.Sourced history i (Site.holding ⟨Session.opened connection config ticks flushesOnLeave, registry⟩) where
  existence _ hf := absurd hf List.not_mem_nil
  truename _ hf := absurd hf List.not_mem_nil
  scan _ hd := by contradiction
  scopes _ _ hs := by contradiction

/-! ## Whole histories -/

/-- What holds of a session after every history. -/
structure Coherent (c : Client) (history : List (Nat × Event)) (i : Nat) (x : Site) : Prop extends
    c.InOrder history x where
  current : Current (c.Delivered history i) (c.run history).clock x.holding
  sourced : c.Sourced history i x.holding

theorem Coherent.own (h : c.Coherent history i x) (hx : (c.run history).site? i = some x) :
    c.Coherent (history ++ [(i, e)]) i (x.step (c.run history).clock e).2 := by
  have hshift : Shift (c.run history).clock x.holding e (x.step (c.run history).clock e).2.holding :=
    Site.shift_step h.numbered
  refine ⟨h.toInOrder.own hx, ?_, h.sourced.step hx h.numbered⟩
  rw [run_snoc, clock_step hx]
  exact h.current.shift h.exclusive hshift fun t p hp => hp.of_snoc.imp_right And.right

theorem Coherent.other {j : Nat} {registry : Watch.Registry} (h : c.Coherent history i x) (hj : j ≠ i) :
    c.Coherent (history ++ [(j, e)]) i { x with registry } := by
  refine ⟨h.toInOrder.other (j, e), ?_, h.sourced.snoc⟩
  refine h.current.mono (fun t p hp => ?_) (clock_le_run_append _ _)
  rcases hp.of_snoc with hp | ⟨hji, -⟩
  · exact hp
  · exact absurd hji hj

/-- In every history of any number of sessions, those that flush at the end of a scope stay coherent. -/
theorem coherent_run {sessions : List Session} {connection : Watch.ConnectionId} {config : Config} {ticks : Nat}
    (hopened : sessions[i]? = some (Session.opened connection config ticks true)) (history : List (Nat × Event)) :
    ∃ x, ((opened sessions).run history).site? i = some x ∧ (opened sessions).Coherent history i x := by
  have hstart : (opened sessions).site? i = some ⟨Session.opened connection config ticks true, .empty⟩ := by
    rw [site?, opened, hopened]
    rfl
  have hinit : (opened sessions).Coherent [] i ⟨Session.opened connection config ticks true, .empty⟩ := by
    refine ⟨inOrder_opened _ _ _ _ _, current_opened _ _ _ _ _ ?_, sourced_opened _ _ _ _ _⟩
    rintro t p ⟨n, x, ⟨before, after, hnil, -⟩, -⟩
    exact absurd hnil.symm (List.append_ne_nil_of_right_ne_nil _ (List.cons_ne_nil _ _))
  exact run_invariant hstart hinit (fun history x e hx h => Coherent.own h hx)
    fun history x j e registry hj h => Coherent.other h hj

/-- A state of a session that flushes at the end of a scope, after some history of some sessions. -/
def Reaches (x : Site) : Prop :=
  ∃ (sessions : List Session) (i : Nat) (connection : Watch.ConnectionId) (config : Config) (ticks : Nat)
    (history : List (Nat × Event)), sessions[i]? = some (Session.opened connection config ticks true) ∧
      ((opened sessions).run history).site? i = some x

theorem Reaches.coherent (h : Reaches x) : ∃ c history i, Coherent c history i x := by
  obtain ⟨sessions, i, connection, config, ticks, history, hopened, hx⟩ := h
  obtain ⟨y, hy, hcoherent⟩ := coherent_run hopened history
  obtain rfl : x = y := Option.some.inj (hx.symm.trans hy)
  exact ⟨_, _, _, hcoherent⟩

/-- A history of one session takes as many moments as it has events. -/
theorem clock_run_eq_length {sessions : List Session} {connection : Watch.ConnectionId} {config : Config} {ticks : Nat}
    (hopened : sessions[i]? = some (Session.opened connection config ticks true)) (hown : ∀ f ∈ history, f.1 = i) :
    ((opened sessions).run history).clock = history.length := by
  induction history using List.reverseRecOn with
  | nil => rfl
  | append_singleton history f ih =>
    obtain ⟨j, e⟩ := f
    obtain rfl : j = i := hown (j, e) (by simp)
    obtain ⟨x, hx, -⟩ := coherent_run hopened history
    rw [run_snoc, clock_step hx, ih fun f hf => hown f (List.mem_append_left _ hf), List.length_append,
      List.length_singleton]

/-- When no scope is open, what is served about a path was recorded by the host after each notification that named it or
a path in it, or brought in by a prefetch that entered its scope after that notification. -/
theorem fact_younger_than_change {sessions : List Session} {connection : Watch.ConnectionId} {config : Config}
    {ticks t now : Nat} {p : Path} (hopened : sessions[i]? = some (Session.opened connection config ticks true))
    (hx : ((opened sessions).run history).site? i = some x) (hidle : x.session.suppression.active = false)
    (hp : (opened sessions).Delivered history i t p) (hq : p.Unsettles q) :
    (∀ value, (x.session.store.exists? q now).1 = some value →
      (∃ u, t < u ∧ (opened sessions).ToldExists history i u q value) ∨
      ∃ s id u, t < s ∧ (opened sessions).Entered history i s id ∧
        (opened sessions).Committed history i s id u q value) ∧
    ∀ target, (x.session.store.truename? q now).1 = some target →
      ∃ u, t < u ∧ (opened sessions).ToldTruename history i u q target := by
  obtain ⟨y, hy, hcoherent⟩ := coherent_run hopened history
  obtain rfl : x = y := Option.some.inj (hx.symm.trans hy)
  have hfree : ∀ p, ¬ x.session.suppression.Reports p := fun p => Suppression.not_reports_of_idle hidle
  refine ⟨fun value hvalue => ?_, fun target htarget => ?_⟩
  · obtain ⟨f, hf, hkey, rfl⟩ := FactStore.exists_entry_of_exists? hvalue
    have hlt := hcoherent.current.existence.younger hfree hf hp (hq.congr BEq.rfl (BEq.symm hkey))
    rcases hcoherent.sourced.existence f hf with ⟨hdate, r, y, hmet, hr⟩ | ⟨id, hentered, hcommitted⟩
    · exact Or.inl ⟨f.insertedAt, hdate ▸ hlt, r, y, hmet, BEq.trans hr hkey⟩
    · obtain ⟨e, y, hmet, hin, hout, g, hg, hgkey, hrest⟩ := hcommitted
      exact Or.inr ⟨f.value.asOf, id, f.insertedAt, hlt, hentered, e, y, hmet, hin, hout, g, hg, BEq.trans hgkey hkey,
        hrest⟩
  · obtain ⟨f, hf, hkey, rfl⟩ := FactStore.exists_entry_of_truename? htarget
    have hlt := hcoherent.current.truename.younger hfree hf hp (hq.congr BEq.rfl (BEq.symm hkey))
    obtain ⟨hdate, r, y, hmet, hr⟩ := hcoherent.sourced.truename f hf
    exact ⟨f.insertedAt, hdate ▸ hlt, r, y, hmet, BEq.trans hr hkey⟩

/-- A prefetch that fails after it has dropped a notification, and a word of the host after it. -/
theorem fact_younger_than_change_of_failed_prefetch :
    let client := opened [Session.opened 0 {} 1 true]
    let history : List (Nat × Event) := [(0, .recordExists ⟨"/r/f"⟩ true), (0, .launch (.prefetch ⟨"/r"⟩)),
      (0, .notify ⟨"fs.changed", .object [("paths", .array [.text "/r/f"])]⟩), (0, .settle 0 0 (.failed "down")),
      (0, .recordExists ⟨"/r//f"⟩ false)]
    client.Delivered history 0 2 ⟨"/r/f"⟩ ∧
    ∃ x, (client.run history).site? 0 = some x ∧ x.session.suppression.active = false ∧
      (x.session.store.exists? ⟨"/r/f"⟩ 5).1 = some false ∧
      ((∃ u, 2 < u ∧ client.ToldExists history 0 u ⟨"/r/f"⟩ false) ∨
        ∃ s id u, 2 < s ∧ client.Entered history 0 s id ∧ client.Committed history 0 s id u ⟨"/r/f"⟩ false) := by
  intro client history
  have hnamed : Rpc.Notification.Names ⟨"fs.changed", .object [("paths", .array [.text "/r/f"])]⟩ ⟨"/r/f"⟩ :=
    ⟨rfl, by decide +kernel, [⟨"/r/f"⟩], rfl, List.mem_singleton_self _⟩
  have hdelivered : client.Delivered history 0 2 ⟨"/r/f"⟩ :=
    ⟨_, _, ⟨history.take 2, history.drop 3, rfl, rfl, rfl⟩, hnamed⟩
  have hserved : (((client.run history).site? 0).map fun x =>
      (x.session.suppression.active, (x.session.store.exists? ⟨"/r/f"⟩ 5).1)) = some (false, some false) := by
    decide +kernel
  obtain ⟨x, hx, hanswer⟩ := Option.map_eq_some_iff.1 hserved
  obtain ⟨hidle, hvalue⟩ := Prod.mk.inj hanswer
  have hyounger := (fact_younger_than_change rfl hx hidle hdelivered (Or.inl BEq.rfl)).1 false hvalue
  exact ⟨hdelivered, x, hx, hidle, hvalue, hyounger⟩

end RemoteFacts.Client
