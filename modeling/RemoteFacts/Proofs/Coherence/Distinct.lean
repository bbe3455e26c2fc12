import RemoteFacts.Proofs.Cache.Course
import RemoteFacts.Proofs.Coherence.Dates

/-!
# One fact a path

* `FactStore.KeysDistinct` : in neither cache of a store two entries are of one path, which nothing that is done to a
  store changes (`KeysDistinct.recordExists`, `KeysDistinct.invalidatePath`, …);
* `Site.keysDistinct_step` : no event changes it;
* `Client.keysDistinct_run` : so it is with every session after every history.
-/

namespace RemoteFacts

namespace FactStore

variable {s : FactStore} {path : Path} {now : Nat}

/-- In neither cache two entries are of one path. -/
structure KeysDistinct (s : FactStore) : Prop where
  existence : Cache.KeysDistinct s.existence.entries
  truename : Cache.KeysDistinct s.truename.entries

theorem dropAround_sublist {α : Type} {c : Cache α} (path : Path) : (dropAround path c).entries.Sublist c.entries := by
  unfold dropAround
  dsimp only
  cases path.parent? with
  | none => exact Cache.invalidate_sublist
  | some parent => exact Cache.invalidate_sublist.trans Cache.invalidate_sublist

namespace KeysDistinct

theorem empty (ttl maxSize : Option Nat) : (FactStore.empty ttl maxSize).KeysDistinct :=
  ⟨List.nodup_nil, List.nodup_nil⟩

theorem exists? (h : s.KeysDistinct) : (s.exists? path now).2.KeysDistinct :=
  ⟨h.existence.sublist Cache.get_sublist, h.truename⟩

theorem truename? (h : s.KeysDistinct) : (s.truename? path now).2.KeysDistinct :=
  ⟨h.existence, h.truename.sublist Cache.get_sublist⟩

theorem recordExists (h : s.KeysDistinct) (fact : Dated Bool) : (s.recordExists path fact now).KeysDistinct :=
  ⟨h.existence.step (.put path fact now), h.truename⟩

theorem recordTruename (h : s.KeysDistinct) (fact : Dated Path) : (s.recordTruename path fact now).KeysDistinct :=
  ⟨h.existence, h.truename.step (.put path fact now)⟩

theorem foldl_recordExists (h : s.KeysDistinct) (since : Nat) (facts : List (Path × Bool)) :
    (facts.foldl (fun s f => s.recordExists f.1 ⟨since, f.2⟩ now) s).KeysDistinct := by
  induction facts generalizing s with
  | nil => exact h
  | cons f facts ih => exact ih (h.recordExists _)

theorem invalidatePath (h : s.KeysDistinct) (path : Path) : (s.invalidatePath path).KeysDistinct :=
  ⟨h.existence.sublist (dropAround_sublist path), h.truename.sublist (dropAround_sublist path)⟩

theorem flush (s : FactStore) : s.flush.KeysDistinct := ⟨List.nodup_nil, List.nodup_nil⟩

end KeysDistinct

end FactStore

namespace Session

variable {now : Nat} {v w : Holding} {x : Site}

theorem keysDistinct_leave (h : v.store.KeysDistinct) : v.leave.store.KeysDistinct := by
  show (if v.flushesOnLeave && v.suppression.report.needsFlush then v.store.flush else v.store).KeysDistinct
  split
  · exact .flush _
  · exact h

theorem keysDistinct_advance (h : v.store.KeysDistinct) (hw : Advance now v w) : w.store.KeysDistinct := by
  cases hw with
  | rest => exact h
  | enter id _ _ => exact h
  | leave id _ _ => exact keysDistinct_leave h
  | commit id harvest _ => exact (keysDistinct_leave h).foldl_recordExists _ _

theorem Site.keysDistinct_notify (h : x.session.store.KeysDistinct) (n : Rpc.Notification) :
    (x.notify n).2.session.store.KeysDistinct := by
  have happlied (ps : List Path) : (ps.foldl applyChange x).session.store.KeysDistinct := by
    induction ps generalizing x with
    | nil => exact h
    | cons p ps ih => exact ih (h.invalidatePath p)
  unfold notify
  split
  · exact h
  · split
    · exact h
    · exact happlied _

/-- No event gives a path a second entry. -/
theorem Site.keysDistinct_step (hx : x.Numbered) (h : x.session.store.KeysDistinct) (e : Event) :
    (x.step now e).2.session.store.KeysDistinct := by
  cases e with
  | launch operation => exact keysDistinct_advance h (advance_launch (hx.stage?_eq_none (Nat.le_refl _)))
  | settle id slot reply => exact keysDistinct_advance h advance_settle
  | proceed id => exact keysDistinct_advance h advance_proceed
  | abandon id =>
    have hmoved : Advance now x.holding (x.abandon id).holding := advance_abandon
    exact keysDistinct_advance h hmoved
  | notify n => exact keysDistinct_notify h n
  | askExists path => exact h.exists?
  | askTruename path => exact h.truename?
  | recordExists path value => exact h.recordExists _
  | recordTruename path target => exact h.recordTruename _
  | invalidate path => exact h.invalidatePath path
  | flush => exact .flush _
  | release => exact h
  | close =>
    show x.close.session.store.KeysDistinct
    unfold close
    split
    · exact h
    · exact .flush _
  | forgetWatches => exact h
  | enterScope =>
    show x.enterHostScope.2.session.store.KeysDistinct
    unfold enterHostScope
    split
    · exact h
    · exact h
  | leaveScope =>
    show x.leaveHostScope.2.session.store.KeysDistinct
    unfold leaveHostScope
    split
    · exact keysDistinct_leave (v := x.holding) h
    · exact h

end Session

namespace Client

open Session

/-- In every history of any number of sessions, no session holds two facts of one kind about one path. -/
theorem keysDistinct_run {sessions : List Session} {i : Nat} {connection : Watch.ConnectionId} {config : Config}
    {ticks : Nat} {flushesOnLeave : Bool}
    (hopened : sessions[i]? = some (Session.opened connection config ticks flushesOnLeave))
    (history : List (Nat × Event)) :
    ∃ x, ((opened sessions).run history).site? i = some x ∧ x.session.store.KeysDistinct := by
  have hstart : (opened sessions).site? i = some ⟨Session.opened connection config ticks flushesOnLeave, .empty⟩ := by
    rw [site?, opened, hopened]
    rfl
  have hrun : ∃ x, ((opened sessions).run history).site? i = some x ∧ x.Numbered ∧ x.session.store.KeysDistinct :=
    run_invariant (P := fun _ x => x.Numbered ∧ x.session.store.KeysDistinct) hstart
      ⟨Site.numbered_opened _ _ _ _ _, .empty _ _⟩ (fun _ _ e _ h => ⟨h.1.step, Site.keysDistinct_step h.1 h.2 e⟩)
      fun _ _ _ _ _ _ h => ⟨⟨h.1.flights, h.1.gate, h.1.desk⟩, h.2⟩
  obtain ⟨x, hx, -, hdistinct⟩ := hrun
  exact ⟨x, hx, hdistinct⟩

end Client

end RemoteFacts
