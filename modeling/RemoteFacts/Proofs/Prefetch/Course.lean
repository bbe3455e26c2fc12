import RemoteFacts.Proofs.Change
import RemoteFacts.Proofs.Session.Holding
import RemoteFacts.Proofs.Session.Joined

/-!
# The course of one prefetch

* `Course` : a prefetch from its launch on, with the replies to its calls and the notifications that come meanwhile;
* `Tally` : what the report of its scope says of these notifications (`Tally.any_iff`);
* `notify_joined` : a notification that comes in its scope changes nothing but the report.
-/

namespace RemoteFacts.Session

/-- Whether a prefetch that waits here has a call outstanding. -/
def Stage.hasCall : Stage → Bool
  | batch .. => true
  | scan _ => true
  | adding .. => true
  | _ => false

/-- How far a prefetch for `directory`, launched in `x`, has come and what it has answered, when its calls have ended
with these replies in this order, and these notifications have come while it was in its scope. -/
inductive Course (x : Site) (directory : Path) :
    List Rpc.Reply → List Rpc.Notification → Site → Option Outcome → Prop where
  | launch (now : Nat) : Course x directory [] [] (x.launch now (.prefetch directory)).2.1
      (x.launch now (.prefetch directory)).2.2.outcome
  | reply {replies : List Rpc.Reply} {pushes : List Rpc.Notification} {y : Site} {stage : Stage} (now : Nat)
      (r : Rpc.Reply) (h : Course x directory replies pushes y none) (hs : y.stage? x.session.next = some stage)
      (hcall : stage.hasCall = true) : Course x directory (replies ++ [r]) pushes
        (y.settle now x.session.next 0 r).1 (y.settle now x.session.next 0 r).2.outcome
  | look {replies : List Rpc.Reply} {pushes : List Rpc.Notification} {y : Site} (now : Nat)
      (h : Course x directory replies pushes y none) : Course x directory replies pushes
        (y.proceed now x.session.next).1 (y.proceed now x.session.next).2.outcome
  | push {replies : List Rpc.Reply} {pushes : List Rpc.Notification} {y : Site} (n : Rpc.Notification)
      (h : Course x directory replies pushes y none) (hin : (y.since? x.session.next).isSome = true) :
      Course x directory replies (pushes ++ [n]) (y.notify n).2 none

/-- The error that a prefetch has answered. -/
def Outcome.error? : Outcome → Option Error
  | prefetched (.error e) => some e
  | _ => none

/-- The result that a prefetch has answered. -/
def Outcome.result? : Outcome → Option PrefetchResult
  | prefetched (.ok r) => some r
  | _ => none

theorem Outcome.eq_of_error? {outcome : Outcome} {e : Error} (h : outcome.error? = some e) :
    outcome = .prefetched (.error e) := by
  unfold error? at h
  split at h
  · cases h
    rfl
  · contradiction

theorem Outcome.eq_of_result? {outcome : Outcome} {r : PrefetchResult} (h : outcome.result? = some r) :
    outcome = .prefetched (.ok r) := by
  unfold result? at h
  split at h
  · cases h
    rfl
  · contradiction

/-! ## Reports -/

/-- Some of these notifications names a path. -/
def SomeNamed (pushes : List Rpc.Notification) : Prop := ∃ n ∈ pushes, ∃ p, n.Names p

/-- Nothing is flushed when no notification has come. -/
theorem not_flushed : false = true ↔ SomeNamed [] := by
  refine iff_of_false Bool.false_ne_true ?_
  rintro ⟨n, hn, -⟩
  exact absurd hn List.not_mem_nil

/-- The report of a scope in which these notifications have come. -/
structure Tally (pushes : List Rpc.Notification) (r : Suppression.Report) : Prop where
  flush : r.needsFlush = true ↔ SomeNamed pushes
  paths : ∀ q, r.paths.contains q = true ↔ ∃ n ∈ pushes, ∃ p, n.Names p ∧ (p == q) = true

/-- Some path in the report has a property of paths exactly if some path that was named has it. -/
theorem Tally.any_iff {pushes : List Rpc.Notification} {r : Suppression.Report} {g : Path → Bool} (h : Tally pushes r)
    (hg : ∀ p q, (p == q) = true → g p = g q) :
    r.paths.any g = true ↔ ∃ n ∈ pushes, ∃ p, n.Names p ∧ g p = true := by
  rw [List.any_eq_true]
  constructor
  · rintro ⟨q, hq, hgq⟩
    obtain ⟨n, hn, p, hp, hpq⟩ := (h.paths q).1 (Path.contains_of_mem hq BEq.rfl)
    exact ⟨n, hn, p, hp, by rw [hg p q hpq, hgq]⟩
  · rintro ⟨n, hn, p, hp, hgp⟩
    obtain ⟨q, hq, hqp⟩ := Path.exists_mem_of_contains ((h.paths p).2 ⟨n, hn, p, hp, BEq.rfl⟩)
    exact ⟨q, hq, by rw [hg q p hqp, hgp]⟩

theorem tally_nil : Tally [] .empty where
  flush := not_flushed
  paths q := by
    refine iff_of_false Bool.false_ne_true ?_
    rintro ⟨n, hn, -⟩
    exact absurd hn List.not_mem_nil

theorem Tally.of_ignored {pushes : List Rpc.Notification} {r : Suppression.Report} {n : Rpc.Notification}
    (h : Tally pushes r) (hnone : ∀ p, ¬ n.Names p) : Tally (pushes ++ [n]) r where
  flush := by
    rw [h.flush]
    constructor
    · rintro ⟨m, hm, hp⟩
      exact ⟨m, List.mem_append_left _ hm, hp⟩
    · rintro ⟨m, hm, p, hp⟩
      rcases List.mem_append.1 hm with hm | hm
      · exact ⟨m, hm, p, hp⟩
      · rw [List.mem_singleton.1 hm] at hp
        exact absurd hp (hnone p)
  paths q := by
    rw [h.paths]
    constructor
    · rintro ⟨m, hm, hp⟩
      exact ⟨m, List.mem_append_left _ hm, hp⟩
    · rintro ⟨m, hm, p, hp, hq⟩
      rcases List.mem_append.1 hm with hm | hm
      · exact ⟨m, hm, p, hp, hq⟩
      · rw [List.mem_singleton.1 hm] at hp
        exact absurd hp (hnone p)

theorem Tally.suppress {pushes : List Rpc.Notification} {r : Suppression.Report} {n : Rpc.Notification}
    (h : Tally pushes r) {p : Path} (hp : p ∈ n.changedPaths) :
    Tally (pushes ++ [n]) ⟨r.notifications + 1, Path.insertAll r.paths n.changedPaths⟩ where
  flush := by
    refine ⟨fun _ => ⟨n, by simp, p, Rpc.Notification.names_of_mem_changedPaths hp⟩, fun _ => ?_⟩
    exact decide_eq_true (Nat.succ_pos _)
  paths q := by
    rw [Path.contains_insertAll, Bool.or_eq_true, h.paths]
    constructor
    · rintro (⟨m, hm, hnamed⟩ | hq)
      · exact ⟨m, List.mem_append_left _ hm, hnamed⟩
      · obtain ⟨r, hr, hrq⟩ := Path.exists_mem_of_contains hq
        exact ⟨n, by simp, r, Rpc.Notification.names_of_mem_changedPaths hr, hrq⟩
    · rintro ⟨m, hm, r, hr, hrq⟩
      rcases List.mem_append.1 hm with hm | hm
      · exact Or.inl ⟨m, hm, r, hr, hrq⟩
      · rw [List.mem_singleton.1 hm] at hr
        obtain ⟨r', hr', hrr'⟩ := Rpc.Notification.exists_mem_changedPaths hr
        exact Or.inr (Path.contains_of_mem hr' (BEq.trans hrr' hrq))

/-- A notification that comes in an open scope changes nothing but the report. -/
theorem Site.notify_joined {x : Site} {operation : Operation} {stage : Stage} {report : Suppression.Report}
    {desk : List FlightId} {pushes : List Rpc.Notification} (h : Tally pushes report) (n : Rpc.Notification) :
    ∃ report',
      ((x.joined operation stage ⟨true, report⟩ desk).notify n).2 = x.joined operation stage ⟨true, report'⟩ desk ∧
      Tally (pushes ++ [n]) report' := by
  unfold Site.notify
  cases hpaths : n.changedPaths with
  | nil =>
    refine ⟨report, rfl, h.of_ignored fun p hp => ?_⟩
    obtain ⟨r, hr, -⟩ := Rpc.Notification.exists_mem_changedPaths hp
    rw [hpaths] at hr
    contradiction
  | cons p ps =>
    refine ⟨⟨report.notifications + 1, Path.insertAll report.paths n.changedPaths⟩, ?_, h.suppress (p := p) ?_⟩
    · rw [hpaths]
      rfl
    · rw [hpaths]
      exact List.mem_cons_self

end RemoteFacts.Session
