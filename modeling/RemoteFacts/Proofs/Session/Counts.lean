import Mathlib.Data.Finset.Card
import RemoteFacts.Proofs.Session.Joined
import RemoteFacts.Proofs.Watch.Ledger

/-!
# Counts of watches

The host is told how many watches a list from the remote side has, and how many were forgotten when the connection went.

* `Path.length_distinct`, `Path.length_distinct_eq_iff` : how many paths there are in a list in which some may be
  repeated;
* `Registry.perm_pathsFor_replaceFor`, `Registry.fst_clearFor` : the watches of a connection after a list of them, and
  the number of those that are forgotten;
* `Site.launch_resync`, `Site.settle_listing` : how a list is asked for, and what is made of it;
* `watches_counted_as_listed` : the count of a list is that of its items, and the count of the end is that of the
  watches.
-/

namespace RemoteFacts

namespace Path

theorem length_distinct (paths : List Path) : (distinct paths).length = (paths.map parts).toFinset.card := by
  have hsame : ((distinct paths).map parts).toFinset = (paths.map parts).toFinset := by
    ext ps
    rw [List.mem_toFinset, List.mem_toFinset, Watch.Registry.mem_parts_distinct]
  rw [← hsame, List.toFinset_card_of_nodup (nodup_distinct paths), List.length_map]

/-- No path of a list is left out exactly if none is repeated. -/
theorem length_distinct_eq_iff {paths : List Path} :
    paths.length = (distinct paths).length ↔ (paths.map parts).Nodup := by
  rw [length_distinct, ← List.length_map parts, eq_comm]
  exact Multiset.toFinset_card_eq_card_iff_nodup (m := (paths.map parts : Multiset (List Part)))

end Path

namespace Watch.Registry

variable {c d : ConnectionId} {paths : List Path} {now : Nat} {r : Registry}

theorem pathsFor_perm (r : Registry) (c : ConnectionId) : (r.pathsFor c).Perm ((r.own c).map (·.path)) :=
  (List.mergeSort_perm _ _).map _

theorem own_clearFor : (r.clearFor c).2.own c = [] := by
  refine List.filter_eq_nil_iff.2 fun e he => ?_
  simpa using (mem_clearFor.1 he).2

/-- A connection watches what has been listed for it, each path once. -/
theorem perm_pathsFor_replaceFor : ((r.replaceFor c paths now).pathsFor c).Perm (Path.distinct paths) := by
  refine (pathsFor_perm _ _).trans (List.Perm.of_eq ?_)
  unfold replaceFor own
  have hold : (r.clearFor c).2.entries.filter (·.connection == c) = [] := own_clearFor
  rw [List.filter_append, hold, List.nil_append, List.filter_eq_self.2, List.map_map]
  · exact List.map_id _
  · intro e he
    obtain ⟨path, -, rfl⟩ := List.mem_map.1 he
    exact beq_self_eq_true c

theorem fst_clearFor (r : Registry) (c : ConnectionId) : (r.clearFor c).1 = (r.pathsFor c).length := by
  rw [(pathsFor_perm r c).length_eq, List.length_map]
  exact List.countP_eq_length_filter

theorem pathsFor_clearFor : (r.clearFor c).2.pathsFor c = [] := by
  have hnone := pathsFor_perm (r.clearFor c).2 c
  rw [own_clearFor] at hnone
  exact hnone.eq_nil

theorem own_replaceFor_of_ne (hne : d ≠ c) : (r.replaceFor c paths now).own d = r.own d := by
  have hstep : (r.step c now (.replace paths)).2.own d = r.own d := own_step_of_ne hne.symm
  exact hstep

theorem own_clearFor_of_ne (hne : d ≠ c) : (r.clearFor c).2.own d = r.own d := by
  have hstep : (r.step c 0 .clear).2.own d = r.own d := own_step_of_ne hne.symm
  exact hstep

end Watch.Registry

namespace Session.Site

variable {x : Site} {now : Nat} {id : FlightId} {reply : Rpc.Reply} {watches : List (Path × Bool)}

/-- When nobody is at the desk, the list of watches is asked for at once. -/
theorem launch_resync (now : Nat) (hx : x.Numbered) (hopen : x.session.closed = false) (hfree : x.session.desk = []) :
    ∃ y, x.launch now .resync = (x.session.next, y, .asking .watchList) ∧ y.registry = x.registry ∧
      y.session.id = x.session.id ∧ y.flight? x.session.next = some ⟨x.session.next, .resync, .listing⟩ := by
  have hnew : x.stage? x.session.next = none := hx.stage?_eq_none (Nat.le_refl _)
  let queued : Site := { x with
    session := { ((x.enlist .resync .atDeskToList).2.wait x.session.next .atDeskToList).session with
      desk := x.session.desk ++ [x.session.next] } }
  have hf : queued.flight? x.session.next = some ⟨x.session.next, .resync, .atDeskToList⟩ := by
    show ((x.enlist .resync .atDeskToList).2.wait x.session.next .atDeskToList).flight? x.session.next = _
    rw [flight?_wait, if_pos rfl, flight?_enlist hnew, if_pos rfl]
    rfl
  have hfirst : (queued.session.desk.head? == some x.session.next) = true := by
    show ((x.session.desk ++ [x.session.next]).head? == some x.session.next) = true
    rw [hfree]
    exact beq_self_eq_true _
  have hproceed : queued.proceed now x.session.next = (queued.wait x.session.next .listing, .asking .watchList) := by
    rw [proceed, stage?_of_find? hf]
    exact if_pos hfirst
  refine ⟨queued.wait x.session.next .listing, ?_, rfl, rfl, ?_⟩
  · unfold launch
    rw [hopen]
    exact congrArg (Prod.mk x.session.next) hproceed
  · rw [flight?_wait, if_pos rfl, hf]
    rfl

theorem settle_listing (hf : x.flight? id = some ⟨id, .resync, .listing⟩) (hlist : reply.watches = .ok watches) :
    x.settle now id 0 reply =
      (remove id { x with registry := x.registry.replaceFor x.session.id (watches.map (·.1)) now },
        ⟨[], some (.count (.ok watches.length))⟩) := by
  have hstage : x.stage? id = some .listing := stage?_of_find? hf
  have hthen : ({ x with registry := x.registry.replaceFor x.session.id (watches.map (·.1)) now } : Site).flight? id =
      some ⟨id, .resync, .listing⟩ := hf
  simp only [settle, hstage, hlist]
  rw [finish, hthen]
  rfl

/-- The answer to a request for the list of watches tells how many items the list has. The connection then watches each
path of the list once, in whatever spellings it is listed, so that the count is the number of its watches exactly if no
path is listed twice. When the connection is gone, the count is the number of watches that it had, and it has none any
more. The watches of other connections stay. -/
theorem watches_counted_as_listed (x : Site) (now : Nat) :
    (∀ id reply watches, x.flight? id = some ⟨id, .resync, .listing⟩ → reply.watches = .ok watches →
      ∃ y, x.settle now id 0 reply = (y, ⟨[], some (.count (.ok watches.length))⟩) ∧
        (y.watched.map Path.parts).Nodup ∧
        (∀ ps, ps ∈ y.watched.map Path.parts ↔ ps ∈ watches.map (·.1.parts)) ∧
        y.watched.length = (watches.map (·.1.parts)).toFinset.card ∧
        (watches.length = y.watched.length ↔ (watches.map (·.1.parts)).Nodup) ∧
        ∀ d, d ≠ x.session.id → y.registry.own d = x.registry.own d) ∧
    x.forgetWatches.1 = x.watched.length ∧ x.forgetWatches.2.watched = [] ∧
    ∀ d, d ≠ x.session.id → x.forgetWatches.2.registry.own d = x.registry.own d := by
  refine ⟨fun id reply watches hf hlist => ?_, ?_, ?_, ?_⟩
  · refine ⟨_, settle_listing hf hlist, ?_⟩
    let y : Site := remove id { x with registry := x.registry.replaceFor x.session.id (watches.map (·.1)) now }
    have hparts : (watches.map (·.1)).map Path.parts = watches.map (·.1.parts) := List.map_map
    have hperm : y.watched.Perm (Path.distinct (watches.map (·.1))) := Watch.Registry.perm_pathsFor_replaceFor
    have hlength : y.watched.length = (watches.map (·.1.parts)).toFinset.card := by
      rw [hperm.length_eq, Path.length_distinct, hparts]
    refine ⟨?_, fun ps => ?_, hlength, ?_, fun d hd => ?_⟩
    · exact (hperm.map _).nodup_iff.2 (Path.nodup_distinct _)
    · rw [← hparts]
      exact (hperm.map Path.parts).mem_iff.trans Watch.Registry.mem_parts_distinct
    · have hiff : (watches.map (·.1)).length = _ ↔ _ := Path.length_distinct_eq_iff
      rw [hparts, List.length_map, ← hperm.length_eq] at hiff
      exact hiff
    · exact Watch.Registry.own_replaceFor_of_ne hd
  · exact Watch.Registry.fst_clearFor _ _
  · exact Watch.Registry.pathsFor_clearFor
  · exact fun d hd => Watch.Registry.own_clearFor_of_ne hd

/-- A list with one path in two spellings. -/
def listedTwice : Rpc.Reply :=
  .answered (.array [.object [("path", .text "/a"), ("recursive", .bool true)],
    .object [("path", .text "/a/"), ("recursive", .bool true)]])

/-- A session that asks for it is told that there are two watches, and has one. -/
theorem watches_counted_as_listed_of_spellings : ∃ y z,
    (⟨Session.opened 4 {} 1 true, .empty⟩ : Site).launch 0 .resync = (0, y, .asking .watchList) ∧
    y.settle 1 0 0 listedTwice = (z, ⟨[], some (.count (.ok 2))⟩) ∧ z.watched.length = 1 := by
  obtain ⟨y, hlaunch, -, -, hf⟩ := launch_resync 0 (numbered_opened 4 {} 1 true .empty) rfl rfl
  have hlist : listedTwice.watches = .ok [(⟨"/a"⟩, true), (⟨"/a/"⟩, true)] := rfl
  obtain ⟨z, hsettle, -, -, hlength, -, -⟩ := (watches_counted_as_listed y 1).1 0 listedTwice _ hf hlist
  refine ⟨y, z, hlaunch, hsettle, hlength.trans ?_⟩
  decide +kernel

end Session.Site

end RemoteFacts
