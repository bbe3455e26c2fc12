import Mathlib.Data.Finset.Dedup
import Mathlib.Data.Finset.Erase
import Mathlib.Data.Finset.Insert
import Mathlib.Data.List.Nodup
import RemoteFacts.Proofs.Watch.Entries
import RemoteFacts.Rpc.Call

/-!
# What a registry believes

* `Registry.believed` : the paths that a connection is believed to watch, compared by their parts
  (`believed_register`, `believed_unregister`, `believed_clearFor`, `believed_replaceFor`);
* `EachOnce` : a path is registered at most once for a connection, whatever its spelling;
* `News`, `learn` : what a connection can tell, and what is to be believed then;
* `Registry.heed` : what the end of a call does to a registry (`believed_heed` : it makes the registry believe just
  that).
-/

namespace RemoteFacts

namespace Watch

namespace Registry

variable {c d : ConnectionId} {path : Path} {paths : List Path} {now : Nat} {r : Registry} {e : Entry} {ps : List Part}

/-- The paths that a connection is believed to watch, however they are spelled. -/
def believed (c : ConnectionId) (r : Registry) : Finset (List Part) := ((r.pathsFor c).map Path.parts).toFinset

theorem mem_entriesFor : e ∈ r.entriesFor c ↔ e ∈ r.entries ∧ e.connection = c := by
  rw [entriesFor, List.mem_mergeSort, List.mem_filter, beq_iff_eq]

theorem mem_believed : ps ∈ r.believed c ↔ ∃ e ∈ r.entries, e.connection = c ∧ e.path.parts = ps := by
  simp only [believed, pathsFor, List.mem_toFinset, List.mem_map]
  constructor
  · rintro ⟨path, ⟨e, he, rfl⟩, rfl⟩
    obtain ⟨he, hc⟩ := mem_entriesFor.1 he
    exact ⟨e, he, hc, rfl⟩
  · rintro ⟨e, he, hc, rfl⟩
    exact ⟨e.path, ⟨e, mem_entriesFor.2 ⟨he, hc⟩, rfl⟩, rfl⟩

theorem believed_empty : empty.believed c = ∅ := by
  ext ps
  simp [mem_believed, empty]

theorem isFor_iff : isFor c path e = true ↔ e.connection = c ∧ e.path.parts = path.parts := by
  rw [isFor, Bool.and_eq_true, beq_iff_eq, Path.beq_iff]

/-- A path is watched if it is believed to be, under any spelling. -/
theorem isWatched_iff : r.isWatched c path = true ↔ path.parts ∈ r.believed c := by
  simp only [isWatched, List.any_eq_true, isFor_iff, mem_believed]

/-- What is believed of a connection depends on the entries of this connection only. -/
theorem believed_congr {r' : Registry} (h : ∀ e, e.connection = c → (e ∈ r.entries ↔ e ∈ r'.entries)) :
    r.believed c = r'.believed c := by
  ext ps
  simp only [mem_believed]
  exact exists_congr fun e => and_congr_left_iff.2 fun hsame => h e hsame.1

/-! ## Changes of a registry -/

theorem believed_register (d : ConnectionId) : (r.register c path now).2.believed d =
    if d = c then insert path.parts (r.believed d) else r.believed d := by
  unfold register
  split
  · next hold =>
    rw [isWatched_iff] at hold
    split
    · next hd => rw [hd, Finset.insert_eq_self.2 hold]
    · rfl
  · split
    · next hd =>
      subst hd
      ext ps
      simp only [mem_believed, Finset.mem_insert, List.mem_append, List.mem_singleton]
      constructor
      · rintro ⟨e, he | rfl, hc, hps⟩
        · exact Or.inr ⟨e, he, hc, hps⟩
        · exact Or.inl hps.symm
      · rintro (rfl | ⟨e, he, hc, hps⟩)
        · exact ⟨_, Or.inr rfl, rfl, rfl⟩
        · exact ⟨e, Or.inl he, hc, hps⟩
    · next hd =>
      refine believed_congr fun e he => ?_
      rw [List.mem_append, List.mem_singleton, or_iff_left]
      rintro rfl
      exact hd he.symm

theorem believed_unregister (d : ConnectionId) : (r.unregister c path).2.believed d =
    if d = c then (r.believed d).erase path.parts else r.believed d := by
  have hkept : ∀ e, isFor c path e = false ↔ ¬ (e.connection = c ∧ e.path.parts = path.parts) := fun e => by
    rw [← isFor_iff, Bool.not_eq_true]
  split
  · next hd =>
    subst hd
    ext ps
    simp only [mem_believed, Finset.mem_erase, mem_unregister, hkept]
    constructor
    · rintro ⟨e, ⟨he, hother⟩, hc, rfl⟩
      exact ⟨fun hps => hother ⟨hc, hps⟩, e, he, hc, rfl⟩
    · rintro ⟨hps, e, he, hc, rfl⟩
      exact ⟨e, ⟨he, fun hfor => hps hfor.2⟩, hc, rfl⟩
  · next hd =>
    refine believed_congr fun e he => ?_
    rw [mem_unregister, hkept]
    exact and_iff_left fun hfor => hd (he.symm.trans hfor.1)

theorem believed_clearFor (d : ConnectionId) : (r.clearFor c).2.believed d = if d = c then ∅ else r.believed d := by
  split
  · next hd =>
    subst hd
    ext ps
    simp only [mem_believed, mem_clearFor, Finset.notMem_empty, iff_false]
    rintro ⟨e, ⟨-, hother⟩, hc, -⟩
    exact hother hc
  · next hd =>
    refine believed_congr fun e he => ?_
    rw [mem_clearFor]
    exact and_iff_left fun hc => hd (he.symm.trans hc)

theorem mem_parts_distinct : ps ∈ (Path.distinct paths).map Path.parts ↔ ps ∈ paths.map Path.parts := by
  constructor
  · intro hps
    obtain ⟨p, hp, rfl⟩ := List.mem_map.1 hps
    rw [← Path.contains_iff_mem_parts, ← contains_distinct]
    exact Path.contains_of_mem hp BEq.rfl
  · intro hps
    obtain ⟨p, hp, rfl⟩ := List.mem_map.1 hps
    rw [← Path.contains_iff_mem_parts, contains_distinct]
    exact Path.contains_of_mem hp BEq.rfl

theorem believed_replaceFor (d : ConnectionId) : (r.replaceFor c paths now).believed d =
    if d = c then (paths.map Path.parts).toFinset else r.believed d := by
  have hentries : ∀ e, e ∈ (r.replaceFor c paths now).entries ↔ (e ∈ r.entries ∧ e.connection ≠ c) ∨
      ∃ path ∈ Path.distinct paths, _ = e := fun e => by
    rw [replaceFor, List.mem_append, mem_clearFor, List.mem_map]
  split
  · next hd =>
    subst hd
    ext ps
    rw [List.mem_toFinset, ← mem_parts_distinct, List.mem_map, mem_believed]
    simp only [hentries]
    constructor
    · rintro ⟨e, ⟨-, hother⟩ | ⟨path, hpath, rfl⟩, hc, rfl⟩
      · exact absurd hc hother
      · exact ⟨path, hpath, rfl⟩
    · rintro ⟨path, hpath, rfl⟩
      exact ⟨_, Or.inr ⟨path, hpath, rfl⟩, rfl, rfl⟩
  · next hd =>
    refine believed_congr fun e he => ?_
    rw [hentries]
    constructor
    · rintro (⟨hold, -⟩ | ⟨path, -, rfl⟩)
      · exact hold
      · exact absurd he.symm hd
    · exact fun hold => Or.inl ⟨hold, fun hc => hd (he.symm.trans hc)⟩

/-! ## Each path once -/

/-- No path is registered twice for one connection. -/
def EachOnce (r : Registry) : Prop := (r.entries.map fun e => (e.connection, e.path.parts)).Nodup

namespace EachOnce

theorem pathsFor (h : r.EachOnce) (c : ConnectionId) : ((r.pathsFor c).map Path.parts).Nodup := by
  have hown : ((r.entriesFor c).map fun e => (e.connection, e.path.parts)).Nodup := by
    have hperm : (r.entriesFor c).Perm (r.entries.filter (·.connection == c)) := List.mergeSort_perm _ _
    exact (hperm.map _).nodup_iff.2 (h.sublist (List.filter_sublist.map _))
  rw [Registry.pathsFor, List.map_map]
  refine List.Nodup.map_on (fun e he f hf hsame => ?_) (List.Nodup.of_map _ hown)
  have hconnection : e.connection = f.connection := (mem_entriesFor.1 he).2.trans (mem_entriesFor.1 hf).2.symm
  exact List.inj_on_of_nodup_map hown he hf (Prod.ext hconnection hsame)

theorem register (h : r.EachOnce) : (r.register c path now).2.EachOnce := by
  unfold Registry.register
  split
  · exact h
  · next hnew =>
    unfold EachOnce
    rw [List.map_append, List.nodup_append]
    refine ⟨h, by simp, fun a ha b hb hsame => hnew ?_⟩
    obtain ⟨e, he, rfl⟩ := List.mem_map.1 ha
    simp only [List.map_cons, List.map_nil, List.mem_singleton] at hb
    obtain ⟨hc, hps⟩ := Prod.mk.inj (hsame.trans hb)
    exact List.any_eq_true.2 ⟨e, he, isFor_iff.2 ⟨hc, hps⟩⟩

theorem unregister (h : r.EachOnce) : (r.unregister c path).2.EachOnce := h.sublist (List.filter_sublist.map _)

theorem clearFor (h : r.EachOnce) : (r.clearFor c).2.EachOnce := h.sublist (List.filter_sublist.map _)

theorem replaceFor (h : r.EachOnce) : (r.replaceFor c paths now).EachOnce := by
  unfold EachOnce Registry.replaceFor
  rw [List.map_append, List.map_map, List.nodup_append]
  refine ⟨h.clearFor, ?_, ?_⟩
  · have hdistinct : ((Path.distinct paths).map Path.parts).Nodup := Path.nodup_distinct paths
    have hpairs := hdistinct.map (Prod.mk_right_injective c)
    rw [List.map_map] at hpairs
    exact hpairs
  · rintro a ha b hb rfl
    obtain ⟨e, he, rfl⟩ := List.mem_map.1 ha
    obtain ⟨path, -, hsame⟩ := List.mem_map.1 hb
    exact (mem_clearFor.1 he).2 (congrArg Prod.fst hsame).symm

end EachOnce

end Registry

/-! ## News of a connection -/

/-- What can be heard of a connection: how a call of it has ended, or that it is gone. -/
inductive News where
  | ended (request : Rpc.Request) (reply : Rpc.Reply)
  | gone

/-- What a connection is to be believed to watch when something more is heard of it. -/
def learn (believed : Finset (List Part)) : News → Finset (List Part)
  | .ended (.watchAdd path _) (.answered (.bool true)) => insert path.parts believed
  | .ended (.watchRemove path) (.answered (.bool _)) => believed.erase path.parts
  | .ended .watchList reply =>
    match reply.watches with
    | .ok watches => (watches.map (·.1.parts)).toFinset
    | .error _ => believed
  | .gone => ∅
  | _ => believed

end Watch

/-- A call is answered by a flag if that is just what came back. -/
theorem Rpc.Reply.flag_eq_ok_iff {method : String} {reply : Rpc.Reply} {b : Bool} :
    reply.flag method = .ok b ↔ reply = .answered (.bool b) := by
  cases reply with
  | answered result => cases result <;> simp [flag, decode, value, Json.isNull, Json.bool?, Bind.bind, Except.bind]
  | failed reason => simp [flag, decode, value, Bind.bind, Except.bind]
  | timedOut millis => simp [flag, decode, value, Bind.bind, Except.bind]

theorem Rpc.Reply.isOk_flag_iff {method : String} {reply : Rpc.Reply} :
    (reply.flag method).isOk = true ↔ ∃ b, reply = .answered (.bool b) := by
  have hflag : ∀ b, reply.flag method = .ok b ↔ reply = .answered (.bool b) := fun _ => flag_eq_ok_iff
  simp only [← hflag]
  cases reply.flag method with
  | ok b => simp [Except.isOk, Except.toBool]
  | error e => simp [Except.isOk, Except.toBool]

namespace Watch

variable {believed : Finset (List Part)} {path : Path} {recursive : Bool} {reply : Rpc.Reply}

theorem learn_watchAdd (h : reply ≠ .answered (.bool true)) :
    learn believed (.ended (.watchAdd path recursive) reply) = believed := by
  cases reply with
  | answered result =>
    cases result with
    | bool b =>
      cases b with
      | true => exact absurd rfl h
      | false => rfl
    | _ => rfl
  | failed reason => rfl
  | timedOut millis => rfl

theorem learn_watchRemove (h : ∀ b, reply ≠ .answered (.bool b)) :
    learn believed (.ended (.watchRemove path) reply) = believed := by
  cases reply with
  | answered result =>
    cases result with
    | bool b => exact absurd rfl (h b)
    | _ => rfl
  | failed reason => rfl
  | timedOut millis => rfl

end Watch

namespace Watch.Registry

variable {c d : ConnectionId} {now : Nat} {r : Registry} {request : Rpc.Request} {reply : Rpc.Reply}

/-- What the end of a call of a connection does to the registry. -/
def heed (c : ConnectionId) (now : Nat) (request : Rpc.Request) (reply : Rpc.Reply) (r : Registry) : Registry :=
  match request with
  | .watchAdd path _ =>
    match reply.flag (Rpc.Request.watchAdd path true).method with
    | .ok true => (r.register c path now).2
    | _ => r
  | .watchRemove path =>
    if (reply.flag (Rpc.Request.watchRemove path).method).isOk then (r.unregister c path).2 else r
  | .watchList =>
    match reply.watches with
    | .ok watches => r.replaceFor c (watches.map (·.1)) now
    | .error _ => r
  | _ => r

theorem believed_heed (d : ConnectionId) : (r.heed c now request reply).believed d =
    if d = c then learn (r.believed d) (.ended request reply) else r.believed d := by
  unfold heed
  cases request with
  | watchAdd path recursive =>
    dsimp only
    split
    · next haccepted =>
      rw [believed_register, Rpc.Reply.flag_eq_ok_iff.1 haccepted]
      rfl
    · next hdeclined =>
      rw [learn_watchAdd fun hreply => hdeclined (Rpc.Reply.flag_eq_ok_iff.2 hreply), ite_self]
  | watchRemove path =>
    dsimp only
    split
    · next hended =>
      obtain ⟨b, rfl⟩ := Rpc.Reply.isOk_flag_iff.1 hended
      rw [believed_unregister]
      rfl
    · next hfailed =>
      rw [learn_watchRemove fun b hreply => hfailed (Rpc.Reply.isOk_flag_iff.2 ⟨b, hreply⟩), ite_self]
  | watchList =>
    unfold learn
    dsimp only
    split
    · rw [believed_replaceFor, List.map_map]
      rfl
    · rw [ite_self]
  | runParallel commands => exact (ite_self _).symm
  | scanAncestors directory markers depth => exact (ite_self _).symm

theorem EachOnce.heed (h : r.EachOnce) : (r.heed c now request reply).EachOnce := by
  unfold Registry.heed
  split
  · split
    · exact h.register
    · exact h
  · split
    · exact h.unregister
    · exact h
  · split
    · exact h.replaceFor
    · exact h
  · exact h

end Watch.Registry

end RemoteFacts
