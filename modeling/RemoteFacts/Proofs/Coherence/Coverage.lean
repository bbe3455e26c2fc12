import Mathlib.Data.Finset.Card
import RemoteFacts.Proofs.Coherence.Distinct

/-!
# What a report of changes takes

Outside of scopes a report of changes takes what the paths that it names unsettle, all at once: it is applied path by
path, but neither the order of the paths nor their number nor their spelling matters, and paths that unsettle the same
entry take it only once.

* `Rpc.Notification.named` : the absolute paths that a notification names, by their parts, as a set (`mem_named_iff`,
  `card_named` : `changedPaths` lists each of them once);
* `Path.unsettles`, `Cache.losing`, `Session.Site.losing` : what is left when all that several paths unsettle has gone
  at once (`Site.losing_losing`, `Site.losing_congr`);
* `FactStore.dropAround_eq_losing`, `Site.foldl_applyChange` : one change, and one after the other;
* `Site.report_takes_what_it_unsettles` : what a report does, and which reports do the same;
* `Client.notify_run_eq_losing` : so it is with every session after every history.
-/

namespace RemoteFacts

/-! ## The paths that a notification names -/

namespace Rpc.Notification

variable {n : Notification} {p : Path}

/-- The absolute paths that a notification reports as changed, as it lists them. -/
def reported (n : Notification) : List Path :=
  if n.method == changes then ((paths? n.params).getD []).filter (·.isAbsolute) else []

/-- The absolute paths that a notification reports as changed, each by the parts that it names. -/
def named (n : Notification) : Finset (List Part) := (n.reported.map Path.parts).toFinset

theorem mem_reported_iff : p ∈ n.reported ↔ n.Names p := by
  unfold reported Names
  cases hmethod : n.method == changes with
  | false => exact iff_of_false List.not_mem_nil fun h => beq_eq_false_iff_ne.1 hmethod h.1
  | true =>
    rw [if_pos rfl, List.mem_filter, and_comm, beq_iff_eq.1 hmethod]
    cases hpaths : paths? n.params with
    | none => simp
    | some ps => simp

theorem mem_named_iff {parts : List Part} : parts ∈ n.named ↔ ∃ p, n.Names p ∧ p.parts = parts := by
  rw [named, List.mem_toFinset, List.mem_map]
  exact exists_congr fun p => and_congr_left fun _ => mem_reported_iff

theorem mem_parts_reported_iff {a : List Part} : a ∈ n.reported.map Path.parts ↔ a ∈ n.named := List.mem_toFinset.symm

theorem mem_parts_changedPaths_iff {a : List Part} : a ∈ n.changedPaths.map Path.parts ↔ a ∈ n.named := by
  rw [mem_named_iff, List.mem_map]
  constructor
  · rintro ⟨r, hr, rfl⟩
    exact ⟨r, names_of_mem_changedPaths hr, rfl⟩
  · rintro ⟨p, hp, rfl⟩
    obtain ⟨r, hr, hrp⟩ := exists_mem_changedPaths hp
    exact ⟨r, hr, Path.beq_iff.1 hrp⟩

theorem nodup_parts_changedPaths (n : Notification) : (n.changedPaths.map Path.parts).Nodup := by
  unfold changedPaths
  split
  · rw [Path.sort, Path.latest, ((List.mergeSort_perm _ _).map _).nodup_iff, List.map_reverse, List.nodup_reverse]
    exact Path.nodup_distinct _
  · exact List.nodup_nil

/-- Each path that is named is listed once. -/
theorem card_named (n : Notification) : n.named.card = n.changedPaths.length := by
  have hsame : (n.changedPaths.map Path.parts).toFinset = n.named :=
    Finset.ext fun a => List.mem_toFinset.trans mem_parts_changedPaths_iff
  rw [← hsame, List.toFinset_card_of_nodup (nodup_parts_changedPaths n), List.length_map]

end Rpc.Notification

/-! ## What several paths unsettle -/

namespace Path

variable {p r q : Path} {ps qs : List Path}

/-- Whether a change of `p` may falsify the facts about `q`: it is the path itself or the directory that holds it. -/
def unsettles (p q : Path) : Bool := q == p || p.parent?.any (q == ·)

theorem unsettles_iff : p.unsettles q = true ↔ p.Unsettles q := by
  unfold unsettles Unsettles
  simp only [Bool.or_eq_true, Option.any_eq_true]

theorem unsettles_congr (h : (p == r) = true) (q : Path) : p.unsettles q = r.unsettles q := by
  rw [Bool.eq_iff_iff, unsettles_iff, unsettles_iff]
  exact ⟨fun hun => hun.congr h BEq.rfl, fun hun => hun.congr (BEq.symm h) BEq.rfl⟩

/-- What holds of a path in all its spellings holds of some path of a list as a matter of the set of them, by parts. -/
theorem any_congr {f : Path → Bool} (hf : ∀ p r, (p == r) = true → f p = f r)
    (h : ∀ a, a ∈ ps.map parts ↔ a ∈ qs.map parts) : ps.any f = qs.any f := by
  have hhalf {ps qs : List Path} (h : ∀ a, a ∈ ps.map parts → a ∈ qs.map parts) (hany : ps.any f = true) :
      qs.any f = true := by
    obtain ⟨p, hp, hfp⟩ := List.any_eq_true.1 hany
    obtain ⟨r, hr, hsame⟩ := List.mem_map.1 (h _ (List.mem_map_of_mem hp))
    exact List.any_eq_true.2 ⟨r, hr, hf r p (beq_iff.2 hsame) ▸ hfp⟩
  exact Bool.eq_iff_iff.2 ⟨hhalf fun a => (h a).1, hhalf fun a => (h a).2⟩

end Path

/-! ## Losing entries -/

namespace Cache

variable {α : Type} {c : Cache α} {gone : Path → Bool} {key : Path}

/-- A cache without the entries whose paths are `gone`, each of which is counted as invalidated. -/
def losing (gone : Path → Bool) (c : Cache α) : Cache α :=
  { c with
    entries := c.entries.filter fun e => !gone e.key
    stats := { c.stats with
      invalidations := c.stats.invalidations + (c.entries.filter fun e => gone e.key).length } }

theorem losing_none : c.losing (fun _ => false) = c := by
  simp [losing]

/-- To lose some entries and then others is to lose all of them: none is counted twice. -/
theorem losing_losing (gone gone' : Path → Bool) :
    (c.losing gone).losing gone' = c.losing fun q => gone q || gone' q := by
  have hcount : (c.entries.filter fun e => gone e.key).length +
      ((c.entries.filter fun e => !gone e.key).filter fun e => gone' e.key).length =
        (c.entries.filter fun e => gone e.key || gone' e.key).length := by
    have hsplit := List.length_eq_length_filter_add (l := c.entries.filter fun e => gone e.key || gone' e.key)
      fun e => gone e.key
    have hfirst : (c.entries.filter fun e => gone e.key || gone' e.key).filter (fun e => gone e.key) =
        c.entries.filter fun e => gone e.key := by
      rw [List.filter_filter]
      exact List.filter_congr fun e _ => by cases gone e.key <;> rfl
    have hthen : (c.entries.filter fun e => gone e.key || gone' e.key).filter (fun e => !gone e.key) =
        (c.entries.filter fun e => !gone e.key).filter fun e => gone' e.key := by
      rw [List.filter_filter, List.filter_filter]
      exact List.filter_congr fun e _ => by cases gone e.key <;> simp
    rw [hsplit, hfirst, hthen]
  have hkept : (c.entries.filter fun e => !gone e.key).filter (fun e => !gone' e.key) =
      c.entries.filter fun e => !(gone e.key || gone' e.key) := by
    rw [List.filter_filter]
    exact List.filter_congr fun e _ => by rw [Bool.not_or, Bool.and_comm]
  unfold losing
  dsimp only
  rw [hkept, Nat.add_assoc, hcount]

/-- To drop the entry of a path is to lose it. -/
theorem invalidate_eq_losing (h : KeysDistinct c.entries) : (c.invalidate key).2 = c.losing (· == key) := by
  unfold invalidate losing
  cases hcontains : c.contains key with
  | true =>
    obtain ⟨e, he, hkey⟩ := List.any_eq_true.1 hcontains
    rw [if_pos rfl, h.filter_eq_singleton he hkey]
    rfl
  | false =>
    have hnone : c.entries.filter (fun e => e.key == key) = [] :=
      List.filter_eq_nil_iff.2 (List.any_eq_false.1 hcontains)
    have hall : c.entries.filter (fun e => !(e.key == key)) = c.entries :=
      List.filter_eq_self.2 fun e he => by simpa using List.any_eq_false.1 hcontains e he
    rw [if_neg Bool.false_ne_true, hnone, hall]
    rfl

theorem losing_sublist : (c.losing gone).entries.Sublist c.entries := List.filter_sublist

end Cache

/-- A change drops what it unsettles. -/
theorem FactStore.dropAround_eq_losing {α : Type} {c : Cache α} (h : Cache.KeysDistinct c.entries) (p : Path) :
    dropAround p c = c.losing p.unsettles := by
  unfold dropAround
  rw [Cache.invalidate_eq_losing h]
  cases hparent : p.parent? with
  | none =>
    have hgone : p.unsettles = fun q => q == p := by
      funext q
      simp [Path.unsettles, hparent]
    rw [hgone]
  | some parent =>
    have hgone : p.unsettles = fun q => q == p || q == parent := by
      funext q
      simp [Path.unsettles, hparent]
    dsimp only
    rw [Cache.invalidate_eq_losing (h.sublist Cache.losing_sublist), Cache.losing_losing, hgone]

/-! ## One change after the other -/

namespace Session.Site

variable {x : Site} {ps qs : List Path}

/-- What is left when all that the changes of several paths may falsify has gone at once: in both caches the entries of
these paths and of the directories that hold them, and the scan if one of them is named like a marker. -/
def losing (ps : List Path) (x : Site) : Site :=
  { x with session := { x.session with
    store := {
      existence := x.session.store.existence.losing fun q => ps.any (·.unsettles q)
      truename := x.session.store.truename.losing fun q => ps.any (·.unsettles q) }
    transient := { x.session.transient with
      scan := x.session.transient.scan.filter fun d => !ps.any d.value.isAffectedBy } } }

theorem keysDistinct_losing (h : x.session.store.KeysDistinct) (ps : List Path) :
    (x.losing ps).session.store.KeysDistinct :=
  ⟨h.existence.sublist Cache.losing_sublist, h.truename.sublist Cache.losing_sublist⟩

theorem losing_nil : x.losing [] = x := by
  have hscan : x.session.transient.scan.filter (fun _ => true) = x.session.transient.scan := by
    cases x.session.transient.scan with
    | none => rfl
    | some d => rfl
  simp only [losing, List.any_nil, Bool.not_false, Cache.losing_none, hscan]

theorem losing_losing (ps qs : List Path) : (x.losing ps).losing qs = x.losing (ps ++ qs) := by
  simp only [losing, Cache.losing_losing, Option.filter_filter, List.any_append, Bool.not_or]

/-- What is lost is a matter of the set of paths, by parts. -/
theorem losing_congr (h : ∀ a, a ∈ ps.map Path.parts ↔ a ∈ qs.map Path.parts) : x.losing ps = x.losing qs := by
  have hfacts (q : Path) : ps.any (·.unsettles q) = qs.any (·.unsettles q) :=
    Path.any_congr (fun _ _ hpr => Path.unsettles_congr hpr q) h
  have hscan (scan : AncestorScan) : ps.any scan.isAffectedBy = qs.any scan.isAffectedBy :=
    Path.any_congr (fun _ _ hpr => AncestorScan.isAffectedBy_congr hpr) h
  simp only [losing, hfacts, hscan]

theorem applyChange_eq_losing (h : x.session.store.KeysDistinct) (p : Path) : x.applyChange p = x.losing [p] := by
  have hstore : x.session.store.invalidatePath p =
      ⟨x.session.store.existence.losing p.unsettles, x.session.store.truename.losing p.unsettles⟩ := by
    unfold FactStore.invalidatePath
    rw [FactStore.dropAround_eq_losing h.existence, FactStore.dropAround_eq_losing h.truename]
  simp only [applyChange, losing, hstore, Transient.dropScanFor, List.any_cons, List.any_nil, Bool.or_false]

/-- Changes that are applied one after the other take what they unsettle together. -/
theorem foldl_applyChange (h : x.session.store.KeysDistinct) (ps : List Path) :
    ps.foldl applyChange x = x.losing ps := by
  induction ps generalizing x with
  | nil => exact losing_nil.symm
  | cons p ps ih =>
    rw [List.foldl_cons, applyChange_eq_losing h, ih (keysDistinct_losing h [p]), losing_losing, List.singleton_append]

theorem notify_of_idle (hidle : x.session.suppression.active = false) (n : Rpc.Notification) : x.notify n =
    if n.changedPaths = [] then (.ignored, x)
    else (.applied n.changedPaths.length, n.changedPaths.foldl applyChange x) := by
  unfold notify
  split
  · next hnone => rw [if_pos hnone]
  · next hsome =>
    rw [if_neg hsome]
    simp only [Suppression.suppress, hidle, Bool.false_eq_true, if_false]

/-- Outside of scopes every notification leaves what is left by the paths that it reports. -/
theorem notify_eq_losing (hidle : x.session.suppression.active = false) (hdistinct : x.session.store.KeysDistinct)
    (n : Rpc.Notification) :
    x.notify n = (if n.named = ∅ then .ignored else .applied n.named.card, x.losing n.reported) := by
  have hnamed : n.named = ∅ ↔ n.changedPaths = [] := by
    rw [← Finset.card_eq_zero, Rpc.Notification.card_named, List.length_eq_zero_iff]
  have hlosing : x.losing n.changedPaths = x.losing n.reported := losing_congr fun a =>
    Rpc.Notification.mem_parts_changedPaths_iff.trans Rpc.Notification.mem_parts_reported_iff.symm
  rw [notify_of_idle hidle, Rpc.Notification.card_named, ← hlosing]
  by_cases hnone : n.changedPaths = []
  · rw [if_pos hnone, if_pos (hnamed.2 hnone), hnone, losing_nil]
  · rw [if_neg hnone, if_neg (mt hnamed.1 hnone), foldl_applyChange hdistinct]

/-- Reports that come one after the other take what all their paths unsettle together. -/
theorem foldl_notify (hidle : x.session.suppression.active = false) (hdistinct : x.session.store.KeysDistinct)
    (ns : List Rpc.Notification) : ns.foldl (fun y n => (y.notify n).2) x = x.losing (ns.flatMap (·.reported)) := by
  induction ns generalizing x with
  | nil => exact losing_nil.symm
  | cons n ns ih =>
    rw [List.foldl_cons, notify_eq_losing hidle hdistinct]
    rw [ih (x := x.losing n.reported) hidle (keysDistinct_losing hdistinct _), losing_losing, List.flatMap_cons]

/-- Outside of scopes a notification that names no absolute path as changed is ignored, and leaves all as it is. Any
other is applied, its paths counted once each by their parts: from both caches it takes exactly the entries of these
paths and of the directories that hold them, each counted as invalidated once, and the scan if one of them is named like
a marker; all else stays. So notifications that name the same set of paths do the same, and a notification leaves what
any others leave that name the same paths between them. -/
theorem report_takes_what_it_unsettles (hidle : x.session.suppression.active = false)
    (hdistinct : x.session.store.KeysDistinct) :
    (∀ n : Rpc.Notification, n.named = ∅ → x.notify n = (.ignored, x)) ∧
    (∀ n : Rpc.Notification, n.named ≠ ∅ → x.notify n = (.applied n.named.card, x.losing n.reported)) ∧
    (∀ n n' : Rpc.Notification, n.named = n'.named → x.notify n = x.notify n') ∧
    ∀ (n : Rpc.Notification) (ns : List Rpc.Notification), (∀ a, a ∈ n.named ↔ ∃ m ∈ ns, a ∈ m.named) →
      ns.foldl (fun y m => (y.notify m).2) x = (x.notify n).2 := by
  refine ⟨fun n hnone => ?_, fun n hsome => ?_, fun n n' hsame => ?_, fun n ns hsame => ?_⟩
  · rw [notify_of_idle hidle, if_pos]
    rw [← List.length_eq_zero_iff, ← Rpc.Notification.card_named, hnone, Finset.card_empty]
  · rw [notify_eq_losing hidle hdistinct, if_neg hsome]
  · have hlosing : x.losing n.reported = x.losing n'.reported := losing_congr fun a => by
      rw [Rpc.Notification.mem_parts_reported_iff, Rpc.Notification.mem_parts_reported_iff, hsame]
    rw [notify_eq_losing hidle hdistinct, notify_eq_losing hidle hdistinct, hlosing, hsame]
  · rw [foldl_notify hidle hdistinct, notify_eq_losing hidle hdistinct]
    refine losing_congr fun a => ?_
    rw [Rpc.Notification.mem_parts_reported_iff, hsame, List.map_flatMap, List.mem_flatMap]
    simp only [Rpc.Notification.mem_parts_reported_iff]

/-- A session that holds a few facts and a scan. -/
def knowingSite : Site where
  session := { Session.opened 0 {} 1 true with
    store := ["/r", "/r/a", "/r/a/b", "/q"].foldl (fun s path => s.recordExists ⟨path⟩ ⟨0, true⟩ 0)
      ((FactStore.empty none none).recordTruename ⟨"/r/a/"⟩ ⟨0, ⟨"/q"⟩⟩ 0)
    transient := ⟨none, some ⟨0, ⟨"/r"⟩, [(".git", some ⟨"/r"⟩)]⟩⟩ }
  registry := .empty

/-- A file in two spellings, a marker beside it and a relative path: the directory that holds the first two goes once,
and reports of them one by one leave the same. -/
theorem report_takes_what_it_unsettles_of_siblings :
    let report (paths : List String) : Rpc.Notification := ⟨"fs.changed", .object [("paths", .array (paths.map .text))]⟩
    let y := (knowingSite.notify (report ["/r//a/", "a", "/r/a", "/r/.git"])).2
    (knowingSite.notify (report ["/r//a/", "a", "/r/a", "/r/.git"])).1 = .applied 2 ∧
      y.session.store.existence.entries.map (·.key.text) = ["/r/a/b", "/q"] ∧
      y.session.store.existence.stats.invalidations = 2 ∧ y.session.store.truename.entries.length = 0 ∧
      y.session.store.truename.stats.invalidations = 1 ∧ y.session.transient.scan.isNone ∧
      [report ["/r/.git"], report ["a"], report ["/r/a"]].foldl (fun x n => (x.notify n).2) knowingSite = y := by
  intro report y
  have hdistinct : knowingSite.session.store.KeysDistinct :=
    ⟨by show List.Nodup _; decide +kernel, by show List.Nodup _; decide +kernel⟩
  obtain ⟨-, htakes, -, hsplit⟩ := report_takes_what_it_unsettles (x := knowingSite) rfl hdistinct
  have hall : (report ["/r//a/", "a", "/r/a", "/r/.git"]).named =
      (report ["/r/.git"]).named ∪ (report ["a"]).named ∪ (report ["/r/a"]).named := by decide +kernel
  have hafter : knowingSite.notify (report ["/r//a/", "a", "/r/a", "/r/.git"]) = (.applied 2, knowingSite.losing _) :=
    htakes _ (by decide +kernel)
  have hy : y = knowingSite.losing _ := congrArg Prod.snd hafter
  refine ⟨congrArg Prod.fst hafter, ?_, ?_, ?_, ?_, ?_, hsplit _ _ fun a => by simp [hall]⟩
  all_goals
    rw [hy]
    decide +kernel

end Session.Site

/-- Whatever the history of a session is, outside of scopes its reports take just what the paths that they name
unsettle: no path has two entries in one of its caches. -/
theorem Client.notify_run_eq_losing {sessions : List Session} {i : Nat} {connection : Watch.ConnectionId}
    {config : Config} {ticks : Nat} {flushesOnLeave : Bool}
    (hopened : sessions[i]? = some (Session.opened connection config ticks flushesOnLeave))
    (history : List (Nat × Session.Event)) :
    ∃ x, ((opened sessions).run history).site? i = some x ∧ (x.session.suppression.active = false →
      (∀ n, x.notify n = (if n.named = ∅ then .ignored else .applied n.named.card, x.losing n.reported)) ∧
      ∀ ns : List Rpc.Notification,
        ns.foldl (fun y n => (y.notify n).2) x = x.losing (ns.flatMap (·.reported))) := by
  obtain ⟨x, hx, hdistinct⟩ := keysDistinct_run hopened history
  exact ⟨x, hx, fun hidle =>
    ⟨fun n => Session.Site.notify_eq_losing hidle hdistinct n, fun ns => Session.Site.foldl_notify hidle hdistinct ns⟩⟩

end RemoteFacts
