import Mathlib.Algebra.BigOperators.Group.Finset.Piecewise
import RemoteFacts.Proofs.Watch.Belief
import RemoteFacts.Watch.History

/-!
# Connections that share a registry

What the registry answers to a connection can be told from the requests of this connection alone.

* `Ledger` : the watches of one connection, kept in the order in which they are listed, by its own requests
  (`Ledger.step`);
* `Ask`, `Request`, `Registry.serve` : what connections ask at their moments, and what the registry answers;
* `Ledger.Tidy` : the watches of a ledger are different paths, by moment and then by path (`Tidy.step`);
* `Mirrors` : a ledger has the watches that the registry has for a connection (`Mirrors.own`, `Mirrors.other`,
  `Mirrors.entriesFor`);
* `each_connection_by_itself` : so each connection is answered from a ledger of its own, whatever the others ask.
-/

namespace RemoteFacts.Watch

/-- What a connection asks of the registry: a request, or the list of its watches. -/
inductive Ask where
  | op (op : Op)
  | list

/-- What it is told. -/
inductive Told where
  | answer (a : Answer)
  | listed (es : List Entry)

/-- Something that a connection asks at a moment. -/
structure Request where
  moment : Nat
  connection : ConnectionId
  ask : Ask

/-- The watches of one connection and their moments, in the order in which they are listed. -/
abbrev Ledger := List (Path × Nat)

namespace Ledger

/-- Whether a path is among the watches. -/
def has (path : Path) (l : Ledger) : Bool := l.any (·.1 == path)

/-- The watches that stay when `paths` are to be the watches. They keep their moments and are spelled as in `paths`. -/
def survivors (paths : List Path) (l : Ledger) : Ledger := l.filterMap fun w => (paths.find? (· == w.1)).map (·, w.2)

/-- The watches that come when `paths` are to be the watches. They share the moment `now`. -/
def newcomers (paths : List Path) (now : Nat) (l : Ledger) : Ledger :=
  (Path.sort ((Path.distinct paths).filter fun path => !l.has path)).map (·, now)

/-- One request of the connection at the moment `now`. -/
def step (now : Nat) (l : Ledger) : Op → Answer × Ledger
  | .register path => if l.has path then (.flag false, l) else (.flag true, l ++ [(path, now)])
  | .unregister path => (.flag (l.has path), l.filter fun w => !(w.1 == path))
  | .isWatched path => (.flag (l.has path), l)
  | .clear => (.count l.length, [])
  | .replace paths => (.nothing, l.survivors paths ++ l.newcomers paths now)

/-- The entries that a ledger of the connection `c` stands for. -/
def entries (c : ConnectionId) (l : Ledger) : List Entry := l.map fun w => ⟨c, w.1, w.2⟩

/-- What a ledger of the connection `c` answers, and the ledger after that. -/
def reply (c : ConnectionId) (l : Ledger) (q : Request) : Told × Ledger :=
  match q.ask with
  | .op op => (.answer (l.step q.moment op).1, (l.step q.moment op).2)
  | .list => (.listed (l.entries c), l)

/-- The ledger of the connection `c` after its requests. -/
def after (c : ConnectionId) (l : Ledger) (own : List Request) : Ledger := own.foldl (fun l q => (l.reply c q).2) l

/-- The answers to the requests of the connection `c`. -/
def serve (c : ConnectionId) : Ledger → List Request → List Told
  | _, [] => []
  | l, q :: own => (l.reply c q).1 :: serve c (l.reply c q).2 own

end Ledger

namespace Registry

/-- What the registry answers, and the registry after that. -/
def reply (r : Registry) (q : Request) : Told × Registry :=
  match q.ask with
  | .op op => (.answer (r.step q.connection q.moment op).1, (r.step q.connection q.moment op).2)
  | .list => (.listed (r.entriesFor q.connection), r)

/-- The registry after a history of requests. -/
def after (r : Registry) (history : List Request) : Registry := history.foldl (fun r q => (r.reply q).2) r

/-- The answers to a history of requests, each with the connection it is for. -/
def serve : Registry → List Request → List (ConnectionId × Told)
  | _, [] => []
  | r, q :: history => (q.connection, (r.reply q).1) :: serve (r.reply q).2 history

/-- The entries of one connection, in no order. -/
def own (c : ConnectionId) (r : Registry) : List Entry := r.entries.filter (·.connection == c)

end Registry

/-- The answers that are for the connection `c`. -/
def toldTo (c : ConnectionId) (answers : List (ConnectionId × Told)) : List Told :=
  (answers.filter (·.1 == c)).map (·.2)

/-- The requests of the connection `c`. -/
def askedBy (c : ConnectionId) (history : List Request) : List Request := history.filter (·.connection == c)

theorem toldTo_cons {c d : ConnectionId} {told : Told} {answers : List (ConnectionId × Told)} :
    toldTo c ((d, told) :: answers) = if d = c then told :: toldTo c answers else toldTo c answers := by
  unfold toldTo
  by_cases hd : d = c
  · simp [hd]
  · simp [hd]

/-! ## Ledgers in order -/

namespace Ledger

variable {c : ConnectionId} {l : Ledger} {path : Path} {paths : List Path} {now later : Nat} {op : Op}
    {w v : Path × Nat}

/-- `a` is listed before `b`, and they are different paths. -/
def Precedes (a b : Path × Nat) : Prop := (a.2 < b.2 ∨ a.2 = b.2 ∧ a.1.le b.1 = true) ∧ a.1.parts ≠ b.1.parts

/-- The watches are different paths by moment and then by path, and all moments are before `now`. -/
structure Tidy (now : Nat) (l : Ledger) : Prop where
  ordered : l.Pairwise Precedes
  past : ∀ w ∈ l, w.2 < now

theorem has_iff : l.has path = true ↔ ∃ w ∈ l, w.1.parts = path.parts := by
  simp only [has, List.any_eq_true, Path.beq_iff]

theorem le_congr {p q p' q' : Path} (hp : p.parts = p'.parts) (hq : q.parts = q'.parts) : p.le q = p'.le q' := by
  rw [Path.le, Path.le, hp, hq]

namespace Tidy

theorem empty (now : Nat) : Tidy now [] := ⟨List.Pairwise.nil, nofun⟩

theorem mono (h : l.Tidy now) (hle : now ≤ later) : l.Tidy later :=
  ⟨h.ordered, fun w hw => Nat.lt_of_lt_of_le (h.past w hw) hle⟩

theorem nodup (h : l.Tidy now) : (l.map (·.1.parts)).Nodup := List.pairwise_map.2 (h.ordered.imp And.right)

/-- A path is watched once. -/
theorem eq_of_parts (h : l.Tidy now) (hw : w ∈ l) (hv : v ∈ l) (hsame : w.1.parts = v.1.parts) : w = v :=
  List.inj_on_of_nodup_map h.nodup hw hv hsame

theorem survivors (h : l.Tidy now) (paths : List Path) : (l.survivors paths).Pairwise Precedes ∧
    ∀ w ∈ l.survivors paths, w.2 < now := by
  have hspelled :
      ∀ {w v : Path × Nat}, (paths.find? (· == w.1)).map (·, w.2) = some v → v.1.parts = w.1.parts ∧ v.2 = w.2 := by
    intro w v hv
    obtain ⟨p, hp, rfl⟩ := Option.map_eq_some_iff.1 hv
    exact ⟨Path.beq_iff.1 (List.find?_some hp :), rfl⟩
  refine ⟨h.ordered.filterMap _ fun a a' hab b hb b' hb' => ?_, fun w hw => ?_⟩
  · obtain ⟨hparts, htime⟩ := hspelled hb
    obtain ⟨hparts', htime'⟩ := hspelled hb'
    unfold Precedes at hab ⊢
    rwa [hparts, hparts', htime, htime', le_congr hparts hparts']
  · obtain ⟨v, hv, hw⟩ := List.mem_filterMap.1 hw
    exact (hspelled hw).2 ▸ h.past v hv

theorem newcomers (paths : List Path) : (l.newcomers paths now).Pairwise Precedes := by
  have hsorted (ps : List Path) : (Path.sort ps).Pairwise fun p q => p.le q = true := by
    unfold Path.sort
    refine List.pairwise_mergeSort (fun p q r hpq hqr => ?_) (fun p q => ?_) ps
    · exact Path.le_trans hpq hqr
    · exact Path.le_total p q
  have hdistinct : ((Path.sort ((Path.distinct paths).filter fun path => !l.has path)).map Path.parts).Nodup := by
    have hall : ((Path.distinct paths).map Path.parts).Nodup := Path.nodup_distinct paths
    refine ((List.mergeSort_perm _ _).map _).nodup_iff.2 (hall.sublist ?_)
    exact List.filter_sublist.map _
  refine List.pairwise_map.2 (((hsorted _).and (List.pairwise_map.1 hdistinct)).imp fun hpq => ?_)
  exact ⟨Or.inr ⟨rfl, hpq.1⟩, hpq.2⟩

theorem step (h : l.Tidy now) : (l.step now op).2.Tidy (now + 1) := by
  have hthen : l.Tidy (now + 1) := h.mono (Nat.le_succ now)
  cases op with
  | isWatched path => exact hthen
  | clear => exact empty _
  | unregister path =>
    exact ⟨h.ordered.sublist List.filter_sublist, fun w hw => hthen.past w (List.mem_filter.1 hw).1⟩
  | register path =>
    unfold Ledger.step
    dsimp only
    split
    · exact hthen
    · next hnew =>
      refine ⟨List.pairwise_append.2 ⟨h.ordered, List.pairwise_singleton _ _, fun w hw v hv => ?_⟩, fun w hw => ?_⟩
      · rw [List.mem_singleton.1 hv]
        exact ⟨Or.inl (h.past w hw), fun hsame => hnew (has_iff.2 ⟨w, hw, hsame⟩)⟩
      · rcases List.mem_append.1 hw with hw | hw
        · exact hthen.past w hw
        · rw [List.mem_singleton.1 hw]
          exact Nat.lt_succ_self now
  | replace paths =>
    obtain ⟨hordered, hpast⟩ := h.survivors paths
    have hcome : ∀ v ∈ l.newcomers paths now, v.2 = now ∧ l.has v.1 = false := by
      intro v hv
      obtain ⟨p, hp, rfl⟩ := List.mem_map.1 hv
      rw [Path.sort, List.mem_mergeSort, List.mem_filter, Bool.not_eq_true'] at hp
      exact ⟨rfl, hp.2⟩
    refine ⟨List.pairwise_append.2 ⟨hordered, newcomers paths, fun w hw v hv => ?_⟩, fun w hw => ?_⟩
    · obtain ⟨htime, hnew⟩ := hcome v hv
      refine ⟨Or.inl (htime ▸ hpast w hw), fun hsame => ?_⟩
      obtain ⟨u, hu, hw⟩ := List.mem_filterMap.1 hw
      obtain ⟨p, hp, rfl⟩ := Option.map_eq_some_iff.1 hw
      have hheld : l.has v.1 = true :=
        has_iff.2 ⟨u, hu, (Path.beq_iff.1 (List.find?_some hp :)).symm.trans hsame⟩
      rw [hnew] at hheld
      contradiction
    · rcases List.mem_append.1 hw with hw | hw
      · exact Nat.lt_succ_of_lt (hpast w hw)
      · rw [(hcome w hw).1]
        exact Nat.lt_succ_self now

end Tidy

end Ledger

/-! ## The ledger and the registry -/

variable {c d : ConnectionId} {l : Ledger} {r : Registry} {path : Path} {paths : List Path} {now : Nat} {op : Op}
    {e : Entry}
  {w : Path × Nat} {q : Request} {history : List Request}

/-- The ledger has just the watches that the registry has for the connection. -/
def Mirrors (c : ConnectionId) (l : Ledger) (r : Registry) : Prop := (r.own c).Perm (l.entries c)

theorem Registry.mem_own : e ∈ r.own c ↔ e ∈ r.entries ∧ e.connection = c := by
  rw [own, List.mem_filter, beq_iff_eq]

/-- The first spelling of each path is kept. -/
theorem mem_insertAll_iff {seen : List Path} : path ∈ Path.insertAll seen paths ↔
    path ∈ seen ∨ seen.contains path = false ∧ paths.find? (· == path) = some path := by
  induction paths generalizing seen with
  | nil => simp [Path.insertAll]
  | cons p paths ih =>
    rw [Path.insertAll, List.foldl_cons, ← Path.insertAll, ih, List.find?_cons]
    cases hp : p == path with
    | false =>
      have hother : ¬ path = p := by
        rintro rfl
        rw [BEq.rfl] at hp
        contradiction
      have hother' : (path == p) = false := by rwa [BEq.comm]
      split
      · rfl
      · simp [hother, hother']
    | true =>
      have hsame : seen.contains p = seen.contains path := List.contains_congr hp
      rw [hsame]
      split
      · next hseen => simp [hseen]
      · next hnew => simp [BEq.symm hp, Bool.eq_false_iff.2 hnew, eq_comm]

theorem mem_distinct_iff : path ∈ Path.distinct paths ↔ paths.find? (· == path) = some path := by
  rw [Path.distinct, mem_insertAll_iff]
  simp

theorem Registry.entryLe_iff {a b : Entry} : entryLe a b = true ↔
    a.registeredAt < b.registeredAt ∨ a.registeredAt = b.registeredAt ∧ a.path.le b.path = true := by
  simp [entryLe]

theorem Registry.entriesFor_pairwise : (r.entriesFor c).Pairwise fun a b => entryLe a b = true := by
  unfold entriesFor
  refine List.pairwise_mergeSort (fun a b d hab hbd => ?_) (fun a b => ?_) _
  · rw [entryLe_iff] at hab hbd ⊢
    rcases hab with hab | ⟨hab, hle⟩
    · rcases hbd with hbd | ⟨hbd, -⟩
      · exact Or.inl (Nat.lt_trans hab hbd)
      · exact Or.inl (hbd ▸ hab)
    · rcases hbd with hbd | ⟨hbd, hle'⟩
      · exact Or.inl (hab ▸ hbd)
      · exact Or.inr ⟨hab.trans hbd, Path.le_trans hle hle'⟩
  · rw [Bool.or_eq_true, entryLe_iff, entryLe_iff]
    rcases Nat.lt_trichotomy a.registeredAt b.registeredAt with hlt | hsame | hgt
    · exact Or.inl (Or.inl hlt)
    · refine (Bool.or_eq_true_iff.1 (Path.le_total a.path b.path)).imp (fun hle => ?_) fun hle => ?_
      · exact Or.inr ⟨hsame, hle⟩
      · exact Or.inr ⟨hsame.symm, hle⟩
    · exact Or.inr (Or.inl hgt)

/-- Two entries of which neither is listed before the other are of one path. -/
theorem Registry.parts_eq_of_entryLe {a b : Entry} (hab : entryLe a b = true) (hba : entryLe b a = true) :
    a.path.parts = b.path.parts := by
  rw [entryLe_iff] at hab hba
  rcases hab with hab | ⟨hsame, hle⟩
  · omega
  · rcases hba with hba | ⟨-, hle'⟩
    · omega
    · exact Path.beq_iff.1 (Path.beq_of_le_of_le hle hle')

/-- What a request of one connection leaves of the entries of another one. -/
theorem Registry.own_step_of_ne (hne : d ≠ c) : (r.step d now op).2.own c = r.own c := by
  -- whatever is dropped is of `d`
  have hdrop : ∀ q : Entry → Bool, (∀ e, q e = false → e.connection = d) →
      (r.entries.filter q).filter (·.connection == c) = r.own c := by
    intro q hq
    rw [own, List.filter_filter]
    refine List.filter_congr fun e _ => ?_
    cases hqe : q e with
    | true => exact Bool.and_true _
    | false =>
      rw [Bool.and_false, eq_comm, beq_eq_false_iff_ne, hq e hqe]
      exact hne
  cases op with
  | isWatched path => rfl
  | register path =>
    unfold step register own
    dsimp only
    split
    · rfl
    · rw [List.filter_append, List.filter_singleton]
      simp [beq_eq_false_iff_ne.2 hne]
  | unregister path =>
    refine hdrop _ fun e he => ?_
    rw [Bool.not_eq_false', isFor_iff] at he
    exact he.1
  | clear => exact hdrop _ fun e he => by simpa using he
  | replace paths =>
    have hcome : ∀ since : Path → Nat, ((Path.distinct paths).map fun path => (⟨d, path, since path⟩ : Entry)).filter
        (·.connection == c) = [] := by
      intro since
      refine List.filter_eq_nil_iff.2 fun e he => ?_
      obtain ⟨p, -, rfl⟩ := List.mem_map.1 he
      simpa using hne
    unfold step replaceFor own
    dsimp only
    rw [List.filter_append, hcome, List.append_nil]
    exact hdrop _ fun e he => by simpa using he

namespace Mirrors

theorem mem_entries (h : Mirrors c l r) : e ∈ r.own c ↔ ∃ w ∈ l, (⟨c, w.1, w.2⟩ : Entry) = e :=
  (List.Perm.mem_iff h).trans List.mem_map

theorem isWatched (h : Mirrors c l r) : r.isWatched c path = l.has path := by
  rw [Bool.eq_iff_iff, Ledger.has_iff]
  simp only [Registry.isWatched, List.any_eq_true, Registry.isFor_iff]
  constructor
  · rintro ⟨e, he, hc, hparts⟩
    obtain ⟨w, hw, rfl⟩ := h.mem_entries.1 (Registry.mem_own.2 ⟨he, hc⟩)
    exact ⟨w, hw, hparts⟩
  · rintro ⟨w, hw, hparts⟩
    exact ⟨_, (Registry.mem_own.1 (h.mem_entries.2 ⟨w, hw, rfl⟩)).1, rfl, hparts⟩

/-- What is listed for the connection is its ledger. -/
theorem entriesFor (h : Mirrors c l r) (ht : l.Tidy now) : r.entriesFor c = l.entries c := by
  have hperm : (r.entriesFor c).Perm (l.entries c) := (List.mergeSort_perm _ _).trans h
  have hledger : (l.entries c).Pairwise fun a b => Registry.entryLe a b = true :=
    List.pairwise_map.2 (ht.ordered.imp fun hab => Registry.entryLe_iff.2 hab.1)
  refine hperm.eq_of_pairwise (fun a b ha hb hab hba => ?_) Registry.entriesFor_pairwise hledger
  obtain ⟨w, hw, rfl⟩ := List.mem_map.1 ((List.Perm.mem_iff hperm).1 ha)
  obtain ⟨v, hv, rfl⟩ := List.mem_map.1 hb
  rw [ht.eq_of_parts hw hv (Registry.parts_eq_of_entryLe hab hba)]

/-- A request of another connection leaves the watches of this one alone. -/
theorem other (h : Mirrors c l r) (hne : d ≠ c) : Mirrors c l (r.step d now op).2 := by
  unfold Mirrors
  rwa [Registry.own_step_of_ne hne]

/-- A watch that stays keeps the moment that the ledger has for it. -/
theorem moment (h : Mirrors c l r) (ht : l.Tidy now) (hw : w ∈ l) (hsame : w.1.parts = path.parts) :
    (match r.entries.find? (Registry.isFor c path) with
      | some e => e.registeredAt
      | none => now) = w.2 := by
  split
  · next e hfound =>
    obtain ⟨hc, hparts⟩ := Registry.isFor_iff.1 (List.find?_some hfound)
    obtain ⟨v, hv, rfl⟩ := h.mem_entries.1 (Registry.mem_own.2 ⟨List.mem_of_find?_eq_some hfound, hc⟩)
    rw [ht.eq_of_parts hw hv (hsame.trans hparts.symm)]
  · next hnone =>
    have hentry := (Registry.mem_own.1 (h.mem_entries.2 ⟨w, hw, rfl⟩)).1
    exact absurd (Registry.isFor_iff.2 ⟨rfl, hsame⟩) (List.find?_eq_none.1 hnone _ hentry)

theorem moment_of_new (h : Mirrors c l r) (hnew : l.has path = false) :
    (match r.entries.find? (Registry.isFor c path) with
      | some e => e.registeredAt
      | none => now) = now := by
  split
  · next e hfound =>
    have hwatched : r.isWatched c path = true :=
      List.any_eq_true.2 ⟨e, List.mem_of_find?_eq_some hfound, List.find?_some hfound⟩
    rw [h.isWatched, hnew] at hwatched
    contradiction
  · rfl

/-- The paths that stay are spelled as they are first given. -/
theorem survivors_perm (ht : l.Tidy now) {since : Path → Nat}
    (hkeep : ∀ w ∈ l, ∀ path, w.1.parts = path.parts → since path = w.2) :
    (((Path.distinct paths).filter fun path => l.has path).map fun path => (path, since path)).Perm
      (l.survivors paths) := by
  have hleft : (((Path.distinct paths).filter fun path => l.has path).map fun path => (path, since path)).Nodup := by
    have hdistinct : ((Path.distinct paths).map Path.parts).Nodup := Path.nodup_distinct paths
    refine List.Nodup.of_map (fun w : Path × Nat => w.1.parts) ?_
    rw [List.map_map]
    exact hdistinct.sublist (List.filter_sublist.map _)
  have hright : (l.survivors paths).Nodup :=
    (ht.survivors paths).1.imp fun hab hsame => hab.2 (congrArg (fun w : Path × Nat => w.1.parts) hsame)
  rw [List.perm_ext_iff_of_nodup hleft hright]
  intro v
  simp only [Ledger.survivors, List.mem_map, List.mem_filter, List.mem_filterMap, mem_distinct_iff,
    Option.map_eq_some_iff]
  constructor
  · rintro ⟨path, ⟨hfirst, hheld⟩, rfl⟩
    obtain ⟨w, hw, hsame⟩ := Ledger.has_iff.1 hheld
    refine ⟨w, hw, path, ?_, by rw [hkeep w hw path hsame]⟩
    rw [← hfirst]
    congr 1
    exact funext fun p => BEq.congr_right (Path.beq_iff.2 hsame)
  · rintro ⟨w, hw, path, hfirst, rfl⟩
    have hsame : w.1.parts = path.parts := (Path.beq_iff.1 (List.find?_some hfirst :)).symm
    refine ⟨path, ⟨?_, Ledger.has_iff.2 ⟨w, hw, hsame⟩⟩, by rw [hkeep w hw path hsame]⟩
    rw [← hfirst]
    congr 1
    exact funext fun p => BEq.congr_right (Path.beq_iff.2 hsame.symm)

theorem replace (h : Mirrors c l r) (ht : l.Tidy now) (paths : List Path) :
    Mirrors c (l.survivors paths ++ l.newcomers paths now) (r.replaceFor c paths now) := by
  obtain ⟨since, hsince⟩ : ∃ since : Path → Nat, since = fun path =>
      match r.entries.find? (Registry.isFor c path) with
      | some e => e.registeredAt
      | none => now := ⟨_, rfl⟩
  have hkeep : ∀ w ∈ l, ∀ path, w.1.parts = path.parts → since path = w.2 := fun w hw path hsame =>
    hsince ▸ h.moment ht hw hsame
  have hcome : ∀ path, l.has path = false → since path = now := fun path hnew => hsince ▸ h.moment_of_new hnew
  have hown : (r.replaceFor c paths now).own c =
      Ledger.entries c ((Path.distinct paths).map fun path => (path, since path)) := by
    have hothers : (r.clearFor c).2.entries.filter (·.connection == c) = [] := by
      rw [List.filter_eq_nil_iff]
      intro e he
      simpa using (Registry.mem_clearFor.1 he).2
    unfold Registry.replaceFor Registry.own Ledger.entries
    dsimp only
    rw [List.filter_append, hothers, List.nil_append, List.map_map, hsince]
    exact List.filter_eq_self.2 fun e he => by
      obtain ⟨path, -, rfl⟩ := List.mem_map.1 he
      exact beq_self_eq_true c
  have hnew : (((Path.distinct paths).filter fun path => !l.has path).map fun path => (path, since path)).Perm
      (l.newcomers paths now) := by
    have hmoments : (((Path.distinct paths).filter fun path => !l.has path).map fun path => (path, since path)) =
        ((Path.distinct paths).filter fun path => !l.has path).map (·, now) := by
      refine List.map_congr_left fun path hpath => ?_
      rw [hcome path (by simpa using (List.mem_filter.1 hpath).2)]
    rw [hmoments]
    exact (List.mergeSort_perm _ _).symm.map _
  have hsplit :=
    (List.filter_append_perm (fun path => l.has path) (Path.distinct paths)).symm.map fun path => (path, since path)
  rw [List.map_append] at hsplit
  unfold Mirrors
  rw [hown]
  exact (hsplit.trans ((survivors_perm ht hkeep).append hnew)).map _

/-- A request of the connection is answered from its ledger, which goes on to have its watches. -/
theorem own (h : Mirrors c l r) (ht : l.Tidy now) :
    (r.step c now op).1 = (l.step now op).1 ∧ Mirrors c (l.step now op).2 (r.step c now op).2 := by
  cases op with
  | isWatched path => exact ⟨congrArg Answer.flag h.isWatched, h⟩
  | register path =>
    unfold Registry.step Registry.register Ledger.step
    dsimp only
    rw [h.isWatched]
    split
    · exact ⟨rfl, h⟩
    · refine ⟨rfl, ?_⟩
      unfold Mirrors Registry.own Ledger.entries
      rw [List.filter_append, List.map_append, List.filter_singleton, beq_self_eq_true]
      exact List.Perm.append_right _ h
  | unregister path =>
    refine ⟨congrArg Answer.flag h.isWatched, ?_⟩
    have hown : ((r.unregister c path).2).own c = (r.own c).filter fun e => !(e.path == path) := by
      unfold Registry.unregister Registry.own
      rw [List.filter_filter, List.filter_filter]
      refine List.filter_congr fun e _ => ?_
      unfold Registry.isFor
      cases e.connection == c <;> simp
    have hledger :
        Ledger.entries c (l.filter fun w => !(w.1 == path)) = (l.entries c).filter fun e => !(e.path == path) := by
      unfold Ledger.entries
      rw [List.filter_map]
      rfl
    show (((r.unregister c path).2).own c).Perm (Ledger.entries c (l.filter fun w => !(w.1 == path)))
    rw [hown, hledger]
    exact List.Perm.filter _ h
  | clear =>
    have hcount : r.entries.countP (·.connection == c) = l.length := by
      rw [List.countP_eq_length_filter]
      exact (List.Perm.length_eq h).trans (List.length_map _)
    refine ⟨congrArg Answer.count hcount, ?_⟩
    have hnone : ((r.clearFor c).2).own c = [] := by
      rw [Registry.own, List.filter_eq_nil_iff]
      intro e he
      simpa using (Registry.mem_clearFor.1 he).2
    show (((r.clearFor c).2).own c).Perm []
    rw [hnone]
  | replace paths => exact ⟨rfl, h.replace ht paths⟩

/-- Whatever the connection asks at `q`, it is answered from its ledger. -/
theorem reply (h : Mirrors c l r) (ht : l.Tidy q.moment) (hc : q.connection = c) :
    (r.reply q).1 = (l.reply c q).1 ∧ Mirrors c (l.reply c q).2 (r.reply q).2 ∧
      (l.reply c q).2.Tidy (q.moment + 1) := by
  subst hc
  unfold Registry.reply Ledger.reply
  split
  · obtain ⟨hanswer, hthen⟩ := h.own ht
    exact ⟨congrArg Told.answer hanswer, hthen, ht.step⟩
  · exact ⟨congrArg Told.listed (h.entriesFor ht), h, ht.mono (Nat.le_succ _)⟩

theorem reply_of_ne (h : Mirrors c l r) (hne : q.connection ≠ c) : Mirrors c l (r.reply q).2 := by
  unfold Registry.reply
  split
  · exact h.other hne
  · exact h

/-- Over a history on a clock that goes on, the connection is answered from its ledger. -/
theorem serve (h : Mirrors c l r) (ht : l.Tidy now) (hclock : history.Pairwise fun a b => a.moment < b.moment)
    (hlater : ∀ q ∈ history, now ≤ q.moment) :
    toldTo c (r.serve history) = l.serve c (askedBy c history) ∧
      Mirrors c (l.after c (askedBy c history)) (r.after history) ∧
      ∃ later, (l.after c (askedBy c history)).Tidy later := by
  induction history generalizing l r now with
  | nil => exact ⟨rfl, h, now, ht⟩
  | cons q history ih =>
    obtain ⟨hnext, hclock⟩ := List.pairwise_cons.1 hclock
    have hq : l.Tidy q.moment := ht.mono (hlater q List.mem_cons_self)
    by_cases hc : q.connection = c
    · obtain ⟨hanswer, hthen, htidy⟩ := h.reply hq hc
      obtain ⟨htold, hafter⟩ := ih hthen htidy hclock fun q' hq' => hnext q' hq'
      have hasked : askedBy c (q :: history) = q :: askedBy c history := List.filter_cons_of_pos (beq_iff_eq.2 hc)
      rw [hasked, Registry.serve, toldTo_cons, if_pos hc, hanswer, htold]
      exact ⟨rfl, hafter⟩
    · have hthen := h.reply_of_ne hc
      obtain ⟨htold, hafter⟩ := ih hthen hq hclock fun q' hq' => Nat.le_of_lt (hnext q' hq')
      have hasked : askedBy c (q :: history) = askedBy c history := List.filter_cons_of_neg (by simpa using hc)
      rw [hasked, Registry.serve, toldTo_cons, if_neg hc]
      exact ⟨htold, hafter⟩

theorem empty (c : ConnectionId) : Mirrors c [] Registry.empty := List.Perm.refl []

end Mirrors

/-- The entries of all connections together. -/
theorem length_eq_sum {es : List Entry} {s : Finset ConnectionId} (hs : ∀ e ∈ es, e.connection ∈ s) :
    es.length = ∑ c ∈ s, (es.filter (·.connection == c)).length := by
  induction es with
  | nil => simp
  | cons e es ih =>
    have hcons : ∀ c, ((e :: es).filter (·.connection == c)).length =
        (es.filter (·.connection == c)).length + if c = e.connection then 1 else 0 := by
      intro c
      by_cases hc : c = e.connection
      · subst hc
        simp
      · simp [hc, Ne.symm hc]
    simp only [hcons, Finset.sum_add_distrib, Finset.sum_ite_eq']
    rw [if_pos (hs e List.mem_cons_self), ← ih fun f hf => hs f (List.mem_cons_of_mem e hf), List.length_cons]

/-- Connections that share a registry are answered each by itself. On a clock that goes on, whatever any number of
connections ask in whatever order, what one of them is told is what a ledger of its own requests tells it, and so it is
told the same when the requests of all others are left out. What is listed for it is this ledger: different paths by
moment and then by path. And the registry has as many watches as all ledgers together. -/
theorem each_connection_by_itself (history : List Request) (hclock : history.Pairwise fun a b => a.moment < b.moment) :
    (∀ c,
      toldTo c (Registry.empty.serve history) = Ledger.serve c [] (askedBy c history) ∧
      toldTo c (Registry.empty.serve (askedBy c history)) = toldTo c (Registry.empty.serve history) ∧
      (Registry.empty.after history).entriesFor c = (Ledger.after c [] (askedBy c history)).entries c ∧
      (Ledger.after c [] (askedBy c history)).Pairwise Ledger.Precedes) ∧
    (Registry.empty.after history).size =
      ∑ c ∈ (history.map Request.connection).toFinset, (Ledger.after c [] (askedBy c history)).length := by
  have hserve : ∀ c (history : List Request), history.Pairwise (fun a b => a.moment < b.moment) →
      toldTo c (Registry.empty.serve history) = Ledger.serve c [] (askedBy c history) ∧
        Mirrors c (Ledger.after c [] (askedBy c history)) (Registry.empty.after history) ∧
          ∃ later, (Ledger.after c [] (askedBy c history)).Tidy later := fun c history hclock =>
    (Mirrors.empty c).serve (Ledger.Tidy.empty 0) hclock fun _ _ => Nat.zero_le _
  refine ⟨fun c => ?_, ?_⟩
  · obtain ⟨htold, hmirrors, later, htidy⟩ := hserve c history hclock
    obtain ⟨halone, -⟩ := hserve c (askedBy c history) (hclock.sublist List.filter_sublist)
    have hagain : askedBy c (askedBy c history) = askedBy c history := by
      unfold askedBy
      rw [List.filter_filter]
      simp only [Bool.and_self]
    rw [hagain] at halone
    exact ⟨htold, halone.trans htold.symm, hmirrors.entriesFor htidy, htidy.ordered⟩
  · have hknown :
        ∀ e ∈ (Registry.empty.after history).entries, e.connection ∈ (history.map Request.connection).toFinset := by
      intro e he
      by_contra hnever
      obtain ⟨-, hmirrors, -⟩ := hserve e.connection history hclock
      have hnone : askedBy e.connection history = [] := by
        refine List.filter_eq_nil_iff.2 fun q hq hc => hnever ?_
        exact List.mem_toFinset.2 (List.mem_map.2 ⟨q, hq, beq_iff_eq.1 hc⟩)
      rw [hnone] at hmirrors
      obtain ⟨w, hw, -⟩ := hmirrors.mem_entries.1 (Registry.mem_own.2 ⟨he, rfl⟩)
      contradiction
    refine (length_eq_sum hknown).trans (Finset.sum_congr rfl fun c _ => ?_)
    obtain ⟨-, hmirrors, -⟩ := hserve c history hclock
    exact (List.Perm.length_eq hmirrors).trans (List.length_map _)

/-- Two connections, of which one is given a new set of watches: `/a` stays, under its new spelling, `/b` goes and `/c`
comes. The other one keeps its `/b`. -/
theorem each_connection_by_itself_of_two :
    let history : List Request := [⟨1, 4, .op (.register ⟨"/b"⟩)⟩, ⟨2, 7, .op (.register ⟨"/b/"⟩)⟩,
      ⟨3, 4, .op (.register ⟨"/a"⟩)⟩, ⟨5, 7, .op (.unregister ⟨"/a"⟩)⟩,
      ⟨8, 4, .op (.replace [⟨"/c"⟩, ⟨"/a/"⟩, ⟨"//c"⟩])⟩, ⟨9, 4, .list⟩]
    toldTo 4 (Registry.empty.serve (askedBy 4 history)) = toldTo 4 (Registry.empty.serve history) ∧
      ((Registry.empty.after history).entriesFor 4).map (fun e => (e.path.text, e.registeredAt)) =
        [("/a/", 3), ("/c", 8)] ∧
      ((Registry.empty.after history).entriesFor 7).map (fun e => (e.path.text, e.registeredAt)) = [("/b/", 2)] ∧
      (Registry.empty.after history).size = 3 := by
  intro history
  have hclock : history.Pairwise fun a b => a.moment < b.moment := by decide
  obtain ⟨heach, hsize⟩ := each_connection_by_itself history hclock
  refine ⟨(heach 4).2.1, ?_, ?_, hsize.trans ?_⟩
  · rw [(heach 4).2.2.1]
    decide +kernel
  · rw [(heach 7).2.2.1]
    decide +kernel
  · decide +kernel

end RemoteFacts.Watch
