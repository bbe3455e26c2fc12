import RemoteFacts.Path.Lemmas
import RemoteFacts.Session.Flight

/-!
# What a reported change bears on

* `Rpc.Notification.Names` : a notification reports an absolute path as changed
  (`exists_mem_changedPaths`, `names_of_mem_changedPaths` : `changedPaths` lists these paths, each once);
* `Path.Unsettles` : the facts about which paths a change may falsify, namely the path and its parent
  (`Unsettles.congr` : the spelling does not matter);
* `touches_iff`, `touches_of_unsettles`, `isAffectedBy_iff` : what a scope has dropped is compared by parts, too.
-/

namespace RemoteFacts

namespace Path

/-! ## Lists in which each path stands once -/

theorem contains_insertAll (seen ps : List Path) (q : Path) :
    (insertAll seen ps).contains q = (seen.contains q || ps.contains q) := by
  induction ps generalizing seen with
  | nil => simp [insertAll]
  | cons p ps ih =>
    rw [insertAll, List.foldl_cons, ← insertAll, ih, List.contains_cons]
    split
    · next h =>
      cases hq : q == p
      · simp
      · have hseen : seen.contains q = true := by rw [List.contains_congr hq]; exact h
        simp [hseen]
    · simp [Bool.or_assoc]

theorem mem_insertAll {seen ps : List Path} {q : Path} (h : q ∈ insertAll seen ps) : q ∈ seen ∨ q ∈ ps := by
  induction ps generalizing seen with
  | nil => exact Or.inl h
  | cons p ps ih =>
    rw [insertAll, List.foldl_cons, ← insertAll] at h
    rcases ih h with h | h
    · split at h
      · exact Or.inl h
      · rcases List.mem_append.1 h with h | h
        · exact Or.inl h
        · exact Or.inr (List.mem_cons.2 (Or.inl (List.mem_singleton.1 h)))
    · exact Or.inr (List.mem_cons_of_mem _ h)

theorem contains_iff_mem_parts {ps : List Path} {q : Path} : ps.contains q = true ↔ q.parts ∈ ps.map Path.parts := by
  rw [List.contains_iff_exists_mem_beq, List.mem_map]
  constructor
  · rintro ⟨p, hp, he⟩
    exact ⟨p, hp, (beq_iff.1 he).symm⟩
  · rintro ⟨p, hp, he⟩
    exact ⟨p, hp, beq_iff.2 he.symm⟩

theorem nodup_insertAll {seen ps : List Path} (h : (seen.map Path.parts).Nodup) :
    ((insertAll seen ps).map Path.parts).Nodup := by
  induction ps generalizing seen with
  | nil => exact h
  | cons p ps ih =>
    rw [insertAll, List.foldl_cons, ← insertAll]
    apply ih
    split
    · exact h
    · next hnew =>
      rw [List.map_append, List.nodup_append]
      refine ⟨h, by simp, ?_⟩
      intro a ha b hb hab
      simp only [List.map_cons, List.map_nil, List.mem_singleton] at hb
      exact hnew (contains_iff_mem_parts.2 (hb ▸ hab ▸ ha))

theorem nodup_distinct (ps : List Path) : ((distinct ps).map Path.parts).Nodup := nodup_insertAll List.nodup_nil

theorem exists_mem_of_contains {ps : List Path} {q : Path} (h : ps.contains q = true) :
    ∃ p ∈ ps, (p == q) = true := by
  obtain ⟨p, hp, he⟩ := List.contains_iff_exists_mem_beq.1 h
  exact ⟨p, hp, BEq.symm he⟩

theorem contains_of_mem {ps : List Path} {p q : Path} (h : p ∈ ps) (he : (p == q) = true) :
    ps.contains q = true :=
  List.contains_iff_exists_mem_beq.2 ⟨p, h, BEq.symm he⟩

theorem contains_sort_latest (ps : List Path) (q : Path) : (sort (latest ps)).contains q = ps.contains q := by
  rw [Bool.eq_iff_iff, List.contains_iff_exists_mem_beq, List.contains_iff_exists_mem_beq]
  simp only [sort, List.mem_mergeSort, latest, List.mem_reverse]
  rw [← List.contains_iff_exists_mem_beq, distinct, contains_insertAll]
  simp [List.contains_iff_exists_mem_beq]

theorem mem_of_mem_sort_latest {ps : List Path} {q : Path} (h : q ∈ sort (latest ps)) : q ∈ ps := by
  simp only [sort, List.mem_mergeSort, latest, List.mem_reverse] at h
  simpa using mem_insertAll h

/-! ## Parents -/

/-- The parents of one path in two spellings are one path. -/
theorem exists_parent?_congr {p q r : Path} (h : (p == q) = true) (hr : p.parent? = some r) :
    ∃ s, q.parent? = some s ∧ (r == s) = true := by
  cases hs : q.parent? with
  | none =>
    have hnone : p.parent? = none := by rwa [parent?_eq_none_iff, beq_iff.1 h, ← parent?_eq_none_iff]
    rw [hnone] at hr
    contradiction
  | some s =>
    refine ⟨s, rfl, beq_iff.2 ?_⟩
    rw [parts_of_parent? hr, parts_of_parent? hs, beq_iff.1 h]

/-- A change of `p` may falsify the facts about `q`: it is the path itself or the directory that holds it. -/
def Unsettles (p q : Path) : Prop := (q == p) = true ∨ ∃ r, p.parent? = some r ∧ (q == r) = true

theorem Unsettles.congr {p p' q q' : Path} (h : p.Unsettles q) (hp : (p == p') = true) (hq : (q == q') = true) :
    p'.Unsettles q' := by
  rcases h with h | ⟨r, hr, h⟩
  · exact Or.inl (BEq.trans (BEq.symm hq) (BEq.trans h hp))
  · obtain ⟨s, hs, he⟩ := exists_parent?_congr hp hr
    exact Or.inr ⟨s, hs, BEq.trans (BEq.symm hq) (BEq.trans h he)⟩

end Path

/-! ## What a notification names -/

namespace Rpc.Notification

/-- `n` reports the absolute path `p` as changed. -/
def Names (n : Notification) (p : Path) : Prop :=
  n.method = changes ∧ p.isAbsolute = true ∧ ∃ ps, paths? n.params = some ps ∧ p ∈ ps

theorem exists_mem_changedPaths {n : Notification} {p : Path} (h : n.Names p) :
    ∃ r ∈ n.changedPaths, (r == p) = true := by
  obtain ⟨hm, habs, ps, hps, hp⟩ := h
  apply Path.exists_mem_of_contains
  rw [changedPaths, if_pos (beq_iff_eq.2 hm), hps, Option.getD_some, Path.contains_sort_latest]
  exact Path.contains_of_mem (List.mem_filter.2 ⟨hp, habs⟩) BEq.rfl

theorem names_of_mem_changedPaths {n : Notification} {p : Path} (h : p ∈ n.changedPaths) : n.Names p := by
  rw [changedPaths] at h
  split at h
  · next hm =>
    have hp := Path.mem_of_mem_sort_latest h
    cases hps : paths? n.params with
    | none => simp [hps] at hp
    | some ps =>
      rw [hps, Option.getD_some, List.mem_filter] at hp
      exact ⟨beq_iff_eq.1 hm, hp.2, ps, hps, hp.1⟩
  · contradiction

end Rpc.Notification

/-! ## What a dropped change makes worthless -/

/-- A change touches a path, the path that it is in, and the paths that lie in it. -/
theorem Session.touches_iff {p q : Path} :
    Session.touches p q = true ↔ p.parts = q.parts ∨ p.ParentOf q ∨ q.ParentOf p := by
  have hchild : p.parent?.any (· == q) = p.parent?.any (q == ·) :=
    congrArg (p.parent?.any ·) (funext fun _ => BEq.comm)
  unfold Session.touches
  rw [hchild, Bool.or_eq_true, Bool.or_eq_true, Path.beq_iff, Path.any_parent?_iff, Path.any_parent?_iff, or_assoc]

theorem Session.touches_of_unsettles {p q r : Path} (h : p.Unsettles q) (hr : (r == p) = true) :
    Session.touches r q = true := by
  rw [Session.touches_iff]
  rcases h.congr (BEq.symm hr) BEq.rfl with h | ⟨s, hs, h⟩
  · exact Or.inl (Path.beq_iff.1 h).symm
  · exact Or.inr (Or.inr (Path.any_parent?_iff.1 ((Option.any_eq_true _ _).2 ⟨s, hs, h⟩)))

theorem Session.touches_congr {p q r : Path} (h : (p == q) = true) : Session.touches p r = Session.touches q r := by
  rw [Bool.eq_iff_iff, Session.touches_iff, Session.touches_iff]
  unfold Path.ParentOf
  rw [Path.beq_iff.1 h]

theorem Path.fileName?_congr {p q : Path} (h : (p == q) = true) : p.fileName? = q.fileName? := by
  rw [fileName?, fileName?, beq_iff.1 h]

theorem AncestorScan.isAffectedBy_congr {scan : AncestorScan} {p q : Path} (h : (p == q) = true) :
    scan.isAffectedBy p = scan.isAffectedBy q := by
  rw [isAffectedBy, isAffectedBy, Path.fileName?_congr h]

/-- A change of a path that is named like a marker of the scan. -/
theorem AncestorScan.isAffectedBy_iff {scan : AncestorScan} {p : Path} :
    scan.isAffectedBy p = true ↔ ∃ m, p.fileName? = some m ∧ m ∈ scan.markers.map (·.1) := by
  rw [isAffectedBy]
  cases p.fileName? with
  | none => simp
  | some m => simp [List.any_eq_true]

end RemoteFacts
