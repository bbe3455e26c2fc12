import Mathlib.Data.List.Perm.Subperm
import RemoteFacts.Fact
import RemoteFacts.Proofs.Cache.Entries

/-!
# Caches with room

* `Cache.HasRoomFor` : the cache can take these keys in without dropping anything (`HasRoomFor.put`,
  `HasRoomFor.clear`);
* `find?_put_self`, `find?_put_of_ne` : with room, a new value is under its key and nothing else changes;
* `find?_foldl_recordExists` : so it is when several facts are kept one after another, in any order.
-/

namespace RemoteFacts.Cache

variable {α : Type} {c : Cache α} {key q : Path} {keys : List Path} {now : Nat} {value : α}

/-- The cache can take all these keys in without dropping anything. -/
def HasRoomFor (keys : List Path) (c : Cache α) : Prop :=
  ∀ max, c.maxSize = some max → c.size + (keys.filter fun k => !c.contains k).length ≤ max

theorem contains_eq_isSome_find? : c.contains key = (c.find? key).isSome := by
  rw [Bool.eq_iff_iff, contains, find?, List.find?_isSome, List.any_eq_true]

/-! ## One key -/

/-- A key that there is room for pushes nothing out. -/
theorem makeRoom_of_hasRoomFor (hroom : c.HasRoomFor keys) (hkey : key ∈ keys) (hnew : c.contains key = false) :
    c.makeRoom now = c := by
  have hfree : c.isFull = false := by
    unfold isFull
    split
    · next max hmax =>
      have hle := hroom max hmax
      have hpos : 0 < (keys.filter fun k => !c.contains k).length :=
        List.length_pos_of_mem (List.mem_filter.2 ⟨hkey, by rw [hnew]; rfl⟩)
      simp only [decide_eq_false_iff_not]
      omega
    · rfl
  unfold makeRoom
  rw [if_neg (by rw [hfree]; exact Bool.false_ne_true)]

theorem entries_put (hroom : c.HasRoomFor keys) (hkey : key ∈ keys) :
    (c.put key value now).entries = write ⟨key, now, value⟩ c.entries := by
  unfold put
  cases hnew : c.contains key with
  | true => rfl
  | false =>
    simp only [Bool.false_eq_true, if_false]
    rw [makeRoom_of_hasRoomFor hroom hkey hnew]

theorem find?_map_write {new : Entry α} (es : List (Entry α)) :
    (es.map fun old => if old.key == new.key then { new with key := old.key } else old).find? (·.key == q) =
      (es.find? (·.key == q)).map fun old => if old.key == new.key then { new with key := old.key } else old := by
  rw [List.find?_map]
  congr 2
  funext old
  simp only [Function.comp]
  split <;> rfl

theorem find?_write_self {new : Entry α} {es : List (Entry α)} (hq : (new.key == q) = true) :
    ∃ e, (write new es).find? (·.key == q) = some e ∧ e.insertedAt = new.insertedAt ∧ e.value = new.value := by
  have hsame : ∀ e : Entry α, (e.key == new.key) = (e.key == q) := fun e => BEq.congr_right hq
  unfold write
  split
  · next hold =>
    rw [find?_map_write]
    simp only [hsame] at hold ⊢
    obtain ⟨old, hfind⟩ := Option.isSome_iff_exists.1 (List.find?_isSome.2 (List.any_eq_true.1 hold))
    refine ⟨{ new with key := old.key }, ?_, rfl, rfl⟩
    rw [hfind, Option.map_some, if_pos (List.find?_some hfind)]
  · next hold =>
    have hnone : es.find? (·.key == q) = none := by
      rw [List.find?_eq_none]
      intro e he hkey
      exact hold (List.any_eq_true.2 ⟨e, he, by rw [hsame]; exact hkey⟩)
    refine ⟨new, ?_, rfl, rfl⟩
    rw [List.find?_append, hnone, Option.none_or, List.find?_singleton, if_pos hq]

theorem find?_write_of_ne {new : Entry α} {es : List (Entry α)} (hq : (new.key == q) = false) :
    (write new es).find? (·.key == q) = es.find? (·.key == q) := by
  unfold write
  split
  · rw [find?_map_write]
    cases hfind : es.find? (·.key == q) with
    | none => rfl
    | some old =>
      have hold : (old.key == q) = true := by simpa using List.find?_some hfind
      have hne : (old.key == new.key) = false := by rw [BEq.congr_left hold, BEq.comm, hq]
      rw [Option.map_some, if_neg (by rw [hne]; exact Bool.false_ne_true)]
  · rw [List.find?_append, List.find?_singleton, if_neg (by rw [hq]; exact Bool.false_ne_true), Option.or_none]

/-- The new value is found under every spelling of its key. -/
theorem find?_put_self (hroom : c.HasRoomFor keys) (hkey : key ∈ keys) (hq : (key == q) = true) :
    ∃ e, (c.put key value now).find? q = some e ∧ e.insertedAt = now ∧ e.value = value := by
  unfold find?
  rw [entries_put hroom hkey]
  exact find?_write_self hq

/-- Under other keys nothing changes. -/
theorem find?_put_of_ne (hroom : c.HasRoomFor keys) (hkey : key ∈ keys) (hq : (key == q) = false) :
    (c.put key value now).find? q = c.find? q := by
  unfold find?
  rw [entries_put hroom hkey]
  exact find?_write_of_ne hq

theorem contains_put (hroom : c.HasRoomFor keys) (hkey : key ∈ keys) :
    (c.put key value now).contains q = (c.contains q || key == q) := by
  rw [contains_eq_isSome_find?, contains_eq_isSome_find?]
  cases hq : key == q with
  | true =>
    obtain ⟨e, he, -⟩ := find?_put_self hroom hkey hq
    rw [he, Bool.or_true]
    rfl
  | false => rw [find?_put_of_ne hroom hkey hq, Bool.or_false]

theorem size_put (hroom : c.HasRoomFor keys) (hkey : key ∈ keys) :
    (c.put key value now).size = if c.contains key then c.size else c.size + 1 := by
  unfold size
  rw [entries_put hroom hkey, length_write]
  rfl

theorem maxSize_put : (c.put key value now).maxSize = c.maxSize := by
  show (c.roomFor key now).maxSize = c.maxSize
  exact roomFor_bounds.2

/-- What there was room for beside a key there is room for after it. -/
theorem HasRoomFor.put (hroom : c.HasRoomFor (key :: keys)) : (c.put key value now).HasRoomFor keys := by
  intro max hmax
  rw [maxSize_put] at hmax
  have hle := hroom max hmax
  have hkey : key ∈ key :: keys := List.mem_cons_self
  have hfewer : (keys.filter fun k => !(c.put key value now).contains k).length ≤
      (keys.filter fun k => !c.contains k).length := by
    refine (List.monotone_filter_right _ fun k hk => ?_).length_le
    rw [contains_put hroom hkey] at hk
    simp only [Bool.not_or, Bool.and_eq_true] at hk
    exact hk.1
  rw [size_put hroom hkey]
  rw [List.filter_cons] at hle
  split
  · next hold =>
    rw [hold] at hle
    simp only [Bool.not_true, Bool.false_eq_true, if_false] at hle
    omega
  · next hnew =>
    rw [Bool.not_eq_true] at hnew
    rw [hnew] at hle
    simp only [Bool.not_false, if_true, List.length_cons] at hle
    omega

/-! ## Fewer keys and empty caches -/

theorem HasRoomFor.of_sublist {fewer : List Path} (hroom : c.HasRoomFor keys) (hsub : fewer.Sublist keys) :
    c.HasRoomFor fewer := by
  intro max hmax
  have hle := hroom max hmax
  have hfewer := (hsub.filter fun k => !c.contains k).length_le
  omega

theorem HasRoomFor.perm {others : List Path} (hroom : c.HasRoomFor keys) (hperm : keys.Perm others) :
    c.HasRoomFor others := by
  intro max hmax
  rw [← (hperm.filter _).length_eq]
  exact hroom max hmax

/-- Distinct keys that are in the cache are no more than it holds. -/
theorem length_filter_contains_le (hdistinct : (keys.map Path.parts).Nodup) :
    (keys.filter fun k => c.contains k).length ≤ c.size := by
  have hnodup : ((keys.filter fun k => c.contains k).map Path.parts).Nodup :=
    hdistinct.sublist (List.filter_sublist.map _)
  have hsub : (keys.filter fun k => c.contains k).map Path.parts ⊆ c.entries.map fun e => e.key.parts := by
    intro ps hps
    obtain ⟨k, hk, rfl⟩ := List.mem_map.1 hps
    obtain ⟨e, he, hkey⟩ := List.any_eq_true.1 (List.mem_filter.1 hk).2
    exact List.mem_map.2 ⟨e, he, Path.beq_iff.1 hkey⟩
  have hle := (hnodup.subperm hsub).length_le
  rwa [List.length_map, List.length_map] at hle

/-- A cache that has room for distinct keys has it when it is empty. -/
theorem HasRoomFor.clear (hroom : c.HasRoomFor keys) (hdistinct : (keys.map Path.parts).Nodup) :
    c.clear.HasRoomFor keys := by
  intro max hmax
  have hle := hroom max hmax
  have hheld := length_filter_contains_le (c := c) hdistinct
  have hsplit := List.length_eq_length_filter_add (fun k => c.contains k) (l := keys)
  have hall : (keys.filter fun k => !c.clear.contains k).length ≤ keys.length := List.length_filter_le _ _
  show 0 + _ ≤ max
  omega

end RemoteFacts.Cache

/-! ## Several facts -/

namespace RemoteFacts.FactStore

variable {s : FactStore} {facts : List (Path × Bool)}

/-- Several distinct facts are kept one after another: each is found, and under other paths nothing changes. -/
theorem find?_foldl_recordExists (since now : Nat) (q : Path) (hroom : s.existence.HasRoomFor (facts.map (·.1)))
    (hdistinct : (facts.map (·.1.parts)).Nodup) :
    (∀ f ∈ facts, (f.1 == q) = true →
      ∃ e, (facts.foldl (fun s f => s.recordExists f.1 ⟨since, f.2⟩ now) s).existence.find? q = some e ∧
        e.insertedAt = now ∧ e.value = ⟨since, f.2⟩) ∧
    ((∀ f ∈ facts, (f.1 == q) = false) →
      (facts.foldl (fun s f => s.recordExists f.1 ⟨since, f.2⟩ now) s).existence.find? q = s.existence.find? q) := by
  induction facts generalizing s with
  | nil => exact ⟨nofun, fun _ => rfl⟩
  | cons f facts ih =>
    have hmem : f.1 ∈ (f :: facts).map (·.1) := List.mem_cons_self
    have hrest : (s.recordExists f.1 ⟨since, f.2⟩ now).existence.HasRoomFor (facts.map (·.1)) :=
      Cache.HasRoomFor.put hroom
    obtain ⟨hnew, hdistinct⟩ := List.nodup_cons.1 hdistinct
    obtain ⟨hfound, hother⟩ := ih hrest hdistinct
    rw [List.foldl_cons]
    refine ⟨fun g hg hq => ?_, fun hnone => ?_⟩
    · rcases List.mem_cons.1 hg with rfl | hg
      -- no later fact is about the same path, so none writes over this one
      · have hlater : ∀ f ∈ facts, (f.1 == q) = false := by
          intro f hf
          by_contra hsame
          rw [Bool.not_eq_false] at hsame
          exact hnew (List.mem_map.2 ⟨f, hf, (Path.beq_iff.1 hsame).trans (Path.beq_iff.1 hq).symm⟩)
        rw [hother hlater]
        exact Cache.find?_put_self hroom hmem hq
      · exact hfound g hg hq
    · rw [hother fun g hg => hnone g (List.mem_cons_of_mem _ hg)]
      exact Cache.find?_put_of_ne hroom hmem (hnone f List.mem_cons_self)

end RemoteFacts.FactStore
