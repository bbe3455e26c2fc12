import Mathlib.Data.List.Nodup
import RemoteFacts.Cache.Bounded

/-!
# What the operations of a cache do to its entries

* `mem_of_get`, `get_sublist` : a value comes from an entry, and looking up adds none;
* `roomFor`, `roomFor_sublist`, `old_or_new_of_mem_put`, `mem_put` : after `put` an entry is an old one of another key
  or the new one;
* `entries_invalidate`, `mem_invalidate` : which entries are left;
* `makeRoom_bounds`, `get_bounds`, … : no operation changes the bounds;
* `KeysDistinct` : no two entries are of one path (`KeysDistinct.find?_eq_some_iff`, `get_of_mem` : so that looking up
  finds the only one).
-/

namespace RemoteFacts.Cache

variable {α : Type} {c : Cache α} {key : Path} {now : Nat} {value : α} {e : Entry α}

theorem mem_without {es : List (Entry α)} : e ∈ without key es ↔ e ∈ es ∧ (e.key == key) = false := by
  simp [without]

/-! ## Looking up -/

theorem mem_of_find? (h : c.find? key = some e) : e ∈ c.entries ∧ (e.key == key) = true := by
  unfold find? at h
  have hkey := List.find?_some h
  exact ⟨List.mem_of_find?_eq_some h, hkey⟩

/-- A value that is served comes from an entry of its path. -/
theorem mem_of_get (h : (c.get key now).1 = some value) :
    ∃ e ∈ c.entries, (e.key == key) = true ∧ e.value = value := by
  unfold get at h
  split at h
  · contradiction
  · next e he =>
    split at h
    · contradiction
    · obtain ⟨hmem, hkey⟩ := mem_of_find? he
      exact ⟨e, hmem, hkey, Option.some.inj h⟩

theorem get_sublist : (c.get key now).2.entries.Sublist c.entries := by
  unfold get
  split
  · exact List.Sublist.refl _
  · split
    · exact List.filter_sublist
    · exact List.Sublist.refl _

theorem mem_of_mem_get (h : e ∈ (c.get key now).2.entries) : e ∈ c.entries := get_sublist.subset h

/-! ## Inserting -/

theorem makeRoom_sublist : (c.makeRoom now).entries.Sublist c.entries := by
  unfold makeRoom
  split
  · dsimp only
    split
    · exact List.filter_sublist.trans List.filter_sublist
    · exact List.filter_sublist
  · exact List.Sublist.refl _

/-- The cache when it has made room for a path, as far as that is called for. -/
def roomFor (key : Path) (now : Nat) (c : Cache α) : Cache α := if c.contains key then c else c.makeRoom now

theorem roomFor_sublist : (c.roomFor key now).entries.Sublist c.entries := by
  unfold roomFor
  split
  · exact List.Sublist.refl _
  · exact makeRoom_sublist

theorem entries_put_eq : (c.put key value now).entries = write ⟨key, now, value⟩ (c.roomFor key now).entries := rfl

theorem mem_write {new : Entry α} {es : List (Entry α)} (h : e ∈ write new es) :
    e ∈ es ∧ (e.key == new.key) = false ∨
      (e.key == new.key) = true ∧ e.insertedAt = new.insertedAt ∧ e.value = new.value := by
  unfold write at h
  split at h
  · obtain ⟨old, hold, rfl⟩ := List.mem_map.1 h
    split
    · next hk => exact Or.inr ⟨hk, rfl, rfl⟩
    · next hk => exact Or.inl ⟨hold, Bool.eq_false_iff.2 hk⟩
  · next hnew =>
    rcases List.mem_append.1 h with h | h
    · exact Or.inl ⟨h, Bool.eq_false_iff.2 fun hk => hnew (List.any_eq_true.2 ⟨e, h, hk⟩)⟩
    · rw [List.mem_singleton.1 h]
      exact Or.inr ⟨BEq.rfl, rfl, rfl⟩

theorem mem_write_of_ne {new : Entry α} {es : List (Entry α)} (h : e ∈ es) (hk : (e.key == new.key) = false) :
    e ∈ write new es := by
  unfold write
  split
  · exact List.mem_map.2 ⟨e, h, by simp [hk]⟩
  · exact List.mem_append_left _ h

theorem exists_mem_write (new : Entry α) (es : List (Entry α)) : ∃ e ∈ write new es,
    (e.key == new.key) = true ∧ e.insertedAt = new.insertedAt ∧ e.value = new.value := by
  unfold write
  split
  · next hold =>
    obtain ⟨old, hmem, hk⟩ := List.any_eq_true.1 hold
    exact ⟨{ new with key := old.key }, List.mem_map.2 ⟨old, hmem, by simp [hk]⟩, hk, rfl, rfl⟩
  · exact ⟨new, List.mem_append_right _ (List.mem_singleton_self new), BEq.rfl, rfl, rfl⟩

theorem length_write (new : Entry α) (es : List (Entry α)) :
    (write new es).length = if es.any (·.key == new.key) then es.length else es.length + 1 := by
  unfold write
  split
  · rw [List.length_map]
  · rw [List.length_append, List.length_singleton]

/-- After `put` an entry is an old one of another path, for which there was room, or the new one under an equal key. -/
theorem old_or_new_of_mem_put (h : e ∈ (c.put key value now).entries) :
    e ∈ (c.roomFor key now).entries ∧ (e.key == key) = false ∨
      (e.key == key) = true ∧ e.insertedAt = now ∧ e.value = value := mem_write h

/-- After `put` an entry is an old one, or the new one under an equal key. -/
theorem mem_put (h : e ∈ (c.put key value now).entries) :
    e ∈ c.entries ∨ (e.key == key) = true ∧ e.insertedAt = now ∧ e.value = value :=
  (old_or_new_of_mem_put h).imp_left fun hold => roomFor_sublist.subset hold.1

/-! ## Dropping -/

theorem entries_invalidate : (c.invalidate key).2.entries = without key c.entries := by
  unfold invalidate
  split
  · rfl
  · next h =>
    refine (List.filter_eq_self.2 fun e he => ?_).symm
    simpa using fun hk => h (List.any_eq_true.2 ⟨e, he, hk⟩)

theorem mem_invalidate : e ∈ (c.invalidate key).2.entries ↔ e ∈ c.entries ∧ (e.key == key) = false := by
  rw [entries_invalidate, mem_without]

theorem invalidate_sublist : (c.invalidate key).2.entries.Sublist c.entries := by
  rw [entries_invalidate]
  exact List.filter_sublist

/-! ## Bounds -/

theorem makeRoom_bounds : (c.makeRoom now).ttl = c.ttl ∧ (c.makeRoom now).maxSize = c.maxSize := by
  unfold makeRoom
  dsimp only
  split
  · split
    · exact ⟨rfl, rfl⟩
    · exact ⟨rfl, rfl⟩
  · exact ⟨rfl, rfl⟩

theorem roomFor_bounds : (c.roomFor key now).ttl = c.ttl ∧ (c.roomFor key now).maxSize = c.maxSize := by
  unfold roomFor
  split
  · exact ⟨rfl, rfl⟩
  · exact makeRoom_bounds

theorem get_bounds : (c.get key now).2.ttl = c.ttl ∧ (c.get key now).2.maxSize = c.maxSize := by
  unfold get
  split
  · exact ⟨rfl, rfl⟩
  · split
    · exact ⟨rfl, rfl⟩
    · exact ⟨rfl, rfl⟩

theorem invalidate_bounds : (c.invalidate key).2.ttl = c.ttl ∧ (c.invalidate key).2.maxSize = c.maxSize := by
  unfold invalidate
  split
  · exact ⟨rfl, rfl⟩
  · exact ⟨rfl, rfl⟩

/-! ## One entry a path -/

/-- No two entries are of one path. -/
def KeysDistinct (es : List (Entry α)) : Prop := (es.map fun e => e.key.parts).Nodup

namespace KeysDistinct

variable {es : List (Entry α)} {f : Entry α}

theorem sublist {fewer : List (Entry α)} (h : KeysDistinct es) (hsub : fewer.Sublist es) : KeysDistinct fewer :=
  List.Nodup.sublist (hsub.map _) h

theorem perm {others : List (Entry α)} (h : KeysDistinct es) (hperm : others.Perm es) : KeysDistinct others :=
  (hperm.map _).nodup_iff.2 h

theorem eq_of_beq (h : KeysDistinct es) (he : e ∈ es) (hf : f ∈ es) (hk : (e.key == f.key) = true) : e = f :=
  List.inj_on_of_nodup_map h he hf (Path.beq_iff.1 hk)

theorem write (h : KeysDistinct es) (new : Entry α) : KeysDistinct (write new es) := by
  unfold Cache.write
  split
  · have hkeys : (es.map fun old => if old.key == new.key then { new with key := old.key } else old).map
        (fun e => e.key.parts) = es.map fun e => e.key.parts := by
      rw [List.map_map]
      refine List.map_congr_left fun old _ => ?_
      simp only [Function.comp]
      split
      · rfl
      · rfl
    unfold KeysDistinct
    rw [hkeys]
    exact h
  · next hnew =>
    unfold KeysDistinct
    rw [List.map_append, List.nodup_append]
    refine ⟨h, by simp, fun parts hparts other hother hsame => ?_⟩
    obtain ⟨old, hold, rfl⟩ := List.mem_map.1 hparts
    simp only [List.map_cons, List.map_nil, List.mem_singleton] at hother
    exact hnew (List.any_eq_true.2 ⟨old, hold, Path.beq_iff.2 (hsame.trans hother)⟩)

/-- Looking up finds the only entry of a path. -/
theorem find?_iff (h : KeysDistinct es) : es.find? (·.key == key) = some e ↔ e ∈ es ∧ (e.key == key) = true := by
  refine ⟨fun hfound => ⟨List.mem_of_find?_eq_some hfound, by simpa using List.find?_some hfound⟩, fun ⟨he, hk⟩ => ?_⟩
  cases hfound : es.find? (·.key == key) with
  | none => exact absurd hk (by simpa using List.find?_eq_none.1 hfound e he)
  | some f =>
    have hfk : (f.key == key) = true := by simpa using List.find?_some hfound
    rw [h.eq_of_beq (List.mem_of_find?_eq_some hfound) he (BEq.trans hfk (BEq.symm hk))]

/-- The entry of a path is the only one. -/
theorem filter_eq_singleton (h : KeysDistinct es) (he : e ∈ es) (hk : (e.key == key) = true) :
    es.filter (·.key == key) = [e] := by
  refine List.perm_singleton.1 ((List.perm_ext_iff_of_nodup ?_ (List.nodup_singleton e)).2 fun f => ?_)
  · exact (List.Nodup.of_map _ h).filter _
  · rw [List.mem_filter, List.mem_singleton]
    constructor
    · rintro ⟨hf, hfk⟩
      exact h.eq_of_beq hf he (BEq.trans hfk (BEq.symm hk))
    · rintro rfl
      exact ⟨he, hk⟩

theorem find?_eq_some_iff (h : KeysDistinct c.entries) : c.find? key = some e ↔ e ∈ c.entries ∧ (e.key == key) = true :=
  h.find?_iff

theorem get_of_mem (h : KeysDistinct c.entries) (he : e ∈ c.entries) (hk : (e.key == key) = true) :
    (c.get key now).1 = if e.isExpired c.ttl now then none else some e.value := by
  unfold get
  rw [h.find?_eq_some_iff.2 ⟨he, hk⟩]
  dsimp only
  split
  · rfl
  · rfl

end KeysDistinct

end RemoteFacts.Cache
