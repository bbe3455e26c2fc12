import RemoteFacts.Proofs.Change
import RemoteFacts.Watch.Registry

/-!
# Which watches are in a registry

What is in a registry after a change of it, for each of the changes (`mem_register`, `mem_unregister`, `mem_clearFor`,
`mem_replaceFor`); all of them touch one connection only.
-/

namespace RemoteFacts.Watch.Registry

variable {c : ConnectionId} {path : Path} {paths : List Path} {now : Nat} {r : Registry} {e : Entry}

theorem mem_register (he : e ∈ (r.register c path now).2.entries) : e ∈ r.entries ∨ e = ⟨c, path, now⟩ := by
  unfold register at he
  split at he
  · exact Or.inl he
  · exact (List.mem_append.1 he).imp_right List.mem_singleton.1

/-- A path that has been registered is watched. -/
theorem exists_mem_register : ∃ e ∈ (r.register c path now).2.entries, e.connection = c := by
  unfold register
  split
  · next hwatched =>
    obtain ⟨e, he, hfor⟩ := List.any_eq_true.1 hwatched
    unfold isFor at hfor
    exact ⟨e, he, by simpa using (Bool.and_eq_true_iff.1 hfor).1⟩
  · exact ⟨⟨c, path, now⟩, List.mem_append_right _ (List.mem_singleton_self _), rfl⟩

theorem mem_unregister : e ∈ (r.unregister c path).2.entries ↔ e ∈ r.entries ∧ isFor c path e = false := by
  unfold unregister
  rw [List.mem_filter, Bool.not_eq_true']

theorem mem_clearFor : e ∈ (r.clearFor c).2.entries ↔ e ∈ r.entries ∧ e.connection ≠ c := by
  unfold clearFor
  rw [List.mem_filter, Bool.not_eq_true', beq_eq_false_iff_ne]

theorem contains_distinct : (Path.distinct paths).contains path = paths.contains path := by
  rw [Path.distinct, Path.contains_insertAll, List.contains_nil, Bool.false_or]

/-- Of the connection that is replaced are the given paths, and of the others all that there was. -/
theorem mem_replaceFor (he : e ∈ (r.replaceFor c paths now).entries) :
    e ∈ r.entries ∧ e.connection ≠ c ∨ e.connection = c ∧ paths.contains e.path = true := by
  unfold replaceFor at he
  rcases List.mem_append.1 he with he | he
  · exact Or.inl (mem_clearFor.1 he)
  · obtain ⟨path, hpath, rfl⟩ := List.mem_map.1 he
    refine Or.inr ⟨rfl, ?_⟩
    rw [← contains_distinct]
    exact Path.contains_of_mem hpath BEq.rfl

theorem exists_mem_replaceFor (hpath : path ∈ paths) : ∃ e ∈ (r.replaceFor c paths now).entries, e.connection = c := by
  have hheld : (Path.distinct paths).contains path = true := by
    rw [contains_distinct]
    exact Path.contains_of_mem hpath BEq.rfl
  obtain ⟨p, hp, -⟩ := Path.exists_mem_of_contains hheld
  unfold replaceFor
  exact ⟨_, List.mem_append_right _ (List.mem_map_of_mem hp), rfl⟩

end RemoteFacts.Watch.Registry
