import RemoteFacts.Proofs.Cache.Entries
import RemoteFacts.Proofs.Change

/-!
# What the operations of a store do to its facts

* `mem_dropAround` : a change takes exactly the facts that it unsettles;
* `exists_entry_of_exists?`, `exists_entry_of_truename?` : an answer comes from an entry of its path;
* `mem_foldl_recordExists` : after several facts have been kept, an entry is an old one or one of them.
-/

namespace RemoteFacts.FactStore

variable {α : Type} {s : FactStore} {path : Path} {now : Nat}

/-- What is left after a change are the facts that it does not unsettle. -/
theorem mem_dropAround {c : Cache α} {e : Cache.Entry α} :
    e ∈ (dropAround path c).entries ↔ e ∈ c.entries ∧ ¬ path.Unsettles e.key := by
  unfold dropAround Path.Unsettles
  dsimp only
  cases path.parent? with
  | none => simp [Cache.mem_invalidate]
  | some parent => simp [Cache.mem_invalidate, and_assoc]

theorem exists_entry_of_exists? {value : Bool} (h : (s.exists? path now).1 = some value) :
    ∃ e ∈ s.existence.entries, (e.key == path) = true ∧ e.value.value = value := by
  unfold exists? at h
  obtain ⟨fact, hfact, rfl⟩ := Option.map_eq_some_iff.1 h
  obtain ⟨e, he, hkey, rfl⟩ := Cache.mem_of_get hfact
  exact ⟨e, he, hkey, rfl⟩

theorem exists_entry_of_truename? {target : Path} (h : (s.truename? path now).1 = some target) :
    ∃ e ∈ s.truename.entries, (e.key == path) = true ∧ e.value.value = target := by
  unfold truename? at h
  obtain ⟨fact, hfact, rfl⟩ := Option.map_eq_some_iff.1 h
  obtain ⟨e, he, hkey, rfl⟩ := Cache.mem_of_get hfact
  exact ⟨e, he, hkey, rfl⟩

/-- An entry is an old one, or one of the facts of a batch that began at `since`. -/
theorem mem_foldl_recordExists {since : Nat} {facts : List (Path × Bool)} {e : Cache.Entry (Dated Bool)}
    (h : e ∈ (facts.foldl (fun s f => s.recordExists f.1 ⟨since, f.2⟩ now) s).existence.entries) :
    e ∈ s.existence.entries ∨ ∃ f ∈ facts, (e.key == f.1) = true ∧ e.insertedAt = now ∧ e.value = ⟨since, f.2⟩ := by
  induction facts generalizing s with
  | nil => exact Or.inl h
  | cons f facts ih =>
    rw [List.foldl_cons] at h
    rcases ih h with h | ⟨g, hg, hkey⟩
    · rcases Cache.mem_put h with h | hnew
      · exact Or.inl h
      · exact Or.inr ⟨f, List.mem_cons_self, hnew⟩
    · exact Or.inr ⟨g, List.mem_cons_of_mem _ hg, hkey⟩

theorem truename_foldl_recordExists (since : Nat) (facts : List (Path × Bool)) :
    (facts.foldl (fun s f => s.recordExists f.1 ⟨since, f.2⟩ now) s).truename = s.truename := by
  induction facts generalizing s with
  | nil => rfl
  | cons f facts ih => rw [List.foldl_cons, ih]; rfl

end RemoteFacts.FactStore
