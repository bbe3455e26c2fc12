import RemoteFacts.Proofs.Cache.Entries

/-!
# Entries up to order and spelling

* `Alike` : the same entries, in any order and under any spelling of their paths (`Alike.filter`, `Alike.find?`);
* `live` : the entries that have not expired (`find?_live`, `live_get`);
* `write_alike` : writing an entry is dropping that of its path and adding the new one;
* `evictOldest_alike` : if no two are equally old, evicting leaves all but the first of the entries laid oldest first.
-/

namespace RemoteFacts.Cache

variable {α : Type} {c : Cache α} {es fs gs : List (Entry α)} {key : Path} {e f : Entry α} {ttl : Option Nat}
    {now : Nat}

/-- What an entry says, however its path is spelled. -/
def Entry.content (e : Entry α) : List Part × Nat × α := (e.key.parts, e.insertedAt, e.value)

/-- The same entries, each as often, in any order and under any spelling of their paths. -/
def Alike (es fs : List (Entry α)) : Prop := (es.map Entry.content).Perm (fs.map Entry.content)

theorem key_eq_of_content (h : e.content = f.content) : (e.key == key) = (f.key == key) :=
  BEq.congr_left (Path.beq_iff.2 (congrArg Prod.fst h))

namespace Alike

theorem refl (es : List (Entry α)) : Alike es es := List.Perm.refl _

theorem symm (h : Alike es fs) : Alike fs es := List.Perm.symm h

theorem trans (h : Alike es fs) (h' : Alike fs gs) : Alike es gs := List.Perm.trans h h'

theorem of_perm (h : es.Perm fs) : Alike es fs := h.map _

theorem length_eq (h : Alike es fs) : es.length = fs.length := by
  simpa using List.Perm.length_eq h

theorem append {es' fs' : List (Entry α)} (h : Alike es fs) (h' : Alike es' fs') : Alike (es ++ es') (fs ++ fs') := by
  unfold Alike
  rw [List.map_append, List.map_append]
  exact List.Perm.append h h'

theorem append_singleton (h : Alike es fs) (e : Entry α) : Alike (es ++ [e]) (fs ++ [e]) := h.append (refl [e])

/-- What is kept by what the entries say is alike. -/
theorem filter {p : Entry α → Bool} (h : Alike es fs) (hp : p.FactorsThrough Entry.content) :
    Alike (es.filter p) (fs.filter p) := by
  have hfactor : p = (Function.extend Entry.content p fun _ => false) ∘ Entry.content := by
    funext e
    exact (hp.extend_apply _ e).symm
  unfold Alike
  rw [hfactor, ← List.filter_map, ← List.filter_map]
  exact List.Perm.filter _ h

theorem without (h : Alike es fs) (key : Path) : Alike (without key es) (without key fs) :=
  h.filter fun _ _ hsame => congrArg Bool.not (key_eq_of_content hsame)

theorem exists_of_mem (h : Alike es fs) (he : e ∈ es) : ∃ f ∈ fs, f.content = e.content :=
  List.mem_map.1 ((List.Perm.mem_iff h).1 (List.mem_map_of_mem he))

theorem keysDistinct (h : Alike es fs) (hdistinct : KeysDistinct es) : KeysDistinct fs := by
  have hparts : ∀ es : List (Entry α), es.map (fun e => e.key.parts) = (es.map Entry.content).map Prod.fst := by
    simp [Entry.content]
  unfold KeysDistinct at hdistinct ⊢
  rw [hparts] at hdistinct ⊢
  exact (List.Perm.nodup_iff (h.map Prod.fst)).1 hdistinct

/-- In alike entries the same is found. -/
theorem find? (h : Alike es fs) (hdistinct : KeysDistinct es) (key : Path) :
    (es.find? (·.key == key)).map Entry.content = (fs.find? (·.key == key)).map Entry.content := by
  cases hfound : es.find? (·.key == key) with
  | some e =>
    obtain ⟨he, hk⟩ := hdistinct.find?_iff.1 hfound
    obtain ⟨f, hf, hsame⟩ := h.exists_of_mem he
    rw [(h.keysDistinct hdistinct).find?_iff.2 ⟨hf, key_eq_of_content hsame ▸ hk⟩, Option.map_some, Option.map_some,
      hsame]
  | none =>
    have hnone : fs.find? (·.key == key) = none := by
      rw [List.find?_eq_none] at hfound ⊢
      intro f hf hk
      obtain ⟨e, he, hsame⟩ := h.symm.exists_of_mem hf
      exact hfound e he (key_eq_of_content hsame ▸ hk)
    rw [hnone]

end Alike

/-! ## What has not expired -/

/-- The entries that have not expired. -/
def live (ttl : Option Nat) (now : Nat) (es : List (Entry α)) : List (Entry α) :=
  es.filter fun e => !e.isExpired ttl now

theorem mem_live : e ∈ live ttl now es ↔ e ∈ es ∧ e.isExpired ttl now = false := by
  simp [live]

theorem live_sublist : (live ttl now es).Sublist es := List.filter_sublist

theorem isExpired_mono {past : Nat} (hle : past ≤ now) (h : e.isExpired ttl past = true) :
    e.isExpired ttl now = true := by
  unfold Entry.isExpired at h ⊢
  cases ttl with
  | none => exact h
  | some limit =>
    simp only [decide_eq_true_eq] at h ⊢
    omega

/-- What has not expired by now had not expired before. -/
theorem live_live {past : Nat} (hle : past ≤ now) (es : List (Entry α)) :
    live ttl now (live ttl past es) = live ttl now es := by
  unfold live
  rw [List.filter_filter]
  refine List.filter_congr fun e _ => ?_
  cases hpast : e.isExpired ttl past with
  | false => simp
  | true => simp [isExpired_mono hle hpast]

theorem live_append (es fs : List (Entry α)) : live ttl now (es ++ fs) = live ttl now es ++ live ttl now fs :=
  List.filter_append _ _

theorem live_without (key : Path) (es : List (Entry α)) :
    live ttl now (without key es) = without key (live ttl now es) := by
  unfold live without
  rw [List.filter_filter, List.filter_filter]
  exact List.filter_congr fun e _ => Bool.and_comm _ _

theorem Alike.live (h : Alike es fs) (ttl : Option Nat) (now : Nat) : Alike (live ttl now es) (live ttl now fs) := by
  refine h.filter fun e f hsame => ?_
  have hthen : e.insertedAt = f.insertedAt := congrArg (·.2.1) hsame
  simp only [Entry.isExpired, hthen]

/-- Among the entries that have not expired, a path has the one it has unless that one has expired. -/
theorem find?_live (hdistinct : KeysDistinct es) : (live ttl now es).find? (·.key == key) =
    (es.find? (·.key == key)).filter fun e => !e.isExpired ttl now := by
  cases hfound : es.find? (·.key == key) with
  | none =>
    rw [List.find?_eq_none] at hfound
    rw [Option.filter_none, List.find?_eq_none]
    exact fun e he => hfound e (live_sublist.subset he)
  | some e =>
    obtain ⟨he, hk⟩ := hdistinct.find?_iff.1 hfound
    rw [Option.filter_some]
    split
    · next hlive =>
      refine (hdistinct.sublist live_sublist).find?_iff.2 ⟨mem_live.2 ⟨he, ?_⟩, hk⟩
      simpa using hlive
    · next hexpired =>
      rw [List.find?_eq_none]
      intro f hf hfk
      obtain ⟨hf, hlive⟩ := mem_live.1 hf
      obtain rfl := hdistinct.eq_of_beq hf he (BEq.trans hfk (BEq.symm hk))
      exact hexpired (by simp [hlive])

/-- Looking up drops no entry that has not expired. -/
theorem live_get (hdistinct : KeysDistinct c.entries) :
    live c.ttl now (c.get key now).2.entries = live c.ttl now c.entries := by
  unfold get
  split
  · rfl
  · next e hfound =>
    split
    · next hexpired =>
      have hnone : (live c.ttl now c.entries).find? (·.key == key) = none := by
        rw [find?_live hdistinct, show c.entries.find? (·.key == key) = some e from hfound]
        simp [hexpired]
      rw [List.find?_eq_none] at hnone
      rw [live_without]
      exact List.filter_eq_self.2 fun f hf => by simpa using hnone f hf
    · rfl

/-! ## Writing -/

theorem write_cons_of_ne {new : Entry α} (h : (e.key == new.key) = false) :
    write new (e :: es) = e :: write new es := by
  unfold write
  rw [List.any_cons, h, Bool.false_or]
  split
  · simp [h]
  · rfl

theorem write_cons_of_beq {new : Entry α} (h : (e.key == new.key) = true) (hdistinct : KeysDistinct (e :: es)) :
    write new (e :: es) = { new with key := e.key } :: es ∧ without new.key es = es := by
  have hothers : ∀ f ∈ es, (f.key == new.key) = false := by
    intro f hf
    by_contra hk
    rw [Bool.not_eq_false] at hk
    have hsame := Path.beq_iff.1 (BEq.trans hk (BEq.symm h))
    exact (List.nodup_cons.1 hdistinct).1 (List.mem_map.2 ⟨f, hf, hsame⟩)
  constructor
  · unfold write
    rw [List.any_cons, h, Bool.true_or, if_pos rfl, List.map_cons, if_pos h]
    congr 1
    exact (List.map_congr_left fun f hf => by simp [hothers f hf]).trans (List.map_id' es)
  · exact List.filter_eq_self.2 fun f hf => by simp [hothers f hf]

/-- To write an entry is to drop that of its path and to add the new one. -/
theorem write_alike (hdistinct : KeysDistinct es) (new : Entry α) :
    Alike (write new es) (without new.key es ++ [new]) := by
  induction es with
  | nil => exact Alike.refl _
  | cons e es ih =>
    by_cases hk : (e.key == new.key) = true
    · obtain ⟨hwrite, hothers⟩ := write_cons_of_beq hk hdistinct
      have hgone : without new.key (e :: es) = es := by
        rw [← hothers]
        simp [without, hk]
      have hcontent : Entry.content { new with key := e.key } = new.content := by
        simp [Entry.content, Path.beq_iff.1 hk]
      unfold Alike
      rw [hwrite, hgone, List.map_cons, hcontent, List.map_append]
      exact (List.perm_append_singleton _ _).symm
    · rw [Bool.not_eq_true] at hk
      have hkept : without new.key (e :: es) = e :: without new.key es := by simp [without, hk]
      rw [write_cons_of_ne hk, hkept]
      exact List.Perm.cons _ (ih (List.nodup_cons.1 hdistinct).2)

/-! ## Evicting -/

theorem byAge_perm : c.byAge.Perm c.entries := List.mergeSort_perm _ _

theorem byAge_pairwise : c.byAge.Pairwise fun a b => a.insertedAt ≤ b.insertedAt := by
  have hsorted : c.byAge.Pairwise fun a b => decide (a.insertedAt ≤ b.insertedAt) = true := by
    refine List.pairwise_mergeSort (fun a b d hab hbd => ?_) (fun a b => ?_) _
    · simp only [decide_eq_true_eq] at hab hbd ⊢
      exact Nat.le_trans hab hbd
    · simp only [Bool.or_eq_true, decide_eq_true_eq]
      exact Nat.le_total _ _
  simpa using hsorted

theorem evictOldest_perm (hdistinct : KeysDistinct c.entries) (n : Nat) :
    (c.evictOldest n).entries.Perm (c.byAge.drop n) := by
  have hsorted := hdistinct.perm byAge_perm
  rw [← List.take_append_drop n c.byAge] at hsorted
  unfold KeysDistinct at hsorted
  rw [List.map_append, List.nodup_append] at hsorted
  obtain ⟨-, -, hapart⟩ := hsorted
  have hfilter : c.byAge.filter (fun e => !(c.byAge.take n).any (·.key == e.key)) = c.byAge.drop n := by
    have hgone : (c.byAge.take n).filter (fun e => !(c.byAge.take n).any (·.key == e.key)) = [] := by
      refine List.filter_eq_nil_iff.2 fun e he => ?_
      have hvictim : (c.byAge.take n).any (·.key == e.key) = true := List.any_eq_true.2 ⟨e, he, BEq.rfl⟩
      simp [hvictim]
    have hkept : (c.byAge.drop n).filter (fun e => !(c.byAge.take n).any (·.key == e.key)) = c.byAge.drop n := by
      refine List.filter_eq_self.2 fun e he => ?_
      rw [Bool.not_eq_true', List.any_eq_false]
      intro f hf hk
      exact hapart _ (List.mem_map_of_mem hf) _ (List.mem_map_of_mem he) (Path.beq_iff.1 hk)
    have hsplit := List.filter_append (p := fun e => !(c.byAge.take n).any (·.key == e.key)) (c.byAge.take n)
      (c.byAge.drop n)
    rwa [List.take_append_drop, hgone, hkept, List.nil_append] at hsplit
  rw [← hfilter]
  exact (byAge_perm.filter _).symm

/-- If the entries laid oldest first are of different ages, evicting leaves all but the first of them. -/
theorem evictOldest_alike (hdistinct : KeysDistinct c.entries) (h : Alike c.entries fs)
    (hsorted : fs.Pairwise fun a b => a.insertedAt < b.insertedAt) (n : Nat) :
    Alike (c.evictOldest n).entries (fs.drop n) := by
  have hage : c.byAge.map Entry.content = fs.map Entry.content := by
    have hleft : (c.byAge.map Entry.content).Pairwise fun a b => a.2.1 ≤ b.2.1 := List.pairwise_map.2 byAge_pairwise
    have hright : (fs.map Entry.content).Pairwise fun a b => a.2.1 < b.2.1 := List.pairwise_map.2 hsorted
    have hperm : (c.byAge.map Entry.content).Perm (fs.map Entry.content) := (byAge_perm.map _).trans h
    -- two contents of one moment are the same, since the moments grow along `fs`
    have hmoments : ((fs.map Entry.content).map (·.2.1)).Nodup := by
      refine List.Pairwise.imp ?_ (List.pairwise_map.2 hright)
      exact Nat.ne_of_lt
    refine hperm.eq_of_pairwise (fun a b ha hb hab hba => ?_) hleft (hright.imp Nat.le_of_lt)
    exact List.inj_on_of_nodup_map hmoments (hperm.mem_iff.1 ha) hb (Nat.le_antisymm hab hba)
  refine (Alike.of_perm (evictOldest_perm hdistinct n)).trans ?_
  unfold Alike
  rw [List.map_drop, List.map_drop, hage]

end RemoteFacts.Cache
