import RemoteFacts.Proofs.Spelling.Paths

/-!
# Facts under other spellings

* `Cache.Entry.meaning`, `Cache.Same` : what an entry says, and two caches that say the same in the same order
  (`Cache.Same.get`, `Cache.Same.put`, `Cache.Same.invalidate`, `Cache.Same.clear`);
* `FactStore.Same` : two stores that say the same, with the same figures (`FactStore.Same.exists?`,
  `FactStore.Same.truename?`, `FactStore.Same.invalidatePath`, …).
-/

namespace RemoteFacts

/-! ## Caches -/

namespace Cache

variable {α γ : Type} {sense : α → γ} {c d : Cache α} {es fs : List (Entry α)} {e f : Entry α} {key key' : Path}
  {value value' : α} {ttl : Option Nat} {now n : Nat}

/-- What an entry says, when `sense` is what its value says. -/
def Entry.meaning (sense : α → γ) (e : Entry α) : List Part × Nat × γ := (e.key.parts, e.insertedAt, sense e.value)

/-- The same entries in the same order, under any spelling of their paths, with the same bounds and the same figures. -/
structure Same (sense : α → γ) (c d : Cache α) : Prop where
  entries : c.entries.map (Entry.meaning sense) = d.entries.map (Entry.meaning sense)
  ttl : c.ttl = d.ttl
  maxSize : c.maxSize = d.maxSize
  stats : c.stats = d.stats

theorem key_beq_of_meaning (h : e.meaning sense = f.meaning sense) (hkey : key.parts = key'.parts) :
    (e.key == key) = (f.key == key') :=
  Path.beq_congr (congrArg Prod.fst h) hkey

theorem isExpired_of_meaning (h : e.meaning sense = f.meaning sense) : e.isExpired ttl now = f.isExpired ttl now := by
  have hthen : e.insertedAt = f.insertedAt := congrArg (·.2.1) h
  unfold Entry.isExpired
  rw [hthen]

theorem without_same (h : es.map (Entry.meaning sense) = fs.map (Entry.meaning sense)) (hkey : key.parts = key'.parts) :
    (without key es).map (Entry.meaning sense) = (without key' fs).map (Entry.meaning sense) :=
  filter_same h fun _ _ hsame => congrArg (!·) (key_beq_of_meaning hsame hkey)

theorem write_same (h : es.map (Entry.meaning sense) = fs.map (Entry.meaning sense))
    (hnew : e.meaning sense = f.meaning sense) :
    (write e es).map (Entry.meaning sense) = (write f fs).map (Entry.meaning sense) := by
  have hkey : ∀ x y : Entry α, x.meaning sense = y.meaning sense → (x.key == e.key) = (y.key == f.key) :=
    fun _ _ hsame =>
    key_beq_of_meaning hsame (congrArg Prod.fst hnew)
  unfold write
  rw [any_same h hkey]
  split
  · rw [List.map_map, List.map_map]
    refine map_same h fun x y hsame => ?_
    dsimp only [Function.comp_apply]
    rw [hkey x y hsame]
    split
    · have hplace : x.key.parts = y.key.parts := congrArg Prod.fst hsame
      have hsays : (e.insertedAt, sense e.value) = (f.insertedAt, sense f.value) := congrArg Prod.snd hnew
      exact Prod.ext hplace hsays
    · exact hsame
  · rw [List.map_append, List.map_append, h, List.map_singleton, List.map_singleton, hnew]

theorem map_byAge (c : Cache α) : c.byAge.map (Entry.meaning sense) =
    (c.entries.map (Entry.meaning sense)).mergeSort fun s t => decide (s.2.1 ≤ t.2.1) :=
  List.map_mergeSort fun _ _ _ _ => rfl

namespace Same

theorem refl (sense : α → γ) (c : Cache α) : Same sense c c := ⟨rfl, rfl, rfl, rfl⟩

theorem size (h : Same sense c d) : c.size = d.size := length_same h.entries

theorem find? (h : Same sense c d) (hkey : key.parts = key'.parts) :
    (c.find? key).map (Entry.meaning sense) = (d.find? key').map (Entry.meaning sense) :=
  find?_same h.entries fun _ _ hsame => key_beq_of_meaning hsame hkey

theorem contains (h : Same sense c d) (hkey : key.parts = key'.parts) : c.contains key = d.contains key' :=
  any_same h.entries fun _ _ hsame => key_beq_of_meaning hsame hkey

/-- What is looked up is the same, and so is what is dropped and counted. -/
theorem get (h : Same sense c d) (hkey : key.parts = key'.parts) (now : Nat) :
    (c.get key now).1.map sense = (d.get key' now).1.map sense ∧ Same sense (c.get key now).2 (d.get key' now).2 := by
  unfold Cache.get
  rcases option_same (h.find? hkey) with ⟨hc, hd⟩ | ⟨e, f, hc, hd, hsame⟩
  · rw [hc, hd]
    exact ⟨rfl, h.entries, h.ttl, h.maxSize, by rw [h.stats]⟩
  · have hvalue : sense e.value = sense f.value := congrArg (·.2.2) hsame
    have hold : e.isExpired c.ttl now = f.isExpired d.ttl now := h.ttl ▸ isExpired_of_meaning hsame
    rw [hc, hd]
    dsimp only
    rw [hold]
    split
    · exact ⟨rfl, without_same h.entries hkey, h.ttl, h.maxSize, by rw [h.stats]⟩
    · exact ⟨congrArg some hvalue, h.entries, h.ttl, h.maxSize, by rw [h.stats]⟩

theorem purgeExpired (h : Same sense c d) (now : Nat) : Same sense (c.purgeExpired now) (d.purgeExpired now) := by
  have hkept : (c.entries.filter fun e => !e.isExpired c.ttl now).map (Entry.meaning sense) =
      (d.entries.filter fun e => !e.isExpired d.ttl now).map (Entry.meaning sense) := by
    rw [h.ttl]
    exact filter_same h.entries fun _ _ hsame => congrArg (!·) (isExpired_of_meaning hsame)
  refine ⟨hkept, h.ttl, h.maxSize, ?_⟩
  unfold Cache.purgeExpired
  dsimp only
  rw [h.stats, h.size, length_same hkept]

/-- The oldest entries are the same. -/
theorem evictOldest (h : Same sense c d) (n : Nat) : Same sense (c.evictOldest n) (d.evictOldest n) := by
  have hvictims : (c.byAge.take n).map (Entry.meaning sense) = (d.byAge.take n).map (Entry.meaning sense) := by
    rw [List.map_take, List.map_take, map_byAge, map_byAge, h.entries]
  refine ⟨?_, h.ttl, h.maxSize, ?_⟩
  · refine filter_same h.entries fun x y hsame => congrArg (!·) ?_
    exact any_same hvictims fun _ _ hvictim => key_beq_of_meaning hvictim (congrArg Prod.fst hsame)
  · unfold Cache.evictOldest
    dsimp only
    rw [h.stats, length_same hvictims]

theorem isFull (h : Same sense c d) : c.isFull = d.isFull := by
  rw [Cache.isFull, Cache.isFull, h.maxSize, h.size]

theorem makeRoom (h : Same sense c d) (now : Nat) : Same sense (c.makeRoom now) (d.makeRoom now) := by
  have hpurged := h.purgeExpired now
  unfold Cache.makeRoom
  dsimp only
  rw [h.isFull, hpurged.isFull, hpurged.size]
  split
  · split
    · exact hpurged.evictOldest _
    · exact hpurged
  · exact h

theorem put (h : Same sense c d) (hkey : key.parts = key'.parts) (hvalue : sense value = sense value') :
    Same sense (c.put key value now) (d.put key' value' now) := by
  have hroom :
      Same sense (if c.contains key then c else c.makeRoom now) (if d.contains key' then d else d.makeRoom now) := by
    rw [h.contains hkey]
    split
    · exact h
    · exact h.makeRoom now
  have hnew : Entry.meaning sense ⟨key, now, value⟩ = Entry.meaning sense ⟨key', now, value'⟩ := by
    rw [Entry.meaning, Entry.meaning, hkey, hvalue]
  refine ⟨write_same hroom.entries hnew, hroom.ttl, hroom.maxSize, ?_⟩
  unfold Cache.put
  dsimp only
  rw [hroom.stats]

theorem invalidate (h : Same sense c d) (hkey : key.parts = key'.parts) :
    Same sense (c.invalidate key).2 (d.invalidate key').2 := by
  unfold Cache.invalidate
  rw [h.contains hkey]
  split
  · exact ⟨without_same h.entries hkey, h.ttl, h.maxSize, by rw [h.stats]⟩
  · exact h

theorem clear (h : Same sense c d) : Same sense c.clear d.clear :=
  ⟨rfl, h.ttl, h.maxSize, by rw [Cache.clear, Cache.clear, h.stats, h.size]⟩

end Same

end Cache

/-! ## Stores -/

namespace FactStore

variable {α γ : Type} {sense : α → γ} {c d : Cache α} {s t : FactStore} {path path' target target' : Path}
    {value : Bool}
  {asOf now : Nat}

/-- What a fact about a true name says. -/
def nameMeaning (fact : Dated Path) : Nat × List Part := (fact.asOf, fact.value.parts)

/-- Two stores that say the same in the same order, under any spelling of paths, with the same figures. -/
structure Same (s t : FactStore) : Prop where
  existence : s.existence.Same id t.existence
  truename : s.truename.Same nameMeaning t.truename

theorem dropAround_same (h : c.Same sense d) (hpath : path.parts = path'.parts) :
    (dropAround path c).Same sense (dropAround path' d) := by
  have hgone := h.invalidate hpath
  unfold dropAround
  rcases option_same (Path.parent?_congr hpath) with ⟨hp, hp'⟩ | ⟨parent, parent', hp, hp', hsame⟩
  · rw [hp, hp']
    exact hgone
  · rw [hp, hp']
    exact hgone.invalidate hsame

namespace Same

theorem refl (s : FactStore) : s.Same s := ⟨.refl _ _, .refl _ _⟩

theorem exists? (h : s.Same t) (hpath : path.parts = path'.parts) (now : Nat) :
    (s.exists? path now).1 = (t.exists? path' now).1 ∧ (s.exists? path now).2.Same (t.exists? path' now).2 := by
  obtain ⟨hanswer, hthen⟩ := h.existence.get hpath now
  rw [Option.map_id_apply, Option.map_id_apply] at hanswer
  exact ⟨congrArg (Option.map Dated.value) hanswer, hthen, h.truename⟩

theorem truename? (h : s.Same t) (hpath : path.parts = path'.parts) (now : Nat) :
    (s.truename? path now).1.map Path.parts = (t.truename? path' now).1.map Path.parts ∧
      (s.truename? path now).2.Same (t.truename? path' now).2 := by
  obtain ⟨hanswer, hthen⟩ := h.truename.get hpath now
  refine ⟨?_, h.existence, hthen⟩
  have hnames := congrArg (Option.map Prod.snd) hanswer
  rw [Option.map_map, Option.map_map] at hnames
  unfold FactStore.truename?
  rw [Option.map_map, Option.map_map]
  exact hnames

theorem recordExists (h : s.Same t) (hpath : path.parts = path'.parts) (value : Bool) :
    (s.recordExists path ⟨asOf, value⟩ now).Same (t.recordExists path' ⟨asOf, value⟩ now) :=
  ⟨h.existence.put hpath rfl, h.truename⟩

theorem recordTruename (h : s.Same t) (hpath : path.parts = path'.parts) (htarget : target.parts = target'.parts) :
    (s.recordTruename path ⟨asOf, target⟩ now).Same (t.recordTruename path' ⟨asOf, target'⟩ now) :=
  ⟨h.existence, h.truename.put hpath (by rw [nameMeaning, nameMeaning, htarget])⟩

theorem invalidatePath (h : s.Same t) (hpath : path.parts = path'.parts) :
    (s.invalidatePath path).Same (t.invalidatePath path') :=
  ⟨dropAround_same h.existence hpath, dropAround_same h.truename hpath⟩

theorem flush (h : s.Same t) : s.flush.Same t.flush := ⟨h.existence.clear, h.truename.clear⟩

end Same

end FactStore

end RemoteFacts
