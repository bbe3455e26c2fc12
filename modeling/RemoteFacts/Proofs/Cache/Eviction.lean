import Mathlib.Algebra.Order.Floor.Div
import RemoteFacts.Proofs.Cache.Alike
import RemoteFacts.Proofs.Cache.Course

/-!
# What making room costs

An entry of another path leaves for a new one only if the cache is full, and then no more of them than the rule says:
the expired ones, or the oldest quarter if none has expired, but never both. That the two never meet in one `put` is the
size bound itself: a full cache holds just as many entries as it may, so a single one that has expired makes room.

* `Bounded` : the cache holds no more entries than it may;
* `Puts` : what `put` does to the entries, in four cases (`put_puts`);
* `Bounded.step`, `Course.bounded` : the bound is kept by every request, and so by every history;
* `making_room_is_minimal` : after every history the bound holds, and `put` does what `Puts` says.
-/

namespace RemoteFacts.Cache

variable {α : Type} {c : Cache α} {key : Path} {value : α} {now max : Nat} {ttl : Option Nat} {ops : List (Op α)}
  {answers : List (Answer α)} {e : Entry α} {es : List (Entry α)}

/-- The cache holds no more entries than it may, and it may hold some. -/
def Bounded (c : Cache α) : Prop := ∀ max, c.maxSize = some max → 0 < max ∧ c.size ≤ max

/-- What putting a value under a path at `now` does to a cache. -/
inductive Puts (key : Path) (value : α) (now : Nat) (c c' : Cache α) : Prop where
  /-- The path has an entry, which is written over in its spelling; all others stay. -/
  | inPlace (old : Entry α) (hold : old ∈ c.entries) (hkey : (old.key == key) = true)
      (hafter : c'.entries.Perm (⟨old.key, now, value⟩ :: without key c.entries))
      (hstats : c'.stats = { c.stats with inserts := c.stats.inserts + 1 })
  /-- The path is new and there is room; all others stay. -/
  | beside (hnew : c.contains key = false) (hroom : ∀ max, c.maxSize = some max → c.size < max)
      (hafter : c'.entries.Perm (⟨key, now, value⟩ :: c.entries))
      (hstats : c'.stats = { c.stats with inserts := c.stats.inserts + 1 })
  /-- The path is new, the cache is full, and some entries have expired; just these leave. -/
  | afterExpired (gone : List (Entry α)) (hnew : c.contains key = false) (hfull : c.maxSize = some c.size)
      (hgone : gone = c.entries.filter fun e => e.isExpired c.ttl now) (hsome : gone ≠ [])
      (hafter : c'.entries.Perm (⟨key, now, value⟩ :: c.entries.filter fun e => !e.isExpired c.ttl now))
      (hstats : c'.stats = { c.stats with
        inserts := c.stats.inserts + 1
        expirations := c.stats.expirations + gone.length })
  /-- The path is new, the cache is full, and none has expired; the oldest quarter leaves, rounded up. -/
  | afterOldest (gone others : List (Entry α)) (hnew : c.contains key = false) (hfull : c.maxSize = some c.size)
      (hnone : ∀ e ∈ c.entries, e.isExpired c.ttl now = false) (hbefore : c.entries.Perm (gone ++ others))
      (hcount : gone.length = c.size ⌈/⌉ 4) (hage : ∀ a ∈ gone, ∀ b ∈ others, a.insertedAt ≤ b.insertedAt)
      (hafter : c'.entries.Perm (⟨key, now, value⟩ :: others))
      (hstats : c'.stats = { c.stats with
        inserts := c.stats.inserts + 1
        evictions := c.stats.evictions + gone.length })

/-! ## Writing -/

theorem write_of_new (hnew : es.any (·.key == e.key) = false) : write e es = es ++ [e] := by
  rw [write, hnew, if_neg Bool.false_ne_true]

/-- Writing over an entry leaves those of other paths as they are. -/
theorem write_perm_of_mem {old new : Entry α} (hdistinct : KeysDistinct es) (hold : old ∈ es)
    (hkey : (old.key == new.key) = true) : (write new es).Perm ({ new with key := old.key } :: without new.key es) := by
  have hsome : es.any (·.key == new.key) = true := List.any_eq_true.2 ⟨old, hold, hkey⟩
  have halone : es.filter (·.key == new.key) = [old] := hdistinct.filter_eq_singleton hold hkey
  have hothers : (without new.key es).map (fun e => if e.key == new.key then { new with key := e.key } else e) =
      without new.key es := by
    refine (List.map_congr_left fun e he => ?_).trans (List.map_id' _)
    rw [if_neg (by rw [(mem_without.1 he).2]; exact Bool.false_ne_true)]
  have hsplit := (List.filter_append_perm (·.key == new.key) es).symm.map
    fun e => if e.key == new.key then { new with key := e.key } else e
  rw [halone, List.singleton_append, List.map_cons, if_pos hkey] at hsplit
  rw [write, hsome, if_pos rfl]
  exact hothers ▸ hsplit

/-! ## Making room -/

theorem contains_of_sublist (hsub : es.Sublist c.entries) (hnew : c.contains key = false) :
    es.any (·.key == key) = false :=
  List.any_eq_false.2 fun e he => List.any_eq_false.1 hnew e (hsub.subset he)

theorem quarter_eq_ceilDiv (n : Nat) : quarter n = n ⌈/⌉ 4 := (Nat.ceilDiv_eq_add_pred_div n 4).symm

/-- A quarter of the entries is not more than there are. -/
theorem length_victims (c : Cache α) : (c.byAge.take (quarter c.size)).length = quarter c.size := by
  have hage : c.byAge.length = c.size := byAge_perm.length_eq
  rw [List.length_take, hage]
  unfold quarter
  omega

theorem isFull_iff : c.isFull = true ↔ ∃ max, c.maxSize = some max ∧ max ≤ c.size := by
  unfold isFull
  cases c.maxSize with
  | none => simp
  | some max => simp

/-- A cache that is full holds just as many entries as it may. -/
theorem Bounded.maxSize_of_isFull (h : Bounded c) (hfull : c.isFull = true) : c.maxSize = some c.size := by
  obtain ⟨max, hmax, hle⟩ := isFull_iff.1 hfull
  rw [hmax, Nat.le_antisymm hle (h max hmax).2]

theorem makeRoom_of_room (hroom : c.isFull = false) : c.makeRoom now = c := by
  rw [makeRoom, hroom, if_neg Bool.false_ne_true]

/-- An entry that has expired makes room enough. -/
theorem makeRoom_of_expired (h : Bounded c) (hfull : c.isFull = true) (he : e ∈ c.entries)
    (hexpired : e.isExpired c.ttl now = true) : c.makeRoom now = c.purgeExpired now := by
  have hfewer : (c.purgeExpired now).size < c.size :=
    List.length_filter_lt_length_iff_exists.2 ⟨e, he, by simp [hexpired]⟩
  have hroom : (c.purgeExpired now).isFull = false := by
    rw [← Bool.not_eq_true, isFull_iff]
    rintro ⟨max, hmax, hle⟩
    obtain rfl : c.size = max := Option.some.inj ((h.maxSize_of_isFull hfull).symm.trans hmax)
    exact Nat.not_le_of_lt hfewer hle
  unfold makeRoom
  dsimp only
  rw [hfull, hroom, if_pos rfl, if_neg Bool.false_ne_true]

theorem purgeExpired_of_live (hlive : ∀ e ∈ c.entries, e.isExpired c.ttl now = false) : c.purgeExpired now = c := by
  have hkept : c.entries.filter (fun e => !e.isExpired c.ttl now) = c.entries :=
    List.filter_eq_self.2 fun e he => by rw [hlive e he]; rfl
  unfold purgeExpired
  dsimp only
  rw [hkept, size, Nat.sub_self, Nat.add_zero]

theorem stats_purgeExpired : (c.purgeExpired now).stats =
    { c.stats with expirations := c.stats.expirations + (c.entries.filter fun e => e.isExpired c.ttl now).length } := by
  have hsplit := List.length_eq_length_filter_add (l := c.entries) fun e => e.isExpired c.ttl now
  have hlost : c.size - (c.entries.filter fun e => !e.isExpired c.ttl now).length =
      (c.entries.filter fun e => e.isExpired c.ttl now).length := Nat.sub_eq_of_eq_add hsplit
  rw [← hlost]
  rfl

theorem makeRoom_of_live (hfull : c.isFull = true) (hlive : ∀ e ∈ c.entries, e.isExpired c.ttl now = false) :
    c.makeRoom now = c.evictOldest (quarter c.size) := by
  unfold makeRoom
  dsimp only
  rw [hfull, purgeExpired_of_live hlive, hfull, if_pos rfl, if_pos rfl]

/-! ## Putting -/

/-- What `put` does to a cache that holds no more than it may. -/
theorem put_puts (hdistinct : KeysDistinct c.entries) (hbounded : Bounded c) (key : Path) (value : α) (now : Nat) :
    Puts key value now c (c.put key value now) := by
  have hinserts : (c.put key value now).stats =
      { (c.roomFor key now).stats with inserts := (c.roomFor key now).stats.inserts + 1 } := rfl
  cases hcontains : c.contains key with
  | true =>
    obtain ⟨old, hold, hkey⟩ := List.any_eq_true.1 hcontains
    have hstay : c.roomFor key now = c := if_pos hcontains
    refine .inPlace old hold hkey ?_ (by rw [hinserts, hstay])
    rw [entries_put_eq, hstay]
    exact write_perm_of_mem hdistinct hold hkey
  | false =>
    have hroom : c.roomFor key now = c.makeRoom now := if_neg (by rw [hcontains]; exact Bool.false_ne_true)
    have hstill : (c.makeRoom now).entries.any (·.key == key) = false := contains_of_sublist makeRoom_sublist hcontains
    have hadded : (c.put key value now).entries.Perm (⟨key, now, value⟩ :: (c.makeRoom now).entries) := by
      rw [entries_put_eq, hroom, write_of_new (e := ⟨key, now, value⟩) hstill]
      exact List.perm_append_singleton _ _
    rw [hroom] at hinserts
    cases hfull : c.isFull with
    | false =>
      rw [makeRoom_of_room hfull] at hadded hinserts
      refine .beside hcontains (fun max hmax => ?_) hadded hinserts
      exact Nat.lt_of_not_le fun hle => Bool.false_ne_true (hfull.symm.trans (isFull_iff.2 ⟨max, hmax, hle⟩))
    | true =>
      have hmax := hbounded.maxSize_of_isFull hfull
      by_cases hsome : ∃ e ∈ c.entries, e.isExpired c.ttl now = true
      · obtain ⟨e, he, hexpired⟩ := hsome
        rw [makeRoom_of_expired hbounded hfull he hexpired] at hadded hinserts
        rw [stats_purgeExpired] at hinserts
        have hgone := List.ne_nil_of_mem (List.mem_filter (p := fun e => e.isExpired c.ttl now).2 ⟨he, hexpired⟩)
        exact .afterExpired _ hcontains hmax rfl hgone hadded hinserts
      · have hlive : ∀ e ∈ c.entries, e.isExpired c.ttl now = false := by simpa using hsome
        rw [makeRoom_of_live hfull hlive] at hadded hinserts
        have hsplit : c.byAge.take (quarter c.size) ++ c.byAge.drop (quarter c.size) = c.byAge :=
          List.take_append_drop _ _
        refine .afterOldest (c.byAge.take (quarter c.size)) (c.byAge.drop (quarter c.size)) hcontains hmax hlive
          ?_ ?_ ?_
          (hadded.trans ((evictOldest_perm hdistinct _).cons _)) hinserts
        · rw [hsplit]
          exact byAge_perm.symm
        · rw [length_victims, quarter_eq_ceilDiv]
        · have hsorted := byAge_pairwise (c := c)
          rw [← hsplit] at hsorted
          exact (List.pairwise_append.1 hsorted).2.2

/-! ## The bound -/

theorem Bounded.of_size_le {fewer : Cache α} (h : Bounded c) (hmaxSize : fewer.maxSize = c.maxSize)
    (hsize : fewer.size ≤ c.size) : Bounded fewer := fun max hmax => by
  obtain ⟨hpos, hle⟩ := h max (hmaxSize ▸ hmax)
  exact ⟨hpos, Nat.le_trans hsize hle⟩

theorem bounded_empty (ttl maxSize : Option Nat) : Bounded (empty ttl maxSize : Cache α) := fun max hmax => by
  obtain ⟨-, hpos⟩ := Option.filter_eq_some_iff.1 hmax
  exact ⟨by simpa using hpos, Nat.zero_le _⟩

theorem Puts.size_le {c' : Cache α} (h : Puts key value now c c') (hbounded : Bounded c) (hmax : c.maxSize = some max) :
    c'.size ≤ max := by
  obtain ⟨hpos, hle⟩ := hbounded max hmax
  cases h with
  | inPlace old hold hkey hafter =>
    have hothers : (without key c.entries).length < c.entries.length :=
      List.length_filter_lt_length_iff_exists.2 ⟨old, hold, by simp [hkey]⟩
    have hlength := hafter.length_eq
    rw [List.length_cons] at hlength
    unfold size at hle ⊢
    omega
  | beside hnew hroom hafter =>
    have hlength := hafter.length_eq
    rw [List.length_cons] at hlength
    have hlt := hroom max hmax
    unfold size at hlt ⊢
    omega
  | afterExpired gone hnew hfull hgone hsome hafter =>
    have hlength := hafter.length_eq
    have hsplit := List.length_eq_length_filter_add (l := c.entries) fun e => e.isExpired c.ttl now
    have hlost := List.length_pos_of_ne_nil hsome
    rw [List.length_cons] at hlength
    rw [← hgone] at hsplit
    unfold size at hle ⊢
    omega
  | afterOldest gone others hnew hfull hnone hbefore hcount hage hafter =>
    have hlength := hafter.length_eq
    have hsplit := hbefore.length_eq
    obtain rfl : c.size = max := Option.some.inj (hfull.symm.trans hmax)
    rw [← quarter_eq_ceilDiv, quarter] at hcount
    rw [List.length_append] at hsplit
    rw [List.length_cons] at hlength
    unfold size at hcount hpos ⊢
    omega

theorem Bounded.put (h : Bounded c) (hdistinct : KeysDistinct c.entries) (key : Path) (value : α) (now : Nat) :
    Bounded (c.put key value now) := fun max hmax => by
  have hmax' : c.maxSize = some max := roomFor_bounds.2.symm.trans hmax
  exact ⟨(h max hmax').1, (put_puts hdistinct h key value now).size_le h hmax'⟩

/-- No request takes the cache over its bound. -/
theorem Bounded.step (h : Bounded c) (hdistinct : KeysDistinct c.entries) (op : Op α) : Bounded (c.step op).2 := by
  cases op with
  | put key value now => exact h.put hdistinct key value now
  | get key now => exact h.of_size_le get_bounds.2 get_sublist.length_le
  | invalidate key => exact h.of_size_le invalidate_bounds.2 invalidate_sublist.length_le
  | clear => exact h.of_size_le rfl (Nat.zero_le _)

theorem Course.bounded {start : Cache α} (h : Course start ops answers c) (hstart : Bounded start)
    (hdistinct : KeysDistinct start.entries) : Bounded c := by
  induction h with
  | nil => exact hstart
  | step h op ih => exact ih.step (h.keysDistinct hdistinct) op
  | reorder _ hperm ih => exact ih.of_size_le rfl (Nat.le_of_eq hperm.length_eq)

/-- After every history of a cache that may hold at least one entry, at whatever moments and in whatever order the
entries lie: it holds no more than it may, and what comes of putting anything into it next is one of the four cases of
`Puts`. -/
theorem making_room_is_minimal (hmax : 0 < max) (hcourse : Course (empty ttl (some max)) ops answers c) :
    c.ttl = ttl ∧ c.maxSize = some max ∧ c.size ≤ max ∧
      ∀ key value now, Puts key value now c (c.put key value now) := by
  have hbounded := hcourse.bounded (bounded_empty ttl (some max)) List.nodup_nil
  have hbound : c.maxSize = some max := hcourse.maxSize.trans (if_pos (decide_eq_true hmax))
  refine ⟨hcourse.ttl, hbound, (hbounded max hbound).2, fun key value now => ?_⟩
  exact put_puts (hcourse.keysDistinct List.nodup_nil) hbounded key value now

/-- A cache of five under a clock that goes back. `/a` was written over at 7, so `/b` and `/c` are the oldest: at 13
they have expired and leave for `/f`, and at 2 they are evicted for it. -/
theorem making_room_is_minimal_of_five :
    let ops : List (Op Nat) := [.put ⟨"/a"⟩ 0 5, .put ⟨"/b"⟩ 1 3, .put ⟨"/c"⟩ 2 3, .put ⟨"/d"⟩ 3 8, .put ⟨"/a/"⟩ 4 7,
      .put ⟨"/e"⟩ 5 8]
    ∃ answers c, Course (empty (some 9) (some 5)) ops answers c ∧ c.size ≤ 5 ∧
      Puts ⟨"/f"⟩ 6 13 c (c.put ⟨"/f"⟩ 6 13) ∧ (c.put ⟨"/f"⟩ 6 13).entries.map (·.value) = [4, 3, 5, 6] ∧
      (c.put ⟨"/f"⟩ 6 13).stats = ⟨0, 0, 7, 0, 2, 0⟩ ∧
      Puts ⟨"/f"⟩ 6 2 c (c.put ⟨"/f"⟩ 6 2) ∧ (c.put ⟨"/f"⟩ 6 2).stats = ⟨0, 0, 7, 2, 0, 0⟩ := by
  intro ops
  have hcourse := course_run (empty (some 9) (some 5)) ops
  obtain ⟨-, -, hsize, hputs⟩ := making_room_is_minimal (by decide) hcourse
  refine ⟨_, _, hcourse, hsize, hputs _ _ 13, by decide +kernel, by decide +kernel, hputs _ _ 2, ?_⟩
  cases hputs ⟨"/f"⟩ 6 2 with
  | inPlace old hold hkey =>
    have hthere := List.any_eq_true (p := fun e : Entry Nat => e.key == ⟨"/f"⟩).2 ⟨old, hold, hkey⟩
    exact absurd hthere (by decide +kernel)
  | beside hnew hroom => exact absurd (hroom 5 rfl) (by decide +kernel)
  | afterExpired gone hnew hfull hgone hsome => exact absurd (hgone.trans (by decide +kernel)) hsome
  | afterOldest gone others hnew hfull hnone hbefore hcount hage hafter hstats =>
    rw [hstats, hcount]
    decide +kernel

end RemoteFacts.Cache
