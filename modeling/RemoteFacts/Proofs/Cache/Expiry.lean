import RemoteFacts.Proofs.Cache.Alike
import RemoteFacts.Proofs.Cache.Eviction
import RemoteFacts.Proofs.Cache.Latest

/-!
# Lazy expiry

A cache drops expired entries when they are looked up or their room is needed. Nobody who only sees what it serves and
counts can tell it from one that drops them at once.

* `Eager` : the cache that drops every expired entry before each request (`Eager.step`, `Eager.run`);
* `Agrees` : a cache and an eager one hold the same entries that have not expired, and have counted the same
  (`Agrees.get`, `Agrees.put`, `Agrees.invalidate`, `Agrees.step` : whatever is asked of both, they still agree);
* `lazy_expiry_unobservable` : so they do after every history.
-/

namespace RemoteFacts.Cache

variable {α : Type} {key : Path} {now past : Nat} {value : α} {ttl maxSize : Option Nat}

/-- What is counted without regard to when an expired entry leaves. -/
structure Counts where
  hits : Nat
  misses : Nat
  inserts : Nat
  evictions : Nat
  deriving Repr, DecidableEq

def Stats.counts (s : Stats) : Counts := ⟨s.hits, s.misses, s.inserts, s.evictions⟩

/-- What is asked of a cache, at a moment that is told apart. -/
inductive Ask (α : Type) where
  | put (key : Path) (value : α)
  | get (key : Path)
  | invalidate (key : Path)
  | clear

def Ask.op (now : Nat) : Ask α → Op α
  | put key value => .put key value now
  | get key => .get key now
  | invalidate key => .invalidate key
  | clear => .clear

/-- What a look-up was answered. -/
def Answer.looked? : Answer α → Option (Option α)
  | .value v => some v
  | .nothing => none
  | .present _ => none

/-- A cache that holds no expired entries. They lie in the order in which they were put, so the oldest are its front
(`Agrees.oldestFirst`). -/
structure Eager (α : Type) where
  entries : List (Entry α)
  ttl : Option Nat
  maxSize : Option Nat
  counts : Counts

namespace Eager

/-- An empty one; a size bound of zero bounds nothing. -/
def empty (ttl maxSize : Option Nat) : Eager α := ⟨[], ttl, maxSize.filter (0 < ·), ⟨0, 0, 0, 0⟩⟩

def contains (r : Eager α) (key : Path) : Bool := r.entries.any (·.key == key)

/-- Drops every expired entry. -/
def expire (now : Nat) (r : Eager α) : Eager α := { r with entries := live r.ttl now r.entries }

def get (key : Path) (r : Eager α) : Option α × Eager α :=
  match r.entries.find? (·.key == key) with
  | some e => (some e.value, { r with counts := { r.counts with hits := r.counts.hits + 1 } })
  | none => (none, { r with counts := { r.counts with misses := r.counts.misses + 1 } })

/-- When a new path meets as many entries as there may be, the oldest quarter of them leaves. -/
def makeRoom (key : Path) (r : Eager α) : Eager α :=
  let victims := quarter r.entries.length
  match r.maxSize with
  | some max =>
    if !r.contains key && decide (max ≤ r.entries.length) then
      { r with
        entries := r.entries.drop victims
        counts := { r.counts with evictions := r.counts.evictions + victims } }
    else r
  | none => r

def put (key : Path) (value : α) (now : Nat) (r : Eager α) : Eager α :=
  let r := r.makeRoom key
  { r with
    entries := without key r.entries ++ [⟨key, now, value⟩]
    counts := { r.counts with inserts := r.counts.inserts + 1 } }

def invalidate (key : Path) (r : Eager α) : Bool × Eager α :=
  (r.contains key, { r with entries := without key r.entries })

/-- One request; before it, every expired entry is dropped. -/
def step (r : Eager α) (now : Nat) : Ask α → Answer α × Eager α
  | .put key value => (.nothing, (r.expire now).put key value now)
  | .get key =>
    let (v, r) := (r.expire now).get key
    (.value v, r)
  | .invalidate key =>
    let (b, r) := (r.expire now).invalidate key
    (.present b, r)
  | .clear => (.nothing, { r.expire now with entries := [] })

/-- A history of requests: the answers, and the cache after it. -/
def run (r : Eager α) (history : List (Nat × Ask α)) : List (Answer α) × Eager α :=
  history.foldl (fun (answers, r) (now, ask) =>
    let (answer, r) := r.step now ask
    (answers ++ [answer], r)) ([], r)

theorem get_keeps (r : Eager α) (key : Path) :
    (r.get key).2.entries = r.entries ∧ (r.get key).2.ttl = r.ttl ∧ (r.get key).2.maxSize = r.maxSize := by
  unfold get
  split
  · exact ⟨rfl, rfl, rfl⟩
  · exact ⟨rfl, rfl, rfl⟩

theorem makeRoom_sublist (r : Eager α) (key : Path) : (r.makeRoom key).entries.Sublist r.entries := by
  unfold makeRoom
  dsimp only
  split
  · split
    · exact List.drop_sublist _ _
    · exact List.Sublist.refl _
  · exact List.Sublist.refl _

theorem run_snoc (r : Eager α) (history : List (Nat × Ask α)) (now : Nat) (ask : Ask α) :
    r.run (history ++ [(now, ask)]) =
      ((r.run history).1 ++ [((r.run history).2.step now ask).1], ((r.run history).2.step now ask).2) := by
  unfold run
  rw [List.foldl_append]
  rfl

end Eager

/-! ## Agreement -/

/-- The cache `c` and the eager one, when both have just been asked at `now`. -/
structure Agrees (now : Nat) (c : Cache α) (r : Eager α) : Prop where
  ttl : c.ttl = r.ttl
  maxSize : c.maxSize = r.maxSize
  counts : c.stats.counts = r.counts
  /-- They hold the same, but for what has expired. -/
  held : Alike (live c.ttl now c.entries) r.entries
  distinct : KeysDistinct c.entries
  oldestFirst : r.entries.Pairwise fun a b => a.insertedAt < b.insertedAt
  bounded : ∀ max, c.maxSize = some max → 0 < max ∧ c.size ≤ max

namespace Agrees

variable {c : Cache α} {r : Eager α}

theorem empty (ttl maxSize : Option Nat) : Agrees 0 (Cache.empty ttl maxSize : Cache α) (Eager.empty ttl maxSize) where
  ttl := rfl
  maxSize := rfl
  counts := rfl
  held := Alike.refl _
  distinct := List.nodup_nil
  oldestFirst := List.Pairwise.nil
  bounded := bounded_empty ttl maxSize

theorem expire (h : Agrees past c r) (hle : past ≤ now) : Agrees now c (r.expire now) where
  ttl := h.ttl
  maxSize := h.maxSize
  counts := h.counts
  held := by
    -- what has expired before has expired now
    have hheld := h.held.live c.ttl now
    rw [live_live hle] at hheld
    show Alike (live c.ttl now c.entries) (live r.ttl now r.entries)
    rwa [← h.ttl]
  distinct := h.distinct
  oldestFirst := h.oldestFirst.sublist live_sublist
  bounded := h.bounded

theorem reorder {entries : List (Entry α)} (h : Agrees now c r) (hperm : entries.Perm c.entries) :
    Agrees now { c with entries } r where
  ttl := h.ttl
  maxSize := h.maxSize
  counts := h.counts
  held := (Alike.of_perm (hperm.filter _)).trans h.held
  distinct := h.distinct.perm hperm
  oldestFirst := h.oldestFirst
  bounded := Bounded.of_size_le h.bounded rfl (Nat.le_of_eq hperm.length_eq)

/-- A path is with the eager one if its entry has not expired, and only then. -/
theorem find? (h : Agrees now c r) (key : Path) :
    ((c.find? key).filter fun e => !e.isExpired c.ttl now).map Entry.content =
      (r.entries.find? (·.key == key)).map Entry.content := by
  rw [← h.held.find? (h.distinct.sublist live_sublist) key, find?_live h.distinct]
  rfl

/-! ### Looking up -/

theorem get_answers (h : Agrees now c r) (key : Path) :
    (c.get key now).1 = (r.get key).1 ∧ (c.get key now).2.stats.counts = (r.get key).2.counts := by
  have hfind := h.find? key
  have hmiss : ({ c.stats with misses := c.stats.misses + 1 } : Stats).counts =
      { r.counts with misses := r.counts.misses + 1 } := by
    rw [← h.counts]
    rfl
  unfold Cache.get Eager.get
  cases hfound : c.find? key with
  | none =>
    rw [hfound, Option.filter_none, Option.map_none, eq_comm, Option.map_eq_none_iff] at hfind
    rw [hfind]
    exact ⟨rfl, hmiss⟩
  | some e =>
    rw [hfound, Option.filter_some] at hfind
    cases hexpired : e.isExpired c.ttl now with
    | true =>
      rw [hexpired] at hfind
      simp only [Bool.not_true, Bool.false_eq_true, if_false, Option.map_none] at hfind
      rw [eq_comm, Option.map_eq_none_iff] at hfind
      rw [hfind]
      exact ⟨by simp [hexpired], by simp only [hexpired, if_true]; exact hmiss⟩
    | false =>
      rw [hexpired] at hfind
      simp only [Bool.not_false, if_true, Option.map_some] at hfind
      obtain ⟨f, hf, hsame⟩ := Option.map_eq_some_iff.1 hfind.symm
      rw [hf]
      have hvalue : f.value = e.value := congrArg (·.2.2) hsame
      refine ⟨by simp [hexpired, hvalue], ?_⟩
      simp only [hexpired, Bool.false_eq_true, if_false]
      rw [← h.counts]
      rfl

theorem get (h : Agrees now c r) (key : Path) : Agrees now (c.get key now).2 (r.get key).2 := by
  obtain ⟨hentries, httl, hmaxSize⟩ := r.get_keeps key
  exact {
    ttl := by rw [get_bounds.1, httl, h.ttl]
    maxSize := by rw [get_bounds.2, hmaxSize, h.maxSize]
    counts := (h.get_answers key).2
    held := by
      rw [get_bounds.1, live_get h.distinct, hentries]
      exact h.held
    distinct := h.distinct.sublist get_sublist
    oldestFirst := hentries ▸ h.oldestFirst
    bounded := Bounded.of_size_le h.bounded get_bounds.2 get_sublist.length_le }

/-! ### Making room -/

theorem contains_of_eager (h : Agrees now c r) (hnew : c.contains key = false) : r.contains key = false := by
  refine List.any_eq_false.2 fun f hf hk => ?_
  obtain ⟨e, he, hsame⟩ := h.held.symm.exists_of_mem hf
  exact List.any_eq_false.1 hnew e (live_sublist.subset he) (key_eq_of_content hsame ▸ hk)

/-- Where the eager cache has dropped the entry of a path, the other one holds more than it. -/
theorem length_lt_size (h : Agrees now c r) (hold : c.contains key = true) (hgone : r.contains key = false) :
    r.entries.length < c.size := by
  obtain ⟨e, he, hk⟩ := List.any_eq_true.1 hold
  have hexpired : e.isExpired c.ttl now = true := by
    by_contra hlive
    rw [Bool.not_eq_true] at hlive
    obtain ⟨f, hf, hsame⟩ := h.held.exists_of_mem (mem_live.2 ⟨he, hlive⟩)
    exact List.any_eq_false.1 hgone f hf (key_eq_of_content hsame ▸ hk)
  rw [← h.held.length_eq]
  refine List.length_filter_lt_length_iff_exists.2 ⟨e, he, ?_⟩
  simp [hexpired]

theorem length_le_size (h : Agrees now c r) : r.entries.length ≤ c.size := by
  rw [← h.held.length_eq]
  exact live_sublist.length_le

theorem purge (h : Agrees now c r) : Agrees now (c.purgeExpired now) r where
  ttl := h.ttl
  maxSize := h.maxSize
  counts := h.counts
  held := by
    show Alike (live c.ttl now (live c.ttl now c.entries)) r.entries
    rw [live_live (Nat.le_refl now)]
    exact h.held
  distinct := h.distinct.sublist live_sublist
  oldestFirst := h.oldestFirst
  bounded := Bounded.of_size_le h.bounded rfl live_sublist.length_le

theorem evict (h : Agrees now c r) (hlive : live c.ttl now c.entries = c.entries) :
    Agrees now (c.evictOldest (quarter c.size)) { r with
      entries := r.entries.drop (quarter r.entries.length)
      counts := { r.counts with evictions := r.counts.evictions + quarter r.entries.length } } := by
  have hheld : Alike c.entries r.entries := hlive ▸ h.held
  have hsize : c.size = r.entries.length := hheld.length_eq
  exact {
    ttl := h.ttl
    maxSize := h.maxSize
    counts := by
      show Stats.counts { c.stats with evictions := c.stats.evictions + (c.byAge.take (quarter c.size)).length } = _
      rw [length_victims, hsize, ← h.counts]
      rfl
    held := by
      have hall :
          live c.ttl now (c.evictOldest (quarter c.size)).entries = (c.evictOldest (quarter c.size)).entries := by
        refine List.filter_eq_self.2 fun e he => ?_
        have hmem : e ∈ live c.ttl now c.entries := by
          rw [hlive]
          exact List.filter_sublist.subset he
        simp [(mem_live.1 hmem).2]
      show Alike (live c.ttl now (c.evictOldest (quarter c.size)).entries) _
      rw [hall, ← hsize]
      exact evictOldest_alike h.distinct hheld h.oldestFirst _
    distinct := h.distinct.sublist List.filter_sublist
    oldestFirst := h.oldestFirst.sublist (List.drop_sublist _ _)
    bounded := Bounded.of_size_le h.bounded rfl (List.length_filter_le _ _) }

theorem eager_makeRoom_of_room {max : Nat} (h : Agrees now c r) (hmax : c.maxSize = some max)
    (hroom : r.contains key = true ∨ r.entries.length < max) : r.makeRoom key = r := by
  unfold Eager.makeRoom
  rw [← h.maxSize, hmax]
  refine if_neg ?_
  rcases hroom with hold | hlt
  · simp [hold]
  · simp [hlt]

/-- When a new path meets a full cache, both make the same room for it. -/
theorem makeRoom_of_full {max : Nat} (h : Agrees now c r) (hmax : c.maxSize = some max) (hfull : max ≤ c.size)
    (hnew : r.contains key = false) : Agrees now (c.makeRoom now) (r.makeRoom key) := by
  have hpurged : (c.purgeExpired now).size = r.entries.length := h.held.length_eq
  have hmake : c.makeRoom now = if max ≤ r.entries.length then
      (c.purgeExpired now).evictOldest (quarter (c.purgeExpired now).size) else c.purgeExpired now := by
    have hisFull : c.isFull = true := by simpa [isFull, hmax] using hfull
    have hstill : (c.purgeExpired now).isFull = decide (max ≤ r.entries.length) := by
      have hsame : (c.purgeExpired now).maxSize = some max := hmax
      simp [isFull, hsame, hpurged]
    simp [Cache.makeRoom, hisFull, hstill]
  rw [hmake]
  by_cases hstill : max ≤ r.entries.length
  · have heager : r.makeRoom key = { r with
        entries := r.entries.drop (quarter r.entries.length)
        counts := { r.counts with evictions := r.counts.evictions + quarter r.entries.length } } := by
      unfold Eager.makeRoom
      rw [← h.maxSize, hmax]
      exact if_pos (by simp [hnew, hstill])
    rw [if_pos hstill, heager]
    exact h.purge.evict (live_live (Nat.le_refl now) _)
  · rw [if_neg hstill, h.eager_makeRoom_of_room hmax (Or.inr (Nat.lt_of_not_le hstill))]
    exact h.purge

/-- Both make the same room for a path. The entry of it that only the lazy cache still has is no matter: without it the
other one is not full. -/
theorem makeRoom (h : Agrees now c r) (key : Path) : Agrees now (c.roomFor key now) (r.makeRoom key) := by
  cases hmax : c.maxSize with
  | none =>
    have hstay : r.makeRoom key = r := by
      unfold Eager.makeRoom
      rw [← h.maxSize, hmax]
    rw [roomFor_of_unbounded hmax, hstay]
    exact h
  | some max =>
    obtain ⟨-, hsize⟩ := h.bounded max hmax
    cases hold : c.contains key with
    | true =>
      have hroom : r.contains key = true ∨ r.entries.length < max := by
        cases heager : r.contains key with
        | true => exact Or.inl rfl
        | false => exact Or.inr (Nat.lt_of_lt_of_le (h.length_lt_size hold heager) hsize)
      rw [h.eager_makeRoom_of_room hmax hroom, roomFor, if_pos hold]
      exact h
    | false =>
      rw [roomFor, if_neg (by simp [hold])]
      by_cases hfull : max ≤ c.size
      · exact h.makeRoom_of_full hmax hfull (h.contains_of_eager hold)
      · have hlt := Nat.lt_of_not_le hfull
        have hstay : c.makeRoom now = c := makeRoom_of_room (by simp [isFull, hmax, hlt])
        rw [hstay, h.eager_makeRoom_of_room hmax (Or.inr (Nat.lt_of_le_of_lt h.length_le_size hlt))]
        exact h

theorem put (h : Agrees now c r) (hnew : ∀ e ∈ r.entries, e.insertedAt < now) (key : Path) (value : α) :
    Agrees now (c.put key value now) (r.put key value now) := by
  have hroom := h.makeRoom key
  exact {
    ttl := hroom.ttl
    maxSize := hroom.maxSize
    counts := by
      show Stats.counts { (c.roomFor key now).stats with inserts := (c.roomFor key now).stats.inserts + 1 } =
        { (r.makeRoom key).counts with inserts := (r.makeRoom key).counts.inserts + 1 }
      rw [← hroom.counts]
      rfl
    held := by
      have hfresh : live (c.roomFor key now).ttl now [(⟨key, now, value⟩ : Entry α)] = [⟨key, now, value⟩] := by
        refine List.filter_eq_self.2 fun e he => ?_
        rw [List.mem_singleton.1 he, Bool.not_eq_true', isExpired_eq_false_iff]
        exact fun limit _ => by simp
      have hwrite := (write_alike hroom.distinct ⟨key, now, value⟩).live (c.roomFor key now).ttl now
      rw [live_append, hfresh, live_without] at hwrite
      exact hwrite.trans ((hroom.held.without key).append_singleton _)
    distinct := hroom.distinct.write _
    oldestFirst := by
      have hsub : (Cache.without key (r.makeRoom key).entries).Sublist (r.makeRoom key).entries := List.filter_sublist
      refine List.pairwise_append.2 ⟨hroom.oldestFirst.sublist hsub, List.pairwise_singleton _ _, fun e he f hf => ?_⟩
      rw [List.mem_singleton.1 hf]
      exact hnew e ((r.makeRoom_sublist key).subset (hsub.subset he))
    bounded := Bounded.put h.bounded h.distinct key value now }

theorem invalidate (h : Agrees now c r) (key : Path) : Agrees now (c.invalidate key).2 (r.invalidate key).2 where
  ttl := invalidate_bounds.1.trans h.ttl
  maxSize := invalidate_bounds.2.trans h.maxSize
  counts := by
    rw [show (r.invalidate key).2.counts = r.counts from rfl, ← h.counts]
    unfold Cache.invalidate
    split
    · rfl
    · rfl
  held := by
    rw [invalidate_bounds.1, entries_invalidate, live_without]
    exact h.held.without key
  distinct := h.distinct.sublist invalidate_sublist
  oldestFirst := h.oldestFirst.sublist List.filter_sublist
  bounded := Bounded.of_size_le h.bounded invalidate_bounds.2 invalidate_sublist.length_le

theorem clear (h : Agrees now c r) : Agrees now c.clear { r with entries := [] } where
  ttl := h.ttl
  maxSize := h.maxSize
  counts := h.counts
  held := Alike.refl _
  distinct := List.nodup_nil
  oldestFirst := List.Pairwise.nil
  bounded := Bounded.of_size_le h.bounded rfl (Nat.zero_le _)

/-- Whatever is asked of both, they give the same values and still agree. -/
theorem step (h : Agrees past c r) (hle : past ≤ now) (ask : Ask α)
    (hnew : ∀ key value, ask = .put key value → ∀ e ∈ r.entries, e.insertedAt < now) :
    Agrees now (c.step (ask.op now)).2 (r.step now ask).2 ∧
      (c.step (ask.op now)).1.looked? = (r.step now ask).1.looked? := by
  have hthen := h.expire hle
  cases ask with
  | put key value =>
    have hnew' : ∀ e ∈ (r.expire now).entries, e.insertedAt < now := fun e he =>
      hnew key value rfl e (live_sublist.subset he)
    exact ⟨hthen.put hnew' key value, rfl⟩
  | get key => exact ⟨hthen.get key, congrArg some (hthen.get_answers key).1⟩
  | invalidate key => exact ⟨hthen.invalidate key, rfl⟩
  | clear => exact ⟨hthen.clear, rfl⟩

end Agrees

/-! ## Histories -/

/-- The moments at which something is put. -/
def insertions (history : List (Nat × Ask α)) : List Nat :=
  history.filterMap fun (now, ask) =>
    match ask with
    | .put _ _ => some now
    | _ => none

theorem insertions_snoc (history : List (Nat × Ask α)) (now : Nat) (ask : Ask α) :
    insertions (history ++ [(now, ask)]) = insertions history ++ insertions [(now, ask)] := List.filterMap_append

theorem insertions_subset (history : List (Nat × Ask α)) : insertions history ⊆ history.map (·.1) := by
  intro now hnow
  obtain ⟨⟨t, ask⟩, hmem, hput⟩ := List.mem_filterMap.1 hnow
  refine List.mem_map.2 ⟨(t, ask), hmem, ?_⟩
  cases ask with
  | put key value => exact Option.some.inj hput
  | get key => contradiction
  | invalidate key => contradiction
  | clear => contradiction

/-- An entry of the eager cache was put at its moment. -/
theorem Eager.insertedAt_mem_insertions (history : List (Nat × Ask α)) :
    ∀ e ∈ ((Eager.empty ttl maxSize).run history).2.entries, e.insertedAt ∈ insertions history := by
  induction history using List.reverseRecOn with
  | nil => exact nofun
  | append_singleton history request ih =>
    obtain ⟨now, ask⟩ := request
    intro e he
    rw [Eager.run_snoc] at he
    rw [insertions_snoc]
    have hold : e ∈ ((Eager.empty ttl maxSize).run history).2.entries →
        e.insertedAt ∈ insertions history ++ insertions [(now, ask)] := fun he => List.mem_append_left _ (ih e he)
    cases ask with
    | put key value =>
      rcases List.mem_append.1 he with he | he
      · exact hold (live_sublist.subset ((Eager.makeRoom_sublist _ _).subset (List.filter_sublist.subset he)))
      · rw [List.mem_singleton.1 he]
        simp [insertions]
    | get key =>
      replace he : e ∈ ((((Eager.empty ttl maxSize).run history).2.expire now).get key).2.entries := he
      rw [(Eager.get_keeps _ key).1] at he
      exact hold (live_sublist.subset he)
    | invalidate key => exact hold (live_sublist.subset (List.filter_sublist.subset he))
    | clear => contradiction

/-- In every course a cache agrees with the eager one, as of a moment that no later request comes before. -/
theorem Course.agrees {ops : List (Op α)} {answers : List (Answer α)} {c : Cache α}
    (hcourse : Course (empty ttl maxSize) ops answers c) (history : List (Nat × Ask α))
    (hops : ops = history.map fun (now, ask) => ask.op now) (htimes : (history.map (·.1)).Pairwise (· ≤ ·))
    (hdistinct : (insertions history).Nodup) :
    ∃ last, (∀ now, (∀ past ∈ history.map (·.1), past ≤ now) → last ≤ now) ∧
      Agrees last c ((Eager.empty ttl maxSize).run history).2 ∧
      answers.filterMap Answer.looked? = ((Eager.empty ttl maxSize).run history).1.filterMap Answer.looked? := by
  induction hcourse generalizing history with
  | nil =>
    obtain rfl := List.map_eq_nil_iff.1 hops.symm
    exact ⟨0, fun _ _ => Nat.zero_le _, Agrees.empty ttl maxSize, rfl⟩
  | reorder _ hperm ih =>
    obtain ⟨last, hlast, hagrees, hsame⟩ := ih history hops htimes hdistinct
    exact ⟨last, hlast, hagrees.reorder hperm, hsame⟩
  | @step ops answers c _ op ih =>
    obtain ⟨history, rest, rfl, hhistory, hrest⟩ := List.map_eq_append_iff.1 hops.symm
    obtain ⟨⟨now, ask⟩, rfl, rfl⟩ := List.map_eq_singleton_iff.1 hrest
    rw [List.map_append, List.pairwise_append] at htimes
    obtain ⟨htimes, -, hbefore⟩ := htimes
    have hpast : ∀ past ∈ history.map (·.1), past ≤ now := fun past hmem => hbefore past hmem now (by simp)
    rw [insertions_snoc, List.nodup_append] at hdistinct
    obtain ⟨hdistinct, -, hother⟩ := hdistinct
    obtain ⟨last, hlast, hagrees, hsame⟩ := ih history hhistory.symm htimes hdistinct
    have hnew : ∀ key value, ask = .put key value →
        ∀ e ∈ ((Eager.empty ttl maxSize).run history).2.entries, e.insertedAt < now := by
      rintro key value rfl e he
      have hmem := Eager.insertedAt_mem_insertions history e he
      exact Nat.lt_of_le_of_ne (hpast _ (insertions_subset history hmem)) (hother _ hmem now (by simp [insertions]))
    obtain ⟨hagrees, hanswer⟩ := hagrees.step (hlast now hpast) ask hnew
    refine ⟨now, fun later hlater => hlater now (by simp), ?_, ?_⟩
    · rw [Eager.run_snoc]
      exact hagrees
    · rw [Eager.run_snoc, List.filterMap_append, List.filterMap_append, hsame]
      simp only [List.filterMap_cons, hanswer]

/-- Lazy expiry cannot be observed. Whatever is put, looked up, invalidated and cleared at moments that do not go back,
no two values at one moment: the look-ups are answered, and hits, misses, inserts and evictions are counted, as if every
expired entry were dropped before each request. And from then on the same entries have not expired. -/
theorem lazy_expiry_unobservable {answers : List (Answer α)} {c : Cache α} (history : List (Nat × Ask α))
    (htimes : (history.map (·.1)).Pairwise (· ≤ ·)) (hdistinct : (insertions history).Nodup)
    (hcourse : Course (empty ttl maxSize) (history.map fun (now, ask) => ask.op now) answers c) :
    answers.filterMap Answer.looked? = ((Eager.empty ttl maxSize).run history).1.filterMap Answer.looked? ∧
    c.stats.counts = ((Eager.empty ttl maxSize).run history).2.counts ∧
    ∀ now, (∀ past ∈ history.map (·.1), past ≤ now) →
      Alike (live ttl now c.entries) (live ttl now ((Eager.empty ttl maxSize).run history).2.entries) := by
  obtain ⟨last, hlast, hagrees, hsame⟩ := hcourse.agrees history rfl htimes hdistinct
  refine ⟨hsame, hagrees.counts, fun now hnow => ?_⟩
  have hthen := (hagrees.expire (hlast now hnow)).held
  rw [hcourse.ttl] at hthen
  have httl : ((Eager.empty ttl maxSize).run history).2.ttl = ttl := hagrees.ttl.symm.trans hcourse.ttl
  have hexpire : (((Eager.empty ttl maxSize).run history).2.expire now).entries =
      live ttl now ((Eager.empty ttl maxSize).run history).2.entries := by
    rw [Eager.expire, httl]
  rw [← hexpire]
  exact hthen

/-- A cache of two. The entry of `/a` has expired when it is written over, and nothing leaves for that; `/b` leaves for
`/d`, though it has not expired; `/a` and `/d` have when `/e` needs their room. -/
theorem lazy_expiry_unobservable_of_two :
    let history : List (Nat × Ask Nat) :=
      [(0, .put ⟨"/a"⟩ 1), (3, .put ⟨"/b"⟩ 2), (7, .put ⟨"/a"⟩ 3), (8, .put ⟨"/d"⟩ 4), (8, .get ⟨"/b"⟩),
        (13, .get ⟨"//d"⟩), (20, .put ⟨"/e"⟩ 5), (21, .get ⟨"/e"⟩), (21, .invalidate ⟨"/b"⟩), (24, .get ⟨"/a"⟩)]
    ∃ answers c, Course (empty (some 5) (some 2)) (history.map fun (now, ask) => ask.op now) answers c ∧
      answers.filterMap Answer.looked? = [none, some 4, some 5, none] ∧ c.stats.counts = ⟨2, 2, 5, 1⟩ ∧
      (live (some 5) 25 c.entries).length = 1 ∧ (live (some 5) 26 c.entries).length = 0 := by
  intro history
  have hcourse := course_run (empty (some 5) (some 2)) (history.map fun (now, ask) => ask.op now)
  obtain ⟨hsame, hcounts, halike⟩ := lazy_expiry_unobservable history (by decide +kernel) (by decide +kernel) hcourse
  refine ⟨_, _, hcourse, hsame.trans (by decide +kernel), hcounts.trans (by decide +kernel), ?_, ?_⟩
  · exact (halike 25 (by decide)).length_eq.trans (by decide +kernel)
  · exact (halike 26 (by decide)).length_eq.trans (by decide +kernel)

end RemoteFacts.Cache
