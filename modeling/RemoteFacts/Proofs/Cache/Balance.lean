import Mathlib.Data.List.Permutation
import RemoteFacts.Fact
import RemoteFacts.Proofs.Cache.Eviction

/-!
# The counters of a cache as an account of its entries

Every entry that was ever put into a cache is still in it or has left it once, for one of four causes. What leaves is
read off the entries before and after a request, not off the counters.

* `Turn`, `Turn.gone`, `Turn.cause` : a request in the cache that it meets, the entries that it takes, and why;
* `Turn.Balanced`, `Turn.balanced` : the account of one request;
* `Turns` : a history with the cache that each request has met (`Course.exists_turns` : every course has one);
* `Balances`, `Turns.balances` : the account of a history;
* `FactStore.Request`, `FactStore.Course` : what is asked of both caches of a store (`Course.existence`,
  `Course.truename` : each of them serves a course of its own);
* `counters_account_for_entries` : the counters of every cache, and of both caches of every store, are this account.
-/

namespace RemoteFacts.Cache

variable {α : Type} {start c : Cache α} {ops : List (Op α)} {answers : List (Answer α)} {key : Path} {value : α}
    {now : Nat}
  {e : Entry α} {ttl maxSize : Option Nat}

/-- The entry of a path, and all others. -/
theorem KeysDistinct.perm_without {es : List (Entry α)} (hdistinct : KeysDistinct es) (he : e ∈ es)
    (hk : (e.key == key) = true) : es.Perm ([e] ++ without key es) := by
  have hsplit := (List.filter_append_perm (·.key == key) es).symm
  rwa [hdistinct.filter_eq_singleton he hk] at hsplit

/-! ## One request -/

/-- Why an entry leaves. -/
inductive Cause where
  /-- Another value has been put under its path. -/
  | replaced
  /-- Its time was over when it was looked up, or when room was made. -/
  | aged
  /-- Its time was not over, and room was made. -/
  | evicted
  /-- Its path, or everything, was dropped. -/
  | dropped
  deriving DecidableEq

/-- A request, and the cache that it meets. -/
structure Turn (α : Type) where
  before : Cache α
  request : Op α

namespace Turn

variable {t : Turn α} {left kept new : List (Entry α)} {why : Cause}

/-- The cache after the request. -/
def after (t : Turn α) : Cache α := (t.before.step t.request).2

/-- What the request is answered. -/
def answer (t : Turn α) : Answer α := (t.before.step t.request).1

/-- The entry that is put in. -/
def recorded (t : Turn α) : List (Entry α) :=
  match t.request with
  | .put key value now => [⟨key, now, value⟩]
  | _ => []

/-- Whether the request writes over an entry. -/
def writesOver (t : Turn α) (e : Entry α) : Bool :=
  match t.request with
  | .put key _ _ => e.key == key
  | _ => false

/-- Whether the request replaces an entry that is there. -/
def replaces (t : Turn α) : Bool := t.before.entries.any t.writesOver

/-- The entries that the request takes: those that it writes over, and those whose path has none after it. -/
def gone (t : Turn α) : List (Entry α) := t.before.entries.filter fun e => t.writesOver e || !t.after.contains e.key

/-- Why the request takes an entry, if it does. -/
def cause (t : Turn α) (e : Entry α) : Cause :=
  match t.request with
  | .put key _ now => if e.key == key then .replaced else if e.isExpired t.before.ttl now then .aged else .evicted
  | .get _ _ => .aged
  | .invalidate _ => .dropped
  | .clear => .dropped

/-- The entries that the request takes for one cause. -/
def goneFor (why : Cause) (t : Turn α) : List (Entry α) := t.gone.filter (t.cause · == why)

/-- Whether a look-up is answered by a value. -/
def hits (t : Turn α) : Bool := match t.answer with
  | .value (some _) => true
  | _ => false

/-- Whether a look-up is answered by none. -/
def misses (t : Turn α) : Bool := match t.answer with
  | .value none => true
  | _ => false

/-- What one request does to the entries and the counters. -/
structure Balanced (t : Turn α) : Prop where
  conserved : Alike (t.before.entries ++ t.recorded) (t.after.entries ++ t.gone)
  inserts : t.after.stats.inserts = t.before.stats.inserts + t.recorded.length
  evictions : t.after.stats.evictions = t.before.stats.evictions + (t.goneFor .evicted).length
  expirations : t.after.stats.expirations = t.before.stats.expirations + (t.goneFor .aged).length
  invalidations : t.after.stats.invalidations = t.before.stats.invalidations + (t.goneFor .dropped).length
  replaced : (t.goneFor .replaced).length = t.replaces.toNat
  hits : t.after.stats.hits = t.before.stats.hits + t.hits.toNat
  misses : t.after.stats.misses = t.before.stats.misses + t.misses.toNat
  /-- What leaves for its age has expired at the moment of the request, and what is evicted has not. -/
  aged : ∀ e ∈ t.goneFor .aged, ∃ now, t.request.moment? = some now ∧ e.isExpired t.before.ttl now = true
  young : ∀ e ∈ t.goneFor .evicted, ∃ now, t.request.moment? = some now ∧ e.isExpired t.before.ttl now = false

/-- An entry leaves for one cause. -/
theorem length_gone (t : Turn α) : t.gone.length = (t.goneFor .replaced).length + (t.goneFor .aged).length +
    (t.goneFor .evicted).length + (t.goneFor .dropped).length := by
  unfold goneFor
  induction t.gone with
  | nil => rfl
  | cons e es ih =>
    simp only [List.filter_cons, List.length_cons, ih]
    cases t.cause e <;> simp <;> omega

/-- A request takes `left` and lets `kept` stay, beside which `new` comes in. -/
structure Parts (t : Turn α) (left kept new : List (Entry α)) : Prop where
  before : t.before.entries.Perm (left ++ kept)
  after : t.after.entries.Perm (new ++ kept)
  added : Alike new t.recorded
  stay : ∀ e ∈ kept, t.writesOver e = false
  /-- No entry that comes in is of the path of one that leaves, unless it is written over. -/
  leave : ∀ e ∈ left, t.writesOver e = true ∨ ∀ n ∈ new, (n.key == e.key) = false

theorem Parts.gone_perm (h : t.Parts left kept new) (hdistinct : KeysDistinct t.before.entries) : t.gone.Perm left := by
  have hapart := hdistinct.perm h.before.symm
  unfold KeysDistinct at hapart
  rw [List.map_append, List.nodup_append] at hapart
  obtain ⟨-, -, hapart⟩ := hapart
  have hleft : left.filter (fun e => t.writesOver e || !t.after.contains e.key) = left := by
    refine List.filter_eq_self.2 fun e he => ?_
    rcases h.leave e he with hover | hnew
    · rw [hover, Bool.true_or]
    · have hnone : t.after.contains e.key = false := by
        refine List.any_eq_false.2 fun f hf hk => ?_
        rcases List.mem_append.1 (h.after.mem_iff.1 hf) with hf | hf
        · exact Bool.false_ne_true ((hnew f hf).symm.trans hk)
        · exact hapart _ (List.mem_map_of_mem he) _ (List.mem_map_of_mem hf) (Path.beq_iff.1 hk).symm
      rw [hnone, Bool.not_false, Bool.or_true]
  have hkept : kept.filter (fun e => t.writesOver e || !t.after.contains e.key) = [] := by
    refine List.filter_eq_nil_iff.2 fun e he => ?_
    have hstill : t.after.contains e.key = true :=
      List.any_eq_true.2 ⟨e, h.after.mem_iff.2 (List.mem_append_right _ he), BEq.rfl⟩
    rw [h.stay e he, hstill]
    exact Bool.false_ne_true
  have hperm := h.before.filter fun e => t.writesOver e || !t.after.contains e.key
  rwa [List.filter_append, hleft, hkept, List.append_nil] at hperm

/-- Nothing gets lost. -/
theorem Parts.conserved (h : t.Parts left kept new) (hdistinct : KeysDistinct t.before.entries) :
    Alike (t.before.entries ++ t.recorded) (t.after.entries ++ t.gone) := by
  have hbefore : Alike (t.before.entries ++ t.recorded) (left ++ kept ++ new) := by
    unfold Alike
    rw [List.map_append, List.map_append]
    exact (h.before.map _).append h.added.symm
  have hafter : (t.after.entries ++ t.gone).Perm (new ++ kept ++ left) := h.after.append (h.gone_perm hdistinct)
  have hswap : (left ++ kept ++ new).Perm (new ++ kept ++ left) := by
    refine List.perm_append_comm.trans ?_
    rw [List.append_assoc]
    exact List.perm_append_comm.append_left new
  exact hbefore.trans ((Alike.of_perm hswap).trans (Alike.of_perm hafter).symm)

/-- What a request takes for one cause only is counted under this cause only. -/
theorem Parts.length_goneFor (h : t.Parts left kept new) (hdistinct : KeysDistinct t.before.entries)
    (hcause : ∀ e ∈ left, t.cause e = why) (other : Cause) :
    (t.goneFor other).length = if why = other then left.length else 0 := by
  have hperm : (t.goneFor other).Perm (left.filter (t.cause · == other)) := (h.gone_perm hdistinct).filter _
  rw [hperm.length_eq]
  split
  · next hsame =>
    rw [List.filter_eq_self.2 fun e he => by rw [hcause e he, hsame]; exact beq_self_eq_true other]
  · next hne =>
    rw [List.filter_eq_nil_iff.2 fun e he => by rw [hcause e he]; exact fun hk => hne (eq_of_beq hk)]
    rfl

theorem Parts.mem_of_goneFor (h : t.Parts left kept new) (hdistinct : KeysDistinct t.before.entries)
    (he : e ∈ t.goneFor why) : e ∈ left ∧ t.cause e = why := by
  obtain ⟨he, hcause⟩ := List.mem_filter.1 he
  exact ⟨(h.gone_perm hdistinct).mem_iff.1 he, eq_of_beq hcause⟩

/-- The counters after a request that takes `n` entries for one cause. -/
def counted (t : Turn α) (why : Cause) (n : Nat) : Stats where
  hits := t.before.stats.hits + t.hits.toNat
  misses := t.before.stats.misses + t.misses.toNat
  inserts := t.before.stats.inserts + t.recorded.length
  evictions := t.before.stats.evictions + if why = .evicted then n else 0
  expirations := t.before.stats.expirations + if why = .aged then n else 0
  invalidations := t.before.stats.invalidations + if why = .dropped then n else 0

/-- What the age of an entry has to do with the cause for which it leaves. -/
def Timely (t : Turn α) (why : Cause) (e : Entry α) : Prop :=
  match why with
  | .aged => ∃ now, t.request.moment? = some now ∧ e.isExpired t.before.ttl now = true
  | .evicted => ∃ now, t.request.moment? = some now ∧ e.isExpired t.before.ttl now = false
  | _ => True

/-- A request that takes all that it takes for one cause is balanced if its counters are. -/
theorem Parts.balanced (h : t.Parts left kept new) (why : Cause) (hdistinct : KeysDistinct t.before.entries)
    (hcause : ∀ e ∈ left, t.cause e = why) (hstats : t.after.stats = t.counted why left.length)
    (hreplaced : (if why = .replaced then left.length else 0) = t.replaces.toNat)
    (htimely : ∀ e ∈ left, t.Timely why e) : t.Balanced := by
  have hcount := h.length_goneFor hdistinct hcause
  refine ⟨h.conserved hdistinct, ?_, ?_, ?_, ?_, ?_, ?_, ?_, fun e he => ?_, fun e he => ?_⟩
  · rw [hstats, counted]
  · rw [hstats, counted, hcount]
  · rw [hstats, counted, hcount]
  · rw [hstats, counted, hcount]
  · rw [hcount, hreplaced]
  · rw [hstats, counted]
  · rw [hstats, counted]
  · obtain ⟨he, hwhy⟩ := h.mem_of_goneFor hdistinct he
    obtain rfl := (hcause e he).symm.trans hwhy
    exact htimely e he
  · obtain ⟨he, hwhy⟩ := h.mem_of_goneFor hdistinct he
    obtain rfl := (hcause e he).symm.trans hwhy
    exact htimely e he

/-- A request that puts nothing in is balanced if its counters are. -/
theorem balanced_of_taking (why : Cause) (hdistinct : KeysDistinct t.before.entries)
    (hbefore : t.before.entries.Perm (left ++ kept)) (hafter : t.after.entries = kept) (hnone : t.recorded = [])
    (hover : ∀ e, t.writesOver e = false) (hwhy : why ≠ .replaced) (hcause : ∀ e ∈ left, t.cause e = why)
    (hstats : t.after.stats = t.counted why left.length) (htimely : ∀ e ∈ left, t.Timely why e) : t.Balanced := by
  have hparts : t.Parts left kept [] := by
    refine ⟨hbefore, ?_, ?_, fun e _ => hover e, fun _ _ => Or.inr (List.forall_mem_nil _)⟩
    · rw [hafter, List.nil_append]
    · rw [hnone]
      exact Alike.refl []
  have hreplaces : t.replaces = false := List.any_eq_false.2 fun e _ => by rw [hover e]; exact Bool.false_ne_true
  refine hparts.balanced why hdistinct hcause hstats ?_ htimely
  rw [if_neg hwhy, hreplaces]
  rfl

/-- A request that leaves the entries alone is balanced if its counters are. -/
theorem balanced_of_idle (hdistinct : KeysDistinct t.before.entries) (hafter : t.after.entries = t.before.entries)
    (hnone : t.recorded = []) (hover : ∀ e, t.writesOver e = false) (hstats : t.after.stats = t.counted .dropped 0) :
    t.Balanced :=
  have hbefore : t.before.entries.Perm ([] ++ t.before.entries) := List.Perm.refl _
  balanced_of_taking .dropped hdistinct hbefore hafter hnone hover (by decide) (List.forall_mem_nil _) hstats
    (List.forall_mem_nil _)

/-! ### Each kind of request -/

theorem balanced_get (hdistinct : KeysDistinct c.entries) (key : Path) (now : Nat) :
    (Turn.mk c (.get key now)).Balanced := by
  cases hfound : c.find? key with
  | none =>
    have hget : c.get key now = (none, { c with stats := { c.stats with misses := c.stats.misses + 1 } }) := by
      rw [get, hfound]
    refine balanced_of_idle hdistinct ?_ rfl (fun _ => rfl) ?_
    · simp [after, step, hget]
    · simp [after, counted, answer, hits, misses, recorded, step, hget]
  | some e =>
    obtain ⟨he, hk⟩ := hdistinct.find?_eq_some_iff.1 hfound
    cases hexpired : e.isExpired c.ttl now with
    | false =>
      have hget : c.get key now = (some e.value, { c with stats := { c.stats with hits := c.stats.hits + 1 } }) := by
        rw [get, hfound]
        simp [hexpired]
      refine balanced_of_idle hdistinct ?_ rfl (fun _ => rfl) ?_
      · simp [after, step, hget]
      · simp [after, counted, answer, hits, misses, recorded, step, hget]
    | true =>
      have hget : c.get key now = (none, { c with
          entries := without key c.entries
          stats := { c.stats with misses := c.stats.misses + 1, expirations := c.stats.expirations + 1 } }) := by
        rw [get, hfound]
        simp [hexpired]
      refine balanced_of_taking .aged hdistinct (hdistinct.perm_without he hk) ?_ rfl (fun _ => rfl) (by decide)
        (fun _ _ => rfl) ?_ (fun f hf => ?_)
      · simp [after, step, hget]
      · simp [after, counted, answer, hits, misses, recorded, step, hget]
      · rw [List.mem_singleton.1 hf]
        exact ⟨now, rfl, hexpired⟩

theorem balanced_invalidate (hdistinct : KeysDistinct c.entries) (key : Path) :
    (Turn.mk c (.invalidate key)).Balanced := by
  cases hthere : c.contains key with
  | false =>
    have hsame : c.invalidate key = (false, c) := by rw [invalidate, hthere, if_neg Bool.false_ne_true]
    refine balanced_of_idle hdistinct ?_ rfl (fun _ => rfl) ?_
    · simp [after, step, hsame]
    · simp [after, counted, answer, hits, misses, recorded, step, hsame]
  | true =>
    obtain ⟨e, he, hk⟩ := List.any_eq_true.1 hthere
    have hdrop : c.invalidate key = (true, { c with
        entries := without key c.entries
        stats := { c.stats with invalidations := c.stats.invalidations + 1 } }) := by
      rw [invalidate, hthere, if_pos rfl]
    refine balanced_of_taking .dropped hdistinct (hdistinct.perm_without he hk) ?_ rfl (fun _ => rfl) (by decide)
      (fun _ _ => rfl) ?_ fun _ _ => trivial
    · simp [after, step, hdrop]
    · simp [after, counted, answer, hits, misses, recorded, step, hdrop]

theorem balanced_clear (hdistinct : KeysDistinct c.entries) : (Turn.mk c .clear).Balanced := by
  have hbefore : c.entries.Perm (c.entries ++ []) := by rw [List.append_nil]
  refine balanced_of_taking .dropped hdistinct hbefore rfl rfl (fun _ => rfl) (by decide) (fun _ _ => rfl) ?_
    fun _ _ => trivial
  simp [after, counted, answer, hits, misses, recorded, step, clear, size]

theorem ne_of_new (hnew : c.contains key = false) (he : e ∈ c.entries) : (e.key == key) = false :=
  Bool.eq_false_iff.2 (List.any_eq_false.1 hnew e he)

/-- What a path that is there takes in a cache is its own entry. -/
theorem parts_of_old {old : Entry α} (hdistinct : KeysDistinct c.entries) (hold : old ∈ c.entries)
    (hkey : (old.key == key) = true)
    (hafter : (c.put key value now).entries.Perm (⟨old.key, now, value⟩ :: without key c.entries)) :
    (Turn.mk c (.put key value now)).Parts [old] (without key c.entries) [⟨old.key, now, value⟩] := by
  refine ⟨hdistinct.perm_without hold hkey, hafter, ?_, fun e he => (mem_without.1 he).2, fun e he => Or.inl ?_⟩
  · have hcontent : (Entry.mk old.key now value).content = (Entry.mk key now value).content := by
      simp [Entry.content, Path.beq_iff.1 hkey]
    show [(Entry.mk old.key now value).content].Perm [(Entry.mk key now value).content]
    rw [hcontent]
  · rw [List.mem_singleton.1 he]
    exact hkey

/-- What a new path takes in a cache is none of its own. -/
theorem parts_of_new (hnew : c.contains key = false) (hbefore : c.entries.Perm (left ++ kept))
    (hafter : (c.put key value now).entries.Perm (⟨key, now, value⟩ :: kept)) :
    (Turn.mk c (.put key value now)).Parts left kept [⟨key, now, value⟩] := by
  refine ⟨hbefore, hafter, Alike.refl _, fun e he => ?_, fun e he => Or.inr fun n hn => ?_⟩
  · exact ne_of_new hnew (hbefore.mem_iff.2 (List.mem_append_right _ he))
  · rw [List.mem_singleton.1 hn]
    show (key == e.key) = false
    rw [BEq.comm]
    exact ne_of_new hnew (hbefore.mem_iff.2 (List.mem_append_left _ he))

theorem replaces_of_new (hnew : c.contains key = false) : (Turn.mk c (.put key value now)).replaces = false := hnew

theorem cause_of_new (hnew : c.contains key = false) (he : e ∈ c.entries) :
    (Turn.mk c (.put key value now)).cause e = if e.isExpired c.ttl now then .aged else .evicted := by
  show (if e.key == key then Cause.replaced else _) = _
  rw [ne_of_new hnew he, if_neg Bool.false_ne_true]

/-- A `put` takes the entry that it writes over, or what has to make room, for its age or for its place in the order of
age. -/
theorem balanced_put (hdistinct : KeysDistinct c.entries) (hbounded : Bounded c) (key : Path) (value : α) (now : Nat) :
    (Turn.mk c (.put key value now)).Balanced := by
  have hstats : ∀ {why n}, (c.put key value now).stats = { c.stats with
      inserts := c.stats.inserts + 1
      evictions := c.stats.evictions + if why = Cause.evicted then n else 0
      expirations := c.stats.expirations + if why = Cause.aged then n else 0
      invalidations := c.stats.invalidations + if why = Cause.dropped then n else 0 } →
      (Turn.mk c (.put key value now)).after.stats = (Turn.mk c (.put key value now)).counted why n := fun h => h
  cases put_puts hdistinct hbounded key value now with
  | inPlace old hold hkey hafter hcounted =>
    have hthere : (Turn.mk c (.put key value now)).replaces = true := List.any_eq_true.2 ⟨old, hold, hkey⟩
    refine (parts_of_old hdistinct hold hkey hafter).balanced .replaced hdistinct (fun e he => ?_) (hstats hcounted) ?_
      fun _ _ => trivial
    · rw [List.mem_singleton.1 he]
      exact if_pos hkey
    · rw [hthere]
      rfl
  | beside hnew hroom hafter hcounted =>
    have hbefore : c.entries.Perm ([] ++ c.entries) := List.Perm.refl _
    have hparts := parts_of_new hnew hbefore hafter
    refine hparts.balanced .replaced hdistinct (List.forall_mem_nil _) (hstats hcounted) ?_ fun _ _ => trivial
    rw [replaces_of_new hnew]
    rfl
  | afterExpired gone hnew hfull hgone hsome hafter hcounted =>
    have hexpired : ∀ e ∈ gone, e ∈ c.entries ∧ e.isExpired c.ttl now = true := by
      rw [hgone]
      exact fun e he => List.mem_filter.1 he
    have hbefore : c.entries.Perm (gone ++ c.entries.filter fun e => !e.isExpired c.ttl now) := by
      rw [hgone]
      exact (List.filter_append_perm _ _).symm
    refine (parts_of_new hnew hbefore hafter).balanced .aged hdistinct (fun e he => ?_) (hstats hcounted) ?_
      fun e he => ⟨now, rfl, (hexpired e he).2⟩
    · rw [cause_of_new hnew (hexpired e he).1, (hexpired e he).2]
      rfl
    · rw [replaces_of_new hnew]
      rfl
  | afterOldest gone others hnew hfull hnone hbefore hcount hage hafter hcounted =>
    have hlive : ∀ e ∈ gone, e ∈ c.entries ∧ e.isExpired c.ttl now = false := fun e he =>
      have hmem := hbefore.mem_iff.2 (List.mem_append_left _ he)
      ⟨hmem, hnone e hmem⟩
    refine (parts_of_new hnew hbefore hafter).balanced .evicted hdistinct (fun e he => ?_) (hstats hcounted) ?_
      fun e he => ⟨now, rfl, (hlive e he).2⟩
    · rw [cause_of_new hnew (hlive e he).1, (hlive e he).2]
      rfl
    · rw [replaces_of_new hnew]
      rfl

/-- Every request is balanced. -/
theorem balanced (hdistinct : KeysDistinct c.entries) (hbounded : Bounded c) (op : Op α) : (Turn.mk c op).Balanced := by
  cases op with
  | put key value now => exact balanced_put hdistinct hbounded key value now
  | get key now => exact balanced_get hdistinct key now
  | invalidate key => exact balanced_invalidate hdistinct key
  | clear => exact balanced_clear hdistinct

end Turn

/-! ## Histories -/

/-- A history of requests, each in the cache that it has met, and the cache after them; the entries may lie in any
order. -/
inductive Turns (start : Cache α) : List (Turn α) → Cache α → Prop
  | nil : Turns start [] start
  | step {log : List (Turn α)} {c : Cache α} (h : Turns start log c) (op : Op α) :
      Turns start (log ++ [⟨c, op⟩]) (c.step op).2
  | reorder {log : List (Turn α)} {c : Cache α} {entries : List (Entry α)} (h : Turns start log c)
      (hperm : entries.Perm c.entries) : Turns start log { c with entries }

variable {log : List (Turn α)}

theorem Course.exists_turns (h : Course start ops answers c) :
    ∃ log, Turns start log c ∧ log.map Turn.request = ops ∧ log.map Turn.answer = answers := by
  induction h with
  | nil => exact ⟨[], .nil, rfl, rfl⟩
  | step h op ih =>
    obtain ⟨log, hturns, rfl, rfl⟩ := ih
    refine ⟨log ++ [⟨_, op⟩], hturns.step op, ?_, ?_⟩
    · rw [List.map_append]
      rfl
    · rw [List.map_append]
      rfl
  | reorder _ hperm ih =>
    obtain ⟨log, hturns, hops, hanswers⟩ := ih
    exact ⟨log, hturns.reorder hperm, hops, hanswers⟩

theorem Turns.course (h : Turns start log c) : Course start (log.map Turn.request) (log.map Turn.answer) c := by
  induction h with
  | nil => exact .nil
  | step h op ih =>
    rw [List.map_append, List.map_append]
    exact ih.step op
  | reorder _ hperm ih => exact ih.reorder hperm

/-- Whether a request looks something up. -/
def Op.looksUp : Op α → Bool
  | get _ _ => true
  | _ => false

/-- The counters of a cache are the account of its history. -/
structure Balances (log : List (Turn α)) (c : Cache α) : Prop where
  /-- Every entry that was ever put in is there or has left, and this once. -/
  conserved : Alike (log.flatMap Turn.recorded) (c.entries ++ log.flatMap Turn.gone)
  inserts : c.stats.inserts = (log.flatMap Turn.recorded).length
  evictions : c.stats.evictions = (log.flatMap (Turn.goneFor .evicted)).length
  expirations : c.stats.expirations = (log.flatMap (Turn.goneFor .aged)).length
  invalidations : c.stats.invalidations = (log.flatMap (Turn.goneFor .dropped)).length
  replaced : (log.flatMap (Turn.goneFor .replaced)).length = log.countP Turn.replaces
  hits : c.stats.hits = log.countP Turn.hits
  misses : c.stats.misses = log.countP Turn.misses
  /-- What leaves for its age has expired at the moment of the request, and what is evicted has not. -/
  aged : ∀ t ∈ log, ∀ e ∈ t.goneFor .aged, ∃ now, t.request.moment? = some now ∧ e.isExpired c.ttl now = true
  young : ∀ t ∈ log, ∀ e ∈ t.goneFor .evicted, ∃ now, t.request.moment? = some now ∧ e.isExpired c.ttl now = false

theorem length_flatMap_snoc {β : Type} (f : Turn α → List β) (log : List (Turn α)) (t : Turn α) :
    ((log ++ [t]).flatMap f).length = (log.flatMap f).length + (f t).length := by
  rw [List.flatMap_append, List.length_append, List.flatMap_singleton]

theorem countP_snoc (p : Turn α → Bool) (log : List (Turn α)) (t : Turn α) :
    (log ++ [t]).countP p = log.countP p + (p t).toNat := by
  rw [List.countP_append, List.countP_singleton]
  cases p t <;> rfl

/-- A look-up is answered by a value or by none, and nothing else is. -/
theorem Turn.hits_add_misses (t : Turn α) : t.hits.toNat + t.misses.toNat = t.request.looksUp.toNat := by
  obtain ⟨c, op⟩ := t
  cases op with
  | get key now =>
    unfold Turn.hits Turn.misses Turn.answer step
    dsimp only
    cases (c.get key now).1 with
    | none => rfl
    | some v => rfl
  | put key value now => rfl
  | invalidate key =>
    unfold Turn.hits Turn.misses Turn.answer step
    rfl
  | clear => rfl

/-- What a history has taken from a cache, cause by cause. -/
theorem length_flatMap_gone (log : List (Turn α)) : (log.flatMap Turn.gone).length =
    (log.flatMap (Turn.goneFor .replaced)).length + (log.flatMap (Turn.goneFor .aged)).length +
      (log.flatMap (Turn.goneFor .evicted)).length + (log.flatMap (Turn.goneFor .dropped)).length := by
  induction log with
  | nil => rfl
  | cons t log ih =>
    have hturn := t.length_gone
    simp only [List.flatMap_cons, List.length_append]
    omega

theorem balances_empty (ttl maxSize : Option Nat) : Balances [] (empty ttl maxSize : Cache α) :=
  ⟨Alike.refl [], rfl, rfl, rfl, rfl, rfl, rfl, rfl, List.forall_mem_nil _, List.forall_mem_nil _⟩

/-- A balanced request carries the account on. -/
theorem Balances.step (h : Balances log c) {op : Op α} (ht : (Turn.mk c op).Balanced) :
    Balances (log ++ [⟨c, op⟩]) (c.step op).2 := by
  have httl : (c.step op).2.ttl = c.ttl := step_bounds.1
  refine ⟨?_, ?_, ?_, ?_, ?_, ?_, ?_, ?_, ?_, ?_⟩
  · have hswap : ∀ as bs cs : List (Entry α), Alike (as ++ bs ++ cs) (as ++ cs ++ bs) := fun as bs cs => by
      rw [List.append_assoc, List.append_assoc]
      exact Alike.of_perm (List.perm_append_comm.append_left as)
    have hrecorded := (h.conserved.append (Alike.refl (Turn.mk c op).recorded)).trans (hswap _ _ _)
    have hgone := (ht.conserved.append (Alike.refl (log.flatMap Turn.gone))).trans (hswap _ _ _)
    rw [List.flatMap_append, List.flatMap_append, List.flatMap_singleton, List.flatMap_singleton, ← List.append_assoc]
    exact hrecorded.trans hgone
  · rw [length_flatMap_snoc, ← h.inserts]
    exact ht.inserts
  · rw [length_flatMap_snoc, ← h.evictions]
    exact ht.evictions
  · rw [length_flatMap_snoc, ← h.expirations]
    exact ht.expirations
  · rw [length_flatMap_snoc, ← h.invalidations]
    exact ht.invalidations
  · rw [length_flatMap_snoc, countP_snoc, h.replaced, ht.replaced]
  · rw [countP_snoc, ← h.hits]
    exact ht.hits
  · rw [countP_snoc, ← h.misses]
    exact ht.misses
  · rw [httl]
    intro t hlog e he
    rcases List.mem_append.1 hlog with hlog | hlog
    · exact h.aged t hlog e he
    · rw [List.mem_singleton.1 hlog] at he ⊢
      exact ht.aged e he
  · rw [httl]
    intro t hlog e he
    rcases List.mem_append.1 hlog with hlog | hlog
    · exact h.young t hlog e he
    · rw [List.mem_singleton.1 hlog] at he ⊢
      exact ht.young e he

/-- So does another order of the entries. -/
theorem Balances.reorder {entries : List (Entry α)} (h : Balances log c) (hperm : entries.Perm c.entries) :
    Balances log { c with entries } :=
  { h with conserved := h.conserved.trans (Alike.of_perm (hperm.symm.append_right _)) }

theorem Turns.balances (h : Turns (empty ttl maxSize) log c) : Balances log c := by
  induction h with
  | nil => exact balances_empty ttl maxSize
  | step h op ih =>
    have hdistinct := h.course.keysDistinct List.nodup_nil
    have hbounded := h.course.bounded (bounded_empty ttl maxSize) List.nodup_nil
    exact ih.step (Turn.balanced hdistinct hbounded op)
  | reorder _ hperm ih => exact ih.reorder hperm

/-- What was put in is there, or it was written over, or it is counted among what has left. -/
theorem Balances.total (h : Balances log c) : c.stats.inserts =
    c.size + c.stats.evictions + c.stats.expirations + c.stats.invalidations + log.countP Turn.replaces := by
  have hlength := h.conserved.length_eq
  rw [List.length_append, length_flatMap_gone, h.replaced, ← h.inserts, ← h.evictions, ← h.expirations,
    ← h.invalidations]
    at hlength
  unfold size
  omega

theorem Balances.lookUps (h : Balances log c) : c.stats.hits + c.stats.misses = log.countP (·.request.looksUp) := by
  rw [h.hits, h.misses]
  clear h
  induction log with
  | nil => rfl
  | cons t log ih =>
    have hturn := t.hits_add_misses
    simp only [List.countP_cons]
    cases h₁ : t.hits <;> cases h₂ : t.misses <;> cases h₃ : t.request.looksUp <;> simp [h₁, h₂, h₃] at hturn ⊢ <;>
      omega

/-- The counters of a cache that has served `ops` since it was empty account for all that it was asked to keep. -/
structure Account (ttl maxSize : Option Nat) (ops : List (Op α)) (c : Cache α) (log : List (Turn α)) : Prop extends
    Balances log c where
  turns : Turns (empty ttl maxSize) log c
  requests : log.map Turn.request = ops
  total : c.stats.inserts =
    c.size + c.stats.evictions + c.stats.expirations + c.stats.invalidations + log.countP Turn.replaces
  lookUps : c.stats.hits + c.stats.misses = ops.countP Op.looksUp

theorem Course.exists_account (h : Course (empty ttl maxSize) ops answers c) :
    ∃ log, Account ttl maxSize ops c log ∧ log.map Turn.answer = answers := by
  obtain ⟨log, hturns, rfl, rfl⟩ := h.exists_turns
  have hbalances := hturns.balances
  refine ⟨log, ⟨hbalances, hturns, rfl, hbalances.total, ?_⟩, rfl⟩
  rw [hbalances.lookUps, List.countP_map]
  rfl

end RemoteFacts.Cache

namespace RemoteFacts.FactStore

open Cache

variable {start s : FactStore} {requests : List Request} {ttl maxSize : Option Nat}

/-! ## Stores -/

/-- What is asked of a store, each at its moment. -/
inductive Request where
  | askExists (path : Path) (now : Nat)
  | recordExists (path : Path) (fact : Dated Bool) (now : Nat)
  | askTruename (path : Path) (now : Nat)
  | recordTruename (path : Path) (fact : Dated Path) (now : Nat)
  | invalidatePath (path : Path)
  | flush

/-- The store after a request. -/
def serve (s : FactStore) : Request → FactStore
  | .askExists path now => (s.exists? path now).2
  | .recordExists path fact now => s.recordExists path fact now
  | .askTruename path now => (s.truename? path now).2
  | .recordTruename path fact now => s.recordTruename path fact now
  | .invalidatePath path => s.invalidatePath path
  | .flush => s.flush

namespace Request

/-- What a change of a path asks of each cache. -/
def around {α : Type} (path : Path) : List (Op α) := .invalidate path :: path.parent?.toList.map .invalidate

/-- What a request asks of the cache of existence. -/
def onExistence : Request → List (Op (Dated Bool))
  | askExists path now => [.get path now]
  | recordExists path fact now => [.put path fact now]
  | invalidatePath path => around path
  | flush => [.clear]
  | _ => []

/-- What a request asks of the cache of true names. -/
def onTruename : Request → List (Op (Dated Path))
  | askTruename path now => [.get path now]
  | recordTruename path fact now => [.put path fact now]
  | invalidatePath path => around path
  | flush => [.clear]
  | _ => []

end Request

/-- The store `start` may be `s` after these requests; the entries of both caches may lie in any order. -/
inductive Course (start : FactStore) : List Request → FactStore → Prop where
  | nil : Course start [] start
  | serve {requests : List Request} {s : FactStore} (h : Course start requests s) (r : Request) :
      Course start (requests ++ [r]) (s.serve r)
  | reorder {requests : List Request} {s : FactStore} {existence : List (Entry (Dated Bool))}
      {truename : List (Entry (Dated Path))} (h : Course start requests s)
      (hexistence : existence.Perm s.existence.entries) (htruename : truename.Perm s.truename.entries) :
      Course start requests ⟨{ s.existence with entries := existence }, { s.truename with entries := truename }⟩

theorem dropAround_eq_foldl {α : Type} (path : Path) (c : Cache α) :
    dropAround path c = (Request.around path).foldl (fun c op => (c.step op).2) c := by
  unfold dropAround Request.around
  cases path.parent? <;> rfl

theorem existence_serve (s : FactStore) (r : Request) :
    (s.serve r).existence = r.onExistence.foldl (fun c op => (c.step op).2) s.existence := by
  cases r with
  | invalidatePath path => exact dropAround_eq_foldl path s.existence
  | _ => rfl

theorem truename_serve (s : FactStore) (r : Request) :
    (s.serve r).truename = r.onTruename.foldl (fun c op => (c.step op).2) s.truename := by
  cases r with
  | invalidatePath path => exact dropAround_eq_foldl path s.truename
  | _ => rfl

/-- The cache of existence serves a course of its own. -/
theorem Course.existence (h : Course start requests s) :
    ∃ answers, Cache.Course start.existence (requests.flatMap Request.onExistence) answers s.existence := by
  induction h with
  | nil => exact ⟨[], .nil⟩
  | serve _ r ih =>
    obtain ⟨answers, ih⟩ := ih
    have hserved := ih.append r.onExistence
    rw [← existence_serve] at hserved
    rw [List.flatMap_append, List.flatMap_singleton]
    exact ⟨_, hserved⟩
  | reorder _ hexistence _ ih =>
    obtain ⟨answers, ih⟩ := ih
    exact ⟨answers, ih.reorder hexistence⟩

/-- So does the cache of true names. -/
theorem Course.truename (h : Course start requests s) :
    ∃ answers, Cache.Course start.truename (requests.flatMap Request.onTruename) answers s.truename := by
  induction h with
  | nil => exact ⟨[], .nil⟩
  | serve _ r ih =>
    obtain ⟨answers, ih⟩ := ih
    have hserved := ih.append r.onTruename
    rw [← truename_serve] at hserved
    rw [List.flatMap_append, List.flatMap_singleton]
    exact ⟨_, hserved⟩
  | reorder _ _ htruename ih =>
    obtain ⟨answers, ih⟩ := ih
    exact ⟨answers, ih.reorder htruename⟩

end RemoteFacts.FactStore

namespace RemoteFacts.Cache

/-- After every history, at whatever moments and in whatever order the entries lie, the counters of a cache are the
account of its entries: each that was ever put in is there or has left once, and is counted for the one cause for which
it has left; what was put in is what is there, what was evicted, what has expired, what was dropped and what was written
over, and hits and misses are the look-ups. So they are in both caches of a store, whatever it was asked. -/
theorem counters_account_for_entries {α : Type} {ttl maxSize : Option Nat} :
    (∀ (ops : List (Op α)) (answers : List (Answer α)) (c : Cache α), Course (empty ttl maxSize) ops answers c →
      ∃ log, Account ttl maxSize ops c log ∧ log.map Turn.answer = answers) ∧
    ∀ (requests : List FactStore.Request) (s : FactStore), FactStore.Course (.empty ttl maxSize) requests s →
      (∃ log, Account ttl maxSize (requests.flatMap FactStore.Request.onExistence) s.existence log) ∧
      ∃ log, Account ttl maxSize (requests.flatMap FactStore.Request.onTruename) s.truename log := by
  refine ⟨fun ops answers c hcourse => hcourse.exists_account, fun requests s hcourse => ⟨?_, ?_⟩⟩
  · obtain ⟨answers, hexistence⟩ := hcourse.existence
    change Course (empty ttl maxSize) _ _ _ at hexistence
    obtain ⟨log, haccount, -⟩ := hexistence.exists_account
    exact ⟨log, haccount⟩
  · obtain ⟨answers, htruename⟩ := hcourse.truename
    change Course (empty ttl maxSize) _ _ _ at htruename
    obtain ⟨log, haccount, -⟩ := htruename.exists_account
    exact ⟨log, haccount⟩

/-- A cache of two. `/b` is written over, `/a` is looked up too late, `/b` is evicted for `/d`, both that are left
expire for `/e`, which is dropped, and what comes last is cleared: seven were put in, one was written over. -/
theorem counters_account_for_entries_of_seven :
    let ops : List (Op Nat) := [.put ⟨"/a"⟩ 0 0, .put ⟨"/b"⟩ 1 1, .put ⟨"/b/"⟩ 2 3, .get ⟨"/b"⟩ 4, .get ⟨"/a"⟩ 6,
      .put ⟨"/c"⟩ 3 6, .put ⟨"/d"⟩ 4 7, .put ⟨"/e"⟩ 5 20, .invalidate ⟨"/e"⟩, .get ⟨"/e"⟩ 20, .put ⟨"/f"⟩ 6 20, .clear]
    ∃ answers c log, Course (empty (some 5) (some 2)) ops answers c ∧ Account (some 5) (some 2) ops c log ∧
      c.stats = ⟨1, 2, 7, 1, 3, 2⟩ ∧ c.size = 0 ∧ log.countP Turn.replaces = 1 := by
  intro ops
  have hcourse := course_run (empty (some 5) (some 2)) ops
  obtain ⟨log, haccount, -⟩ := counters_account_for_entries.1 ops _ _ hcourse
  have hafter :
      (fun c : Cache Nat => (c.stats, c.size)) (ops.foldl (fun c op => (c.step op).2) (empty (some 5) (some 2))) =
      (⟨1, 2, 7, 1, 3, 2⟩, 0) := by cbv
  obtain ⟨hstats, hsize⟩ := Prod.mk.inj hafter
  have htotal := haccount.total
  rw [hstats, hsize] at htotal
  dsimp only at htotal
  refine ⟨_, _, log, hcourse, haccount, hstats, hsize, ?_⟩
  omega

end RemoteFacts.Cache
