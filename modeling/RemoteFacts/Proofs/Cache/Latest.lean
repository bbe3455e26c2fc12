import RemoteFacts.Proofs.Cache.Course
import RemoteFacts.Proofs.Cache.Room

/-!
# What a cache hits

* `Op.Ends`, `Standing` : a value stands from its `put` on until it is written over, dropped or cleared, whatever the
  clock says (`standing_snoc`, `Standing.unique`);
* `Course.standing` : every entry is of a value that stands;
* `Course.held_or_expired` : without a bound, every value that stands has an entry, or a later request came after its
  time;
* `hit_is_latest` : so a hit is the value that stands, and a value that stands is hit as long as it has not expired.
-/

namespace RemoteFacts.Cache

variable {α : Type} {start c : Cache α} {ops : List (Op α)} {answers : List (Answer α)} {op : Op α} {key : Path}
  {ttl maxSize : Option Nat} {now t : Nat} {v : α}

/-- The request ends what has been known of a path. -/
def Op.Ends (key : Path) : Op α → Prop
  | put k _ _ => (k == key) = true
  | get _ _ => False
  | invalidate k => (k == key) = true
  | clear => True

/-- The value `v` was put under a path at `t`, and nothing has ended it since. -/
def Standing (key : Path) (ops : List (Op α)) (t : Nat) (v : α) : Prop :=
  ∃ before k after, ops = before ++ Op.put k v t :: after ∧ (k == key) = true ∧ ∀ op ∈ after, ¬ op.Ends key

theorem standing_snoc : Standing key (ops ++ [op]) t v ↔
    Standing key ops t v ∧ ¬ op.Ends key ∨ ∃ k, op = .put k v t ∧ (k == key) = true := by
  constructor
  · rintro ⟨before, k, after, hsame, hk, hafter⟩
    rcases List.eq_nil_or_concat after with rfl | ⟨after, last, rfl⟩
    · obtain ⟨-, hlast⟩ := List.append_inj' hsame rfl
      exact Or.inr ⟨k, List.singleton_inj.1 hlast, hk⟩
    · rw [List.concat_eq_append, ← List.cons_append, ← List.append_assoc] at hsame
      obtain ⟨rfl, hlast⟩ := List.append_inj' hsame rfl
      obtain rfl := List.singleton_inj.1 hlast
      refine Or.inl ⟨⟨before, k, after, rfl, hk, fun op hop => hafter op ?_⟩, hafter _ ?_⟩
      · simp [hop]
      · simp
  · rintro (⟨⟨before, k, after, rfl, hk, hafter⟩, hop⟩ | ⟨k, rfl, hk⟩)
    · refine ⟨before, k, after ++ [op], by simp, hk, fun op' hop' => ?_⟩
      rcases List.mem_append.1 hop' with hop' | hop'
      · exact hafter op' hop'
      · rw [List.mem_singleton.1 hop']
        exact hop
    · exact ⟨ops, k, [], rfl, hk, nofun⟩

theorem Op.ends_congr {q : Path} (h : (key == q) = true) : op.Ends key ↔ op.Ends q := by
  cases op with
  | put k _ _ => rw [Ends, Ends, BEq.congr_right h]
  | get _ _ => exact Iff.rfl
  | invalidate k => rw [Ends, Ends, BEq.congr_right h]
  | clear => exact Iff.rfl

theorem Standing.congr {q : Path} (h : Standing key ops t v) (hq : (key == q) = true) : Standing q ops t v := by
  obtain ⟨before, k, after, rfl, hk, hafter⟩ := h
  exact ⟨before, k, after, rfl, BEq.trans hk hq, fun op hop hends => hafter op hop ((Op.ends_congr hq).2 hends)⟩

/-- No two values stand under one path. -/
theorem Standing.unique {t' : Nat} {v' : α} (h : Standing key ops t v) (h' : Standing key ops t' v') :
    t = t' ∧ v = v' := by
  induction ops using List.reverseRecOn with
  | nil =>
    obtain ⟨before, k, after, hsame, -⟩ := h
    simp at hsame
  | append_singleton ops op ih =>
    rcases standing_snoc.1 h with ⟨hold, hop⟩ | ⟨k, rfl, hk⟩
    · rcases standing_snoc.1 h' with ⟨hold', -⟩ | ⟨k, rfl, hk⟩
      · exact ih hold hold'
      · exact absurd hk hop
    · rcases standing_snoc.1 h' with ⟨-, hop⟩ | ⟨k', hput, -⟩
      · exact absurd hk hop
      · cases hput
        exact ⟨rfl, rfl⟩

theorem isExpired_iff {e : Entry α} :
    e.isExpired ttl now = true ↔ ∃ limit, ttl = some limit ∧ limit < now - e.insertedAt := by
  unfold Entry.isExpired
  cases ttl with
  | none => simp
  | some limit => simp

theorem isExpired_eq_false_iff {e : Entry α} :
    e.isExpired ttl now = false ↔ ∀ limit, ttl = some limit → now - e.insertedAt ≤ limit := by
  rw [← Bool.not_eq_true, isExpired_iff]
  simp

/-! ## Courses -/

/-- Every entry is of a value that stands. -/
theorem Course.standing (h : Course (empty ttl maxSize) ops answers c) :
    ∀ e ∈ c.entries, Standing e.key ops e.insertedAt e.value := by
  induction h with
  | nil => exact nofun
  | reorder _ hperm ih => exact fun e he => ih e (hperm.mem_iff.1 he)
  | @step ops answers c _ op ih =>
    intro e he
    rw [standing_snoc]
    cases op with
    | put key value now =>
      rcases old_or_new_of_mem_put he with ⟨hold, hk⟩ | ⟨hk, hnow, hvalue⟩
      · refine Or.inl ⟨ih e (roomFor_sublist.subset hold), ?_⟩
        simpa [Op.Ends, BEq.comm] using hk
      · exact Or.inr ⟨key, by rw [hnow, hvalue], BEq.symm hk⟩
    | get key now => exact Or.inl ⟨ih e (mem_of_mem_get he), not_false⟩
    | invalidate key =>
      obtain ⟨hold, hk⟩ := mem_invalidate.1 he
      refine Or.inl ⟨ih e hold, ?_⟩
      simpa [Op.Ends, BEq.comm] using hk
    | clear => contradiction

/-- An entry is still there after a look-up, or it has expired. -/
theorem mem_get_or_expired {e : Entry α} (hdistinct : KeysDistinct c.entries) (he : e ∈ c.entries) (key : Path)
    (now : Nat) : e ∈ (c.get key now).2.entries ∨ e.isExpired c.ttl now = true := by
  unfold get
  split
  · exact Or.inl he
  · next f hfound =>
    split
    · next hexpired =>
      by_cases hk : (e.key == key) = true
      · have hsame := (hdistinct.find?_eq_some_iff.2 ⟨he, hk⟩).symm.trans hfound
        exact Or.inr (Option.some.inj hsame ▸ hexpired)
      · exact Or.inl (mem_without.2 ⟨he, Bool.eq_false_iff.2 hk⟩)
    · exact Or.inl he

/-- A cache without a bound makes no room. -/
theorem roomFor_of_unbounded (h : c.maxSize = none) : c.roomFor key now = c := by
  unfold roomFor makeRoom isFull
  rw [h]
  simp

/-- Without a bound, a value that stands has an entry, or some request came after its time. -/
theorem Course.held_or_expired (h : Course (empty ttl maxSize) ops answers c) (hunbounded : c.maxSize = none)
    (hstanding : Standing key ops t v) :
    (∃ e ∈ c.entries, (e.key == key) = true ∧ e.insertedAt = t ∧ e.value = v) ∨
      ∃ now ∈ ops.filterMap Op.moment?, ∃ limit, ttl = some limit ∧ limit < now - t := by
  induction h generalizing t v with
  | nil =>
    obtain ⟨before, k, after, hsame, -⟩ := hstanding
    simp at hsame
  | reorder _ hperm ih =>
    refine (ih hunbounded hstanding).imp_left fun ⟨e, he, hsame⟩ => ?_
    exact ⟨e, hperm.mem_iff.2 he, hsame⟩
  | @step ops answers c h op ih =>
    rw [step_bounds.2] at hunbounded
    have hpast : (∃ now ∈ ops.filterMap Op.moment?, ∃ limit, ttl = some limit ∧ limit < now - t) →
        ∃ now ∈ (ops ++ [op]).filterMap Op.moment?, ∃ limit, ttl = some limit ∧ limit < now - t := by
      rintro ⟨now, hnow, hlate⟩
      exact ⟨now, by rw [List.filterMap_append]; exact List.mem_append_left _ hnow, hlate⟩
    rcases standing_snoc.1 hstanding with ⟨hold, hop⟩ | ⟨k, rfl, hk⟩
    · rcases ih hunbounded hold with ⟨e, he, hsame⟩ | hlate
      · cases op with
        | put k value now =>
          have hother : (e.key == k) = false := by
            rw [BEq.congr_left hsame.1, BEq.comm]
            exact Bool.eq_false_iff.2 hop
          refine Or.inl ⟨e, ?_, hsame⟩
          show e ∈ (c.put k value now).entries
          rw [entries_put_eq, roomFor_of_unbounded hunbounded]
          exact mem_write_of_ne he hother
        | get k now =>
          have hdistinct := h.keysDistinct List.nodup_nil
          rcases mem_get_or_expired hdistinct he k now with hkept | hexpired
          · exact Or.inl ⟨e, hkept, hsame⟩
          · -- the look-up itself is the request that came after its time
            refine Or.inr ⟨now, by simp [Op.moment?], ?_⟩
            rw [h.ttl, isExpired_iff, hsame.2.1] at hexpired
            exact hexpired
        | invalidate k =>
          have hother : (e.key == k) = false := by
            rw [BEq.congr_left hsame.1, BEq.comm]
            exact Bool.eq_false_iff.2 hop
          exact Or.inl ⟨e, mem_invalidate.2 ⟨he, hother⟩, hsame⟩
        | clear => exact absurd trivial hop
      · exact Or.inr (hpast hlate)
    · obtain ⟨e, he, hek, hnow, hvalue⟩ := exists_mem_write ⟨k, t, v⟩ (c.roomFor k t).entries
      exact Or.inl ⟨e, he, BEq.trans hek hk, hnow, hvalue⟩

theorem get_put_self {q : Path} (hq : (q == key) = true) : ((c.put q v now).get key now).1 = some v := by
  obtain ⟨e, hfound, hnow, hvalue⟩ : ∃ e, (c.put q v now).find? key = some e ∧ e.insertedAt = now ∧ e.value = v :=
    find?_write_self hq
  have hfresh : e.isExpired (c.put q v now).ttl now = false := by
    rw [isExpired_eq_false_iff, hnow]
    intro limit _
    omega
  unfold get
  rw [hfound]
  simp [hfresh, hvalue]

/-- After every history, at whatever moments and in whatever order the entries lie: a hit is the value that stands, not
longer than the limit after it was put. Without a bound, and if no request was made later than this one, every value
that stands is hit so long. And what has just been put is hit at once, whatever had to leave for it. -/
theorem hit_is_latest (hcourse : Course (empty ttl maxSize) ops answers c) (key : Path) (now : Nat) :
    (∀ v, (c.get key now).1 = some v →
      ∃ t, Standing key ops t v ∧ ∀ limit, ttl = some limit → now - t ≤ limit) ∧
    ((∀ max, maxSize = some max → max = 0) → (∀ past ∈ ops.filterMap Op.moment?, past ≤ now) → ∀ t v,
      Standing key ops t v → (∀ limit, ttl = some limit → now - t ≤ limit) → (c.get key now).1 = some v) ∧
    ∀ q v, (q == key) = true → ((c.put q v now).get key now).1 = some v := by
  have hdistinct := hcourse.keysDistinct List.nodup_nil
  have httl : c.ttl = ttl := hcourse.ttl
  refine ⟨fun v hhit => ?_, fun hzero hpast t v hstanding hfresh => ?_, fun q v hq => get_put_self hq⟩
  · obtain ⟨e, he, hk, rfl⟩ := mem_of_get hhit
    refine ⟨e.insertedAt, (hcourse.standing e he).congr hk, ?_⟩
    rw [hdistinct.get_of_mem he hk, httl] at hhit
    rw [← isExpired_eq_false_iff]
    by_contra hexpired
    simp [hexpired] at hhit
  · have hunbounded : c.maxSize = none := by
      rw [hcourse.maxSize]
      cases maxSize with
      | none => rfl
      | some max =>
        rw [hzero max rfl]
        rfl
    rcases hcourse.held_or_expired hunbounded hstanding with
      ⟨e, he, hk, hput, hvalue⟩ | ⟨past, hmem, limit, hlimit, hlate⟩
    · have hstill : e.isExpired ttl now = false := by
        rw [isExpired_eq_false_iff, hput]
        exact hfresh
      rw [hdistinct.get_of_mem he hk, httl, hstill, hvalue]
      rfl
    · have hle := hpast past hmem
      have hshort := hfresh limit hlimit
      omega

/-- A clock that goes back: the value put last is hit under another spelling exactly until its limit, although the one
before it was put at a later moment. -/
theorem hit_is_latest_of_respelled :
    let ops : List (Op Nat) := [.put ⟨"/a"⟩ 1 9, .put ⟨"/b"⟩ 2 7, .put ⟨"//a"⟩ 3 4, .get ⟨"/b"⟩ 2, .invalidate ⟨"/b"⟩]
    ∃ answers c, Course (empty (some 5) (some 0)) ops answers c ∧ Standing ⟨"/a/"⟩ ops 4 3 ∧
      (c.get ⟨"/a/"⟩ 9).1 = some 3 ∧ (c.get ⟨"/a/"⟩ 10).1 = none := by
  intro ops
  have hcourse := course_run (empty (some 5) (some 0)) ops
  have hstanding : Standing ⟨"/a/"⟩ ops 4 3 := by
    refine ⟨ops.take 2, ⟨"//a"⟩, ops.drop 3, rfl, by decide +kernel, fun op hop => ?_⟩
    simp only [ops, List.drop_succ_cons, List.drop_zero, List.mem_cons, List.not_mem_nil, or_false] at hop
    rcases hop with rfl | rfl
    · exact not_false
    · exact ne_true_of_eq_false (by decide +kernel)
  obtain ⟨-, hhit, -⟩ := hit_is_latest hcourse ⟨"/a/"⟩ 9
  obtain ⟨hlatest, -, -⟩ := hit_is_latest hcourse ⟨"/a/"⟩ 10
  refine ⟨_, _, hcourse, hstanding, hhit ?_ (by decide +kernel) 4 3 hstanding ?_, ?_⟩
  · exact fun max hmax => (Option.some.inj hmax).symm
  · exact fun limit hlimit => Option.some.inj hlimit ▸ (by decide)
  · by_contra hhit
    obtain ⟨v, hv⟩ := Option.ne_none_iff_exists'.1 hhit
    obtain ⟨t, hthen, hfresh⟩ := hlatest v hv
    obtain ⟨rfl, -⟩ := hthen.unique hstanding
    exact absurd (hfresh 5 rfl) (by decide)

end RemoteFacts.Cache
