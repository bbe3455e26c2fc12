import Mathlib.Data.List.Induction
import RemoteFacts.Cache.History
import RemoteFacts.Proofs.Cache.Entries

/-!
# Courses of a cache

In what order the entries of a cache lie is not part of it: only which of several equally old entries leaves first
depends on it. So what is stated of histories here is stated for every order, which may even change on the way.

* `Course` : a history of requests, with the answers and the cache after it, whatever the order of the entries
  (`course_run` : the one in which they stay where they are is the run of the history);
* `Course.keysDistinct`, `Course.ttl`, `Course.maxSize` : what every course keeps;
* `Op.moment?` : when a request is made.
-/

namespace RemoteFacts.Cache

variable {α : Type} {start c : Cache α} {ops : List (Op α)} {answers : List (Answer α)} {op : Op α} {now : Nat}

/-- The cache `start` may have answered `ops` by `answers`, and be in the state `c` after it. -/
inductive Course (start : Cache α) : List (Op α) → List (Answer α) → Cache α → Prop where
  | nil : Course start [] [] start
  | step {ops : List (Op α)} {answers : List (Answer α)} {c : Cache α} (h : Course start ops answers c) (op : Op α) :
      Course start (ops ++ [op]) (answers ++ [(c.step op).1]) (c.step op).2
  /-- The entries lie in another order. -/
  | reorder {ops : List (Op α)} {answers : List (Answer α)} {c : Cache α} {entries : List (Entry α)}
      (h : Course start ops answers c) (hperm : entries.Perm c.entries) : Course start ops answers { c with entries }

/-- The moment of a request. -/
def Op.moment? : Op α → Option Nat
  | put _ _ now => some now
  | get _ now => some now
  | invalidate _ => none
  | clear => none

theorem Course.append (h : Course start ops answers c) (later : List (Op α)) :
    Course start (ops ++ later) (answers ++ (c.run later).map (·.1)) (later.foldl (fun c op => (c.step op).2) c) := by
  induction later generalizing ops answers c with
  | nil => simpa [run] using h
  | cons op later ih => simpa [run] using ih (h.step op)

/-- The run of a history is one of its courses. -/
theorem course_run (start : Cache α) (ops : List (Op α)) :
    Course start ops ((start.run ops).map (·.1)) (ops.foldl (fun c op => (c.step op).2) start) :=
  Course.nil.append ops

/-! ## What every course keeps -/

theorem step_bounds : (c.step op).2.ttl = c.ttl ∧ (c.step op).2.maxSize = c.maxSize := by
  cases op with
  | put key value now =>
    show (c.roomFor key now).ttl = c.ttl ∧ (c.roomFor key now).maxSize = c.maxSize
    exact roomFor_bounds
  | get key now => exact get_bounds
  | invalidate key => exact invalidate_bounds
  | clear => exact ⟨rfl, rfl⟩

theorem KeysDistinct.step (h : KeysDistinct c.entries) (op : Op α) : KeysDistinct (c.step op).2.entries := by
  cases op with
  | put key value now => exact (h.sublist roomFor_sublist).write _
  | get key now => exact h.sublist get_sublist
  | invalidate key => exact h.sublist invalidate_sublist
  | clear => exact List.nodup_nil

namespace Course

theorem ttl (h : Course start ops answers c) : c.ttl = start.ttl := by
  induction h with
  | nil => rfl
  | step _ op ih => exact step_bounds.1.trans ih
  | reorder _ _ ih => exact ih

theorem maxSize (h : Course start ops answers c) : c.maxSize = start.maxSize := by
  induction h with
  | nil => rfl
  | step _ op ih => exact step_bounds.2.trans ih
  | reorder _ _ ih => exact ih

theorem keysDistinct (h : Course start ops answers c) (hstart : KeysDistinct start.entries) :
    KeysDistinct c.entries := by
  induction h with
  | nil => exact hstart
  | step _ op ih => exact ih.step op
  | reorder _ hperm ih => exact ih.perm hperm

end Course

end RemoteFacts.Cache
