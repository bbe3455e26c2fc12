import RemoteFacts.Proofs.Watch.Belief

/-!
# Exchanges with a remote side that can be relied on

The remote side keeps a set of watched paths. It executes the calls of a connection one after the other and answers each
from this set; the answers may be taken in any other order.

* `Exchange` : a call that has been executed, and its answer (`Adds`, `Removes`, `Puts`, `Takes` : what it does to a
  path);
* `execute`, `Honest` : what a call does to the watched paths, and how it is to be answered;
* `Remote` : the exchanges in the order of their execution, and the order in which the answers have been taken
  (`Remote.watched`, `Remote.believed` : what is watched, and what is believed to be);
* `Remote.Overtaken` : the answer that speaks for a path was overtaken by that to the end of the watch;
* `dead_iff_overtaken` : when all answers have been taken, just these paths are believed to be watched and are not.
-/

namespace RemoteFacts.Watch

/-- A call that the remote side has executed, with its answer. -/
structure Exchange where
  flight : Nat
  slot : Nat
  request : Rpc.Request
  reply : Rpc.Reply

/-- The watched paths after the remote side has executed a request. -/
def execute (watched : Finset (List Part)) : Rpc.Request → Finset (List Part)
  | .watchAdd path _ => insert path.parts watched
  | .watchRemove path => watched.erase path.parts
  | _ => watched

/-- The answer to a request that is executed while just `watched` are watched. -/
def Honest (watched : Finset (List Part)) (reply : Rpc.Reply) : Rpc.Request → Prop
  | .watchAdd _ _ => reply = .answered (.bool true)
  | .watchRemove _ => reply = .answered (.bool true)
  | .watchList => ∃ watches, reply.watches = .ok watches ∧ (watches.map (·.1.parts)).toFinset = watched
  | _ => True

namespace Exchange

/-- The remote side is asked to watch `ps`. -/
def Adds (ps : List Part) (x : Exchange) : Prop :=
  match x.request with
  | .watchAdd path _ => path.parts = ps
  | _ => False

/-- It is asked to end the watch of `ps`. -/
def Removes (ps : List Part) (x : Exchange) : Prop :=
  match x.request with
  | .watchRemove path => path.parts = ps
  | _ => False

/-- What is in the answer, if it is a list of watches. -/
def listed? (x : Exchange) : Option (List (List Part)) :=
  match x.request with
  | .watchList => x.reply.watches.toOption.map fun watches => watches.map (·.1.parts)
  | _ => none

/-- Whoever takes the answer believes that `ps` is watched: a watch of it was asked for, or it is listed. -/
def Puts (ps : List Part) (x : Exchange) : Prop := x.Adds ps ∨ ∃ listed, x.listed? = some listed ∧ ps ∈ listed

/-- Whoever takes the answer believes that `ps` is not watched: the end of the watch was asked for, or it is not
listed. -/
def Takes (ps : List Part) (x : Exchange) : Prop := x.Removes ps ∨ ∃ listed, x.listed? = some listed ∧ ps ∉ listed

end Exchange

variable {ps : List Part} {x y : Exchange} {w b : Finset (List Part)}

theorem mem_execute_iff : ps ∈ execute w x.request ↔ x.Adds ps ∨ ¬ x.Removes ps ∧ ps ∈ w := by
  unfold Exchange.Adds Exchange.Removes execute
  cases x.request with
  | watchAdd path recursive => simp [eq_comm]
  | watchRemove path => simp [eq_comm]
  | _ => simp

theorem mem_learn_iff (h : Honest w x.reply x.request) :
    ps ∈ learn b (.ended x.request x.reply) ↔ x.Puts ps ∨ ¬ x.Takes ps ∧ ps ∈ b := by
  obtain ⟨flight, slot, request, reply⟩ := x
  unfold Exchange.Puts Exchange.Takes Exchange.Adds Exchange.Removes Exchange.listed?
  cases request with
  | watchAdd path recursive =>
    obtain rfl : reply = .answered (.bool true) := h
    simp [learn, eq_comm]
  | watchRemove path =>
    obtain rfl : reply = .answered (.bool true) := h
    simp [learn, eq_comm]
  | watchList =>
    obtain ⟨watches, hreply : reply.watches = .ok watches, -⟩ := h
    simp only [learn, hreply, List.mem_toFinset, Except.toOption, Option.map_some]
    generalize watches.map (·.1.parts) = listed
    by_cases hlisted : ps ∈ listed
    · simp [hlisted]
    · simp [hlisted]
  | _ => simp [learn]

/-- What holds after a list of steps, when each step makes it so, ends it, or leaves it: the last one that matters makes
it so, or it has held before and nothing ends it. -/
theorem foldl_iff {σ α : Type} {step : σ → α → σ} {P : σ → Prop} {makes ends : α → Prop} {as : List α}
    (hstep : ∀ a ∈ as, ∀ s, P (step s a) ↔ makes a ∨ ¬ ends a ∧ P s) (s : σ) : P (as.foldl step s) ↔
      (∃ before a after, as = before ++ a :: after ∧ makes a ∧ ∀ b ∈ after, ¬ ends b) ∨ P s ∧ ∀ a ∈ as, ¬ ends a := by
  induction as generalizing s with
  | nil => simp
  | cons a as ih =>
    rw [List.foldl_cons, ih (fun b hb => hstep b (List.mem_cons_of_mem a hb)), hstep a List.mem_cons_self]
    constructor
    · rintro (⟨before, b, after, rfl, hb, hafter⟩ | ⟨hmakes | ⟨hends, hs⟩, hrest⟩)
      · exact Or.inl ⟨a :: before, b, after, rfl, hb, hafter⟩
      · exact Or.inl ⟨[], a, as, rfl, hmakes, hrest⟩
      · exact Or.inr ⟨hs, List.forall_mem_cons.2 ⟨hends, hrest⟩⟩
    · rintro (⟨before, b, after, hsplit, hb, hafter⟩ | ⟨hs, hrest⟩)
      · cases before with
        | nil =>
          obtain ⟨rfl, rfl⟩ := List.cons_eq_cons.1 hsplit
          exact Or.inr ⟨Or.inl hb, hafter⟩
        | cons c before =>
          obtain ⟨-, rfl⟩ := List.cons_eq_cons.1 hsplit
          exact Or.inl ⟨before, b, after, rfl, hb, hafter⟩
      · obtain ⟨hends, hrest⟩ := List.forall_mem_cons.1 hrest
        exact Or.inr ⟨Or.inr ⟨hends, hs⟩, hrest⟩

theorem notMem_execute_iff : ps ∉ execute w x.request ↔ x.Removes ps ∨ ¬ x.Adds ps ∧ ps ∉ w := by
  have hapart : x.Removes ps → ¬ x.Adds ps := by
    unfold Exchange.Adds Exchange.Removes
    cases x.request with
    | watchRemove path => exact fun _ => nofun
    | _ => exact nofun
  rw [mem_execute_iff]
  tauto

/-! ## What is watched and what is believed -/

/-- The exchanges of a connection in the order in which the remote side has executed them, and their numbers in the
order in which the answers have been taken. -/
structure Remote where
  served : List Exchange
  taken : List Nat

/-- What the remote side watches after these exchanges. -/
def watchedAfter (served : List Exchange) : Finset (List Part) := served.foldl (fun w x => execute w x.request) ∅

namespace Remote

variable {r : Remote} {m n : Nat}

/-- What the remote side watches. -/
def watched (r : Remote) : Finset (List Part) := watchedAfter r.served

/-- What is believed after the answer with number `n` has been taken. -/
def learn (r : Remote) (believed : Finset (List Part)) (n : Nat) : Finset (List Part) :=
  match r.served[n]? with
  | some x => Watch.learn believed (.ended x.request x.reply)
  | none => believed

/-- What is believed after all these answers have been taken. -/
def believed (r : Remote) : Finset (List Part) := r.taken.foldl r.learn ∅

/-- Each call has been answered as it was executed, and only answers to such calls have been taken. -/
structure Sound (r : Remote) : Prop where
  honest : ∀ n x, r.served[n]? = some x → Honest (watchedAfter (r.served.take n)) x.reply x.request
  known : ∀ n ∈ r.taken, n < r.served.length

/-- The answer that speaks for `ps` was executed before the end of the watch and taken after it. Nothing has been
executed since that end that would watch `ps`, and nothing taken since that answer that speaks against it. -/
def Overtaken (ps : List Part) (r : Remote) : Prop :=
  ∃ m n x y before after, m < n ∧ r.served[m]? = some x ∧ x.Puts ps ∧ r.served[n]? = some y ∧ y.Removes ps ∧
    (∀ k z, n < k → r.served[k]? = some z → ¬ z.Adds ps) ∧
    r.taken = before ++ m :: after ∧ n ∈ before ∧ ∀ k ∈ after, ∀ z, r.served[k]? = some z → ¬ z.Takes ps

/-- The last answer that speaks of a path decides. -/
theorem mem_believed_iff (hr : r.Sound) : ps ∈ r.believed ↔ ∃ before m after x, r.taken = before ++ m :: after ∧
    r.served[m]? = some x ∧ x.Puts ps ∧ ∀ k ∈ after, ∀ z, r.served[k]? = some z → ¬ z.Takes ps := by
  have hstep : ∀ n ∈ r.taken, ∀ b : Finset (List Part), ps ∈ r.learn b n ↔
      (∃ x, r.served[n]? = some x ∧ x.Puts ps) ∨ ¬ (∃ x, r.served[n]? = some x ∧ x.Takes ps) ∧ ps ∈ b := by
    intro n _ b
    unfold learn
    split
    · next x hx => simp only [hx, mem_learn_iff (hr.honest n x hx), Option.some.injEq, exists_eq_left']
    · next hnone => simp [hnone]
  have hfold := foldl_iff (P := fun b => ps ∈ b) hstep ∅
  simp only [Finset.notMem_empty, false_and, or_false, not_exists, not_and] at hfold
  rw [believed, hfold]
  constructor
  · rintro ⟨before, m, after, htaken, ⟨x, hx, hputs⟩, hafter⟩
    exact ⟨before, m, after, x, htaken, hx, hputs, hafter⟩
  · rintro ⟨before, m, after, x, htaken, hx, hputs, hafter⟩
    exact ⟨before, m, after, htaken, ⟨x, hx, hputs⟩, hafter⟩

theorem watchedAfter_take_succ (hx : r.served[n]? = some x) :
    watchedAfter (r.served.take (n + 1)) = execute (watchedAfter (r.served.take n)) x.request := by
  rw [List.take_add_one, hx, watchedAfter, List.foldl_append]
  rfl

/-- What is watched is what is watched after the first exchanges, and what the others do to it. -/
theorem watched_eq_foldl (n : Nat) :
    r.watched = (r.served.drop n).foldl (fun w x => execute w x.request) (watchedAfter (r.served.take n)) := by
  rw [watchedAfter, ← List.foldl_append, List.take_append_drop]
  rfl

/-- A path is watched when an answer that speaks for it is given. -/
theorem mem_watchedAfter_of_puts (hr : r.Sound) (hx : r.served[n]? = some x) (hputs : x.Puts ps) :
    ps ∈ watchedAfter (r.served.take (n + 1)) := by
  rw [watchedAfter_take_succ hx]
  rcases hputs with hadds | ⟨listed, hlisted, hmem⟩
  · exact mem_execute_iff.2 (Or.inl hadds)
  · have hhonest := hr.honest n x hx
    obtain ⟨flight, slot, request, reply⟩ := x
    cases request with
    | watchList =>
      obtain ⟨watches, hreply : reply.watches = .ok watches, hwatched⟩ := hhonest
      rw [Exchange.listed?, hreply] at hlisted
      obtain rfl := Option.some.inj hlisted
      show ps ∈ watchedAfter (r.served.take n)
      rw [← hwatched]
      exact List.mem_toFinset.2 hmem
    | _ => contradiction

/-- What is watched once and not in the end has been ended, and not been asked for since. -/
theorem exists_removal (hthen : ps ∈ watchedAfter (r.served.take n)) (hnow : ps ∉ r.watched) :
    ∃ k y, n ≤ k ∧ r.served[k]? = some y ∧ y.Removes ps ∧ ∀ j z, k < j → r.served[j]? = some z → ¬ z.Adds ps := by
  have hstep : ∀ x ∈ r.served.drop n, ∀ w, ps ∉ execute w x.request ↔ x.Removes ps ∨ ¬ x.Adds ps ∧ ps ∉ w :=
    fun _ _ _ => notMem_execute_iff
  rw [watched_eq_foldl n] at hnow
  rcases (foldl_iff (P := fun w => ps ∉ w) hstep _).1 hnow with
    ⟨before, y, after, hsplit, hremoves, hafter⟩ | ⟨hnever, -⟩
  · have hat : ∀ j, r.served[n + j]? = (before ++ y :: after)[j]? := fun j => by rw [← hsplit, List.getElem?_drop]
    refine ⟨n + before.length, y, Nat.le_add_right _ _, ?_, hremoves, fun j z hj hz => ?_⟩
    · rw [hat, List.getElem?_append_right (Nat.le_refl _), Nat.sub_self]
      rfl
    · obtain ⟨i, rfl⟩ : ∃ i, j = n + (before.length + (i + 1)) := ⟨j - (n + before.length + 1), by omega⟩
      rw [hat, List.getElem?_append_right (Nat.le_add_right _ _), Nat.add_sub_cancel_left] at hz
      exact hafter z (List.mem_of_getElem? hz)
  · exact absurd hthen hnever

/-- What has been ended and not been asked for since is not watched. -/
theorem notMem_watched (hy : r.served[n]? = some y) (hremoves : y.Removes ps)
    (hlast : ∀ k z, n < k → r.served[k]? = some z → ¬ z.Adds ps) : ps ∉ r.watched := by
  have hthen : ps ∉ watchedAfter (r.served.take (n + 1)) := by
    rw [watchedAfter_take_succ hy]
    exact notMem_execute_iff.2 (Or.inl hremoves)
  have hstep : ∀ x ∈ r.served.drop (n + 1), ∀ w, ps ∉ execute w x.request ↔ x.Removes ps ∨ ¬ x.Adds ps ∧ ps ∉ w :=
    fun _ _ _ => notMem_execute_iff
  rw [watched_eq_foldl (n + 1)]
  refine (foldl_iff (P := fun w => ps ∉ w) hstep _).2 (Or.inr ⟨hthen, fun z hz => ?_⟩)
  obtain ⟨j, hj⟩ := List.mem_iff_getElem?.1 hz
  rw [List.getElem?_drop] at hj
  exact hlast (n + 1 + j) z (by omega) hj

/-- When all answers have been taken, a path is believed to be watched and is not exactly if it has been overtaken. -/
theorem dead_iff_overtaken (hr : r.Sound) (hall : ∀ n < r.served.length, n ∈ r.taken) :
    ps ∈ r.believed ∧ ps ∉ r.watched ↔ r.Overtaken ps := by
  constructor
  · rintro ⟨hbelieved, hdead⟩
    obtain ⟨before, m, after, x, htaken, hx, hputs, hafter⟩ := (mem_believed_iff hr).1 hbelieved
    obtain ⟨n, y, hmn, hy, hremoves, hlast⟩ := exists_removal (mem_watchedAfter_of_puts hr hx hputs) hdead
    -- the end of the watch speaks against the path, so it has not been taken since
    have hn : n ∈ before ++ m :: after := htaken ▸ hall n (List.getElem?_eq_some_iff.1 hy).1
    have hbefore : n ∈ before := by
      rcases List.mem_append.1 hn with hn | hn
      · exact hn
      · rcases List.mem_cons.1 hn with rfl | hn
        · omega
        · exact absurd (Or.inl hremoves) (hafter n hn y hy)
    exact ⟨m, n, x, y, before, after, hmn, hx, hputs, hy, hremoves, hlast, htaken, hbefore, hafter⟩
  · rintro ⟨m, n, x, y, before, after, -, hx, hputs, hy, hremoves, hlast, htaken, -, hafter⟩
    exact ⟨(mem_believed_iff hr).2 ⟨before, m, after, x, htaken, hx, hputs, hafter⟩, notMem_watched hy hremoves hlast⟩

end Remote

end RemoteFacts.Watch
