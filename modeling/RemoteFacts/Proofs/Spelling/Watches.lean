import RemoteFacts.Proofs.Spelling.Facts
import RemoteFacts.Proofs.Watch.Ledger

/-!
# Watches under other spellings

* `Watch.Op.Respelled`, `Watch.Ask.Respelled` : a request with its paths spelled otherwise;
* `Watch.Told.Same` : answers that say the same;
* `Watch.Registry.Same` : two registries that say the same in the same order (`Same.step`, `Same.entriesFor`);
* `Watch.Registry.Same.reply` : they answer the same, and go on to say the same.
-/

namespace RemoteFacts.Watch

/-- What an entry says, however its path is spelled. -/
def Entry.meaning (e : Entry) : ConnectionId × List Part × Nat := (e.connection, e.path.parts, e.registeredAt)

/-- A request, and the same one with its paths spelled otherwise. -/
inductive Op.Respelled : Op → Op → Prop
  | register {p q : Path} (h : p.parts = q.parts) : Respelled (.register p) (.register q)
  | unregister {p q : Path} (h : p.parts = q.parts) : Respelled (.unregister p) (.unregister q)
  | isWatched {p q : Path} (h : p.parts = q.parts) : Respelled (.isWatched p) (.isWatched q)
  | clear : Respelled .clear .clear
  | replace {ps qs : List Path} (h : ps.map Path.parts = qs.map Path.parts) : Respelled (.replace ps) (.replace qs)

/-- The same for what a connection asks. -/
inductive Ask.Respelled : Ask → Ask → Prop
  | op {op op' : Op} (h : op.Respelled op') : Respelled (.op op) (.op op')
  | list : Respelled .list .list

/-- Answers that say the same: listings have the same entries in the same order, and all others are equal. -/
inductive Told.Same : Told → Told → Prop
  | answer (a : Answer) : Same (.answer a) (.answer a)
  | listed {es fs : List Entry} (h : es.map Entry.meaning = fs.map Entry.meaning) : Same (.listed es) (.listed fs)

namespace Registry

variable {r s : Registry} {c : ConnectionId} {p q : Path} {ps qs : List Path} {e f : Entry} {now : Nat} {op op' : Op}
  {ask ask' : Ask}

/-- The same entries in the same order, under any spelling of their paths. -/
def Same (r s : Registry) : Prop := r.entries.map Entry.meaning = s.entries.map Entry.meaning

theorem connection_beq_of_meaning (h : e.meaning = f.meaning) : (e.connection == c) = (f.connection == c) := by
  rw [show e.connection = f.connection from congrArg Prod.fst h]

theorem isFor_of_meaning (h : e.meaning = f.meaning) (hp : p.parts = q.parts) : isFor c p e = isFor c q f := by
  have hparts : e.path.parts = f.path.parts := congrArg (·.2.1) h
  rw [isFor, isFor, connection_beq_of_meaning h, Path.beq_congr hparts hp]

theorem map_mergeSort_entryLe (es : List Entry) : (es.mergeSort entryLe).map Entry.meaning =
    (es.map Entry.meaning).mergeSort fun a b =>
      decide (a.2.2 < b.2.2) || (a.2.2 == b.2.2 && !lexLt Part.lt b.2.1 a.2.1) :=
  List.map_mergeSort fun _ _ _ _ => rfl

namespace Same

theorem size (h : r.Same s) : r.size = s.size := length_same h

theorem isWatched (h : r.Same s) (hp : p.parts = q.parts) : r.isWatched c p = s.isWatched c q :=
  any_same h fun _ _ hsame => isFor_of_meaning hsame hp

theorem register (h : r.Same s) (hp : p.parts = q.parts) (c : ConnectionId) (now : Nat) :
    (r.register c p now).1 = (s.register c q now).1 ∧ (r.register c p now).2.Same (s.register c q now).2 := by
  unfold Registry.register
  rw [h.isWatched hp]
  split
  · exact ⟨rfl, h⟩
  · refine ⟨rfl, ?_⟩
    have hnew : (⟨c, p, now⟩ : Entry).meaning = (⟨c, q, now⟩ : Entry).meaning := by
      rw [Entry.meaning, Entry.meaning, hp]
    unfold Same at h ⊢
    rw [List.map_append, List.map_append, h, List.map_singleton, List.map_singleton, hnew]

theorem unregister (h : r.Same s) (hp : p.parts = q.parts) (c : ConnectionId) :
    (r.unregister c p).1 = (s.unregister c q).1 ∧ (r.unregister c p).2.Same (s.unregister c q).2 :=
  ⟨h.isWatched hp, filter_same h fun _ _ hsame => congrArg (!·) (isFor_of_meaning hsame hp)⟩

theorem clearFor (h : r.Same s) (c : ConnectionId) :
    (r.clearFor c).1 = (s.clearFor c).1 ∧ (r.clearFor c).2.Same (s.clearFor c).2 := by
  refine ⟨?_, filter_same h fun _ _ hsame => congrArg (!·) (connection_beq_of_meaning hsame)⟩
  unfold Registry.clearFor
  rw [List.countP_eq_length_filter, List.countP_eq_length_filter]
  exact length_same (filter_same h fun _ _ hsame => connection_beq_of_meaning hsame)

/-- A path that stays keeps its moment under any spelling. -/
theorem since (h : r.Same s) (hp : p.parts = q.parts) :
    (match r.entries.find? (isFor c p) with
      | some e => e.registeredAt
      | none => now) =
    (match s.entries.find? (isFor c q) with
      | some e => e.registeredAt
      | none => now) := by
  have hfind := find?_same (p := isFor c p) (q := isFor c q) h fun _ _ hsame => isFor_of_meaning hsame hp
  rcases option_same hfind with ⟨hr, hs⟩ | ⟨e, f, hr, hs, hsame⟩
  · rw [hr, hs]
  · rw [hr, hs]
    exact congrArg (·.2.2) hsame

theorem replaceFor (h : r.Same s) (hps : ps.map Path.parts = qs.map Path.parts) :
    (r.replaceFor c ps now).Same (s.replaceFor c qs now) := by
  unfold Same Registry.replaceFor
  dsimp only
  rw [List.map_append, List.map_append, (h.clearFor c).2, List.map_map, List.map_map]
  congr 1
  refine map_same (Path.distinct_congr hps) fun p q hp => ?_
  exact Prod.ext rfl (Prod.ext hp (h.since hp))

/-- What is listed for a connection is the same, in the same order. -/
theorem entriesFor (h : r.Same s) (c : ConnectionId) :
    (r.entriesFor c).map Entry.meaning = (s.entriesFor c).map Entry.meaning := by
  rw [Registry.entriesFor, Registry.entriesFor, map_mergeSort_entryLe, map_mergeSort_entryLe]
  rw [filter_same h fun _ _ hsame => connection_beq_of_meaning hsame]

theorem step (h : r.Same s) (hop : op.Respelled op') (c : ConnectionId) (now : Nat) :
    (r.step c now op).1 = (s.step c now op').1 ∧ (r.step c now op).2.Same (s.step c now op').2 := by
  cases hop with
  | register hp =>
    obtain ⟨hflag, hthen⟩ := h.register hp c now
    exact ⟨congrArg Answer.flag hflag, hthen⟩
  | unregister hp =>
    obtain ⟨hflag, hthen⟩ := h.unregister hp c
    exact ⟨congrArg Answer.flag hflag, hthen⟩
  | isWatched hp => exact ⟨congrArg Answer.flag (h.isWatched hp), h⟩
  | clear =>
    obtain ⟨hcount, hthen⟩ := h.clearFor c
    exact ⟨congrArg Answer.count hcount, hthen⟩
  | replace hps => exact ⟨rfl, h.replaceFor hps⟩

theorem reply (h : r.Same s) (hask : ask.Respelled ask') (c : ConnectionId) (now : Nat) :
    (r.reply ⟨now, c, ask⟩).1.Same (s.reply ⟨now, c, ask'⟩).1 ∧
      (r.reply ⟨now, c, ask⟩).2.Same (s.reply ⟨now, c, ask'⟩).2 := by
  cases hask with
  | op hop =>
    obtain ⟨hanswer, hthen⟩ := h.step hop c now
    refine ⟨?_, hthen⟩
    unfold Registry.reply
    dsimp only
    rw [hanswer]
    exact Told.Same.answer _
  | list => exact ⟨Told.Same.listed (h.entriesFor c), h⟩

end Same

end Registry

end RemoteFacts.Watch
