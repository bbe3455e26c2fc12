import Mathlib.Data.List.Forall2
import Mathlib.Logic.Relation
import RemoteFacts.Proofs.Change

/-!
# Spellings of a path

* `Path.Padded` : a spelling with a slash or a `.` more, which has the same parts (`Path.Padded.parts_eq`);
* `Part.spellAll`, `Path.eqvGen_spellAll` : one spelling for given parts, to which all others lead;
* `Path.parts_eq_iff` : so two paths have the same parts just when such slashes and dots lead from one to the other;
* `forall₂_same`, `filter_same`, `find?_same`, `any_same`, `map_same`, `option_same` : lists that say the same, when
  each element has the same image under a map that forgets spellings, and what is done to them by what their elements
  say;
* `Path.insertAll_congr`, `Path.sort_congr`, `Path.parent?_congr` : lists of paths, and parents.
-/

namespace RemoteFacts

open Relation

/-! ## Slashes and dots -/

namespace Part

variable {part : Part} {piece : List Char}

/-- The piece that a part is spelled with; the root is what stands before the first slash. -/
def spell : Part → List Char
  | root => []
  | here => ['.']
  | up => ['.', '.']
  | name s => s.toList

/-- The pieces that parts are spelled with. The root has two, so that it is spelled when nothing follows. -/
def spellAll : List Part → List (List Char)
  | [] => [[]]
  | root :: parts => [] :: [] :: parts.map spell
  | part :: parts => part.spell :: parts.map spell

theorem spellAll_cons (h : part ≠ root) (parts : List Part) :
    spellAll (part :: parts) = part.spell :: parts.map spell := by
  cases part with
  | root => contradiction
  | _ => rfl

theorem spell_of_ofPiece? (h : ofPiece? piece = some part) : part.spell = piece := by
  unfold ofPiece? at h
  split at h
  · contradiction
  · contradiction
  · obtain rfl := Option.some.inj h
    rfl
  · obtain rfl := Option.some.inj h
    exact String.toList_ofList

theorem spell_of_ofFirst {alone : Bool} (hpiece : piece ≠ []) (h : ofFirst alone piece = [part]) :
    part.spell = piece := by
  unfold ofFirst at h
  split at h
  · contradiction
  · obtain rfl := List.singleton_inj.1 h
    rfl
  · exact spell_of_ofPiece? (Option.toList_eq_singleton_iff.1 h)

/-- A piece that names nothing is empty or a `.`. -/
theorem ofPiece?_eq_none_iff : ofPiece? piece = none ↔ String.ofList piece = "" ∨ String.ofList piece = "." := by
  rw [← String.toList_inj, ← String.toList_inj, String.toList_ofList]
  unfold ofPiece?
  split
  · simp
  · simp
  · simp
  · next hempty hdot _ => exact ⟨nofun, fun h => (h.elim (hempty ·) (hdot ·)).elim⟩

end Part

namespace Path

variable {p q : Path} {xs ys : List (List Char)} {b : List Char}

/-- The second path is the first one with a slash more, or with a slash and a `.`, inside or at the end. -/
inductive Padded : Path → Path → Prop
  | inside {b : String} (u v : String) (h : b = "" ∨ b = ".") : Padded ⟨u ++ "/" ++ v⟩ ⟨u ++ "/" ++ b ++ "/" ++ v⟩
  | atEnd {b u : String} (hu : u ≠ "") (h : b = "" ∨ b = ".") : Padded ⟨u⟩ ⟨u ++ "/" ++ b⟩

theorem pieces_slash (u v : String) : (⟨u ++ "/" ++ v⟩ : Path).pieces = (⟨u⟩ : Path).pieces ++ (⟨v⟩ : Path).pieces := by
  rw [pieces, String.toList_append, String.toList_append, List.append_assoc]
  exact Text.pieces_append u.toList v.toList

/-- Slashes and dots that are added so leave the parts. -/
theorem Padded.parts_eq (h : Padded p q) : p.parts = q.parts := by
  have hblank : ∀ {b : String}, b = "" ∨ b = "." → Part.ofPieces (⟨b⟩ : Path).pieces = [] := by
    rintro b (rfl | rfl)
    · decide
    · decide
  have hsome : ∀ p : Path, p.pieces ≠ [] := fun p => Text.pieces_ne_nil '/' _
  cases h with
  | @inside b u v h =>
    have hboth : (⟨b⟩ : Path).pieces ++ (⟨v⟩ : Path).pieces ≠ [] := List.append_ne_nil_of_left_ne_nil (hsome ⟨b⟩) _
    rw [parts, parts, pieces_slash, pieces_slash, pieces_slash, List.append_assoc]
    rw [Part.ofSpelling_snoc_append (hsome ⟨u⟩) (hsome ⟨v⟩), Part.ofSpelling_snoc_append (hsome ⟨u⟩) hboth]
    rw [Part.ofPieces_append, hblank h, List.nil_append]
  | @atEnd b u hu h =>
    have hmore : (⟨u⟩ : Path).pieces ≠ [[]] := by
      intro hnone
      have htext := Text.intercalate_pieces '/' u.toList
      rw [show Text.pieces '/' u.toList = [[]] from hnone] at htext
      exact hu (String.toList_inj.1 htext.symm)
    rw [parts, parts, pieces_slash, Part.ofSpelling_append hmore (hsome _) (hsome _), hblank h, List.append_nil]

theorem ofPieces_append (hxs : xs ≠ []) (hys : ys ≠ []) :
    ofPieces (xs ++ ys) = ⟨(ofPieces xs).text ++ "/" ++ (ofPieces ys).text⟩ := by
  have htext : ∀ cs ds : List Char, String.ofList (cs ++ '/' :: ds) = String.ofList cs ++ "/" ++ String.ofList ds := by
    intro cs ds
    rw [← String.toList_inj]
    simp
  rw [ofPieces, Text.intercalate_append hxs hys, htext]
  rfl

theorem text_ofPieces_singleton (b : List Char) : (ofPieces [b]).text = String.ofList b := by
  rw [ofPieces, List.intercalate_singleton]

theorem padded_inside (hxs : xs ≠ []) (hys : ys ≠ []) (hb : Part.ofPiece? b = none) :
    Padded (ofPieces (xs ++ ys)) (ofPieces (xs ++ b :: ys)) := by
  have hpadded := Padded.inside (ofPieces xs).text (ofPieces ys).text (Part.ofPiece?_eq_none_iff.1 hb)
  rw [← ofPieces_append hxs hys] at hpadded
  rw [← List.singleton_append, ← List.append_assoc, ofPieces_append (List.append_ne_nil_of_left_ne_nil hxs _) hys,
    ofPieces_append hxs (List.cons_ne_nil b []), text_ofPieces_singleton]
  exact hpadded

theorem padded_atEnd (hxs : xs ≠ []) (hmore : xs ≠ [[]]) (hb : Part.ofPiece? b = none) :
    Padded (ofPieces xs) (ofPieces (xs ++ [b])) := by
  rw [ofPieces_append hxs (List.cons_ne_nil b []), text_ofPieces_singleton]
  refine Padded.atEnd (fun hempty => ?_) (Part.ofPiece?_eq_none_iff.1 hb)
  have hchars : ['/'].intercalate xs = [] := String.toList_ofList.symm.trans (congrArg String.toList hempty)
  obtain ⟨x, rest, rfl⟩ := List.exists_cons_of_ne_nil hxs
  cases rest with
  | nil => exact hmore (congrArg (fun x => [x]) (by simpa using hchars))
  | cons y rest => simp [List.intercalate_cons_cons] at hchars

/-- Pieces that name nothing can be left out one by one, but for those at the beginning. -/
theorem eqvGen_blanks (hxs : xs ≠ []) (hmore : xs ≠ [[]]) (rest : List (List Char)) :
    EqvGen Padded (ofPieces (xs ++ rest)) (ofPieces (xs ++ (Part.ofPieces rest).map Part.spell)) := by
  induction rest generalizing xs with
  | nil => exact EqvGen.refl _
  | cons r rest ih =>
    rw [Part.ofPieces_cons]
    cases hr : Part.ofPiece? r with
    | some part =>
      have hlonger : xs ++ [r] ≠ [[]] := by
        intro hone
        have hlength := congrArg List.length hone
        rw [List.length_append, List.length_singleton, List.length_singleton, Nat.add_eq_right,
          List.length_eq_zero_iff] at hlength
        exact hxs hlength
      have hrest := ih (List.append_ne_nil_of_left_ne_nil hxs [r]) hlonger
      rw [List.append_assoc, List.append_assoc] at hrest
      rw [Option.toList_some, List.singleton_append, List.map_cons, Part.spell_of_ofPiece? hr]
      exact hrest
    | none =>
      refine EqvGen.trans _ _ _ (EqvGen.symm _ _ (EqvGen.rel _ _ ?_)) (ih hxs hmore)
      by_cases hlast : rest = []
      · subst hlast
        rw [List.append_nil]
        exact padded_atEnd hxs hmore hr
      · exact padded_inside hxs hlast hr

/-- From every spelling slashes and dots lead to the one that is fixed by the parts. -/
theorem eqvGen_spellAll (p : Path) : EqvGen Padded p (ofPieces (Part.spellAll p.parts)) := by
  obtain ⟨first, rest, hp⟩ := List.exists_cons_of_ne_nil (Text.pieces_ne_nil '/' p.text.toList)
  have htext : p = ofPieces (first :: rest) := by
    rw [← hp, ofPieces, Text.intercalate_pieces, String.ofList_toList]
  rw [parts_eq p hp]
  by_cases hfirst : first = []
  · subst hfirst
    cases rest with
    | nil =>
      rw [htext]
      exact EqvGen.refl _
    | cons r rest =>
      have hroot : Padded (ofPieces ([[]] ++ r :: rest)) (ofPieces ([[]] ++ [] :: r :: rest)) :=
        padded_inside (List.cons_ne_nil _ _) (List.cons_ne_nil _ _) rfl
      have hblanks := eqvGen_blanks (List.cons_ne_nil [] [[]]) (by simp) (r :: rest)
      rw [htext]
      exact EqvGen.trans _ _ _ (EqvGen.rel _ _ hroot) hblanks
  · obtain ⟨part, hroot, hpart⟩ := Part.exists_ofFirst hfirst
    rw [hpart, List.singleton_append, Part.spellAll_cons hroot, Part.spell_of_ofFirst hfirst (hpart true), htext]
    exact eqvGen_blanks (List.cons_ne_nil first []) (by simpa using hfirst) rest

/-- Two paths have the same parts just when slashes and dots that are added or left out lead from one to the other. -/
theorem parts_eq_iff : p.parts = q.parts ↔ EqvGen Padded p q := by
  constructor
  · intro h
    have hq := eqvGen_spellAll q
    rw [← h] at hq
    exact EqvGen.trans _ _ _ (eqvGen_spellAll p) (EqvGen.symm _ _ hq)
  · intro h
    induction h with
    | rel p q h => exact h.parts_eq
    | refl p => rfl
    | symm p q _ ih => exact ih.symm
    | trans p q r _ _ ih ih' => exact ih.trans ih'

end Path

/-! ## Lists that say the same -/

section Lists

variable {α β γ : Type} {f : α → γ} {xs ys : List α} {o o' : Option α} {p q : α → Bool} {g g' : α → β}

theorem option_same (h : o.map f = o'.map f) : o = none ∧ o' = none ∨ ∃ x y, o = some x ∧ o' = some y ∧ f x = f y := by
  cases o with
  | none => exact Or.inl ⟨rfl, Option.map_eq_none_iff.1 h.symm⟩
  | some x =>
    obtain ⟨y, hy, hsame⟩ := Option.map_eq_some_iff.1 h.symm
    exact Or.inr ⟨x, y, rfl, hy, hsame.symm⟩

theorem forall₂_same (h : xs.map f = ys.map f) : List.Forall₂ (fun x y => f x = f y) xs ys := by
  rw [← List.forall₂_eq_eq_eq, List.forall₂_map_left_iff, List.forall₂_map_right_iff] at h
  exact h

theorem length_same (h : xs.map f = ys.map f) : xs.length = ys.length := by
  rw [← List.length_map f, h, List.length_map]

/-- What is kept by what the elements say. -/
theorem filter_same (h : xs.map f = ys.map f) (hpq : ∀ x y, f x = f y → p x = q y) :
    (xs.filter p).map f = (ys.filter q).map f := by
  have hall := forall₂_same h
  clear h
  induction hall with
  | nil => rfl
  | @cons x y xs ys hx _ ih =>
    rw [List.filter_cons, List.filter_cons, hpq x y hx]
    split
    · rw [List.map_cons, List.map_cons, hx, ih]
    · exact ih

theorem find?_same (h : xs.map f = ys.map f) (hpq : ∀ x y, f x = f y → p x = q y) :
    (xs.find? p).map f = (ys.find? q).map f := by
  rw [← List.head?_filter, ← List.head?_filter, ← List.head?_map, ← List.head?_map, filter_same h hpq]

theorem any_same (h : xs.map f = ys.map f) (hpq : ∀ x y, f x = f y → p x = q y) : xs.any p = ys.any q := by
  rw [← List.isSome_find?, ← List.isSome_find?, ← Option.isSome_map (f := f), find?_same h hpq, Option.isSome_map]

theorem map_same (h : xs.map f = ys.map f) (hg : ∀ x y, f x = f y → g x = g' y) : xs.map g = ys.map g' := by
  have hall := forall₂_same h
  clear h
  induction hall with
  | nil => rfl
  | @cons x y xs ys hx _ ih => rw [List.map_cons, List.map_cons, hg x y hx, ih]

end Lists

/-! ## Lists of paths -/

namespace Path

variable {p q p' q' : Path} {ps qs seen seen' : List Path}

theorem beq_congr (hp : p.parts = p'.parts) (hq : q.parts = q'.parts) : (p == q) = (p' == q') := by
  rw [Bool.eq_iff_iff, beq_iff, beq_iff, hp, hq]

theorem isAbsolute_congr (h : p.parts = q.parts) : p.isAbsolute = q.isAbsolute := by
  rw [Bool.eq_iff_iff, isAbsolute_iff, isAbsolute_iff, h]

theorem contains_congr (hseen : seen.map parts = seen'.map parts) (h : p.parts = q.parts) :
    seen.contains p = seen'.contains q := by
  rw [Bool.eq_iff_iff, contains_iff_mem_parts, contains_iff_mem_parts, hseen, h]

/-- Which paths are new does not depend on how they are spelled. -/
theorem insertAll_congr (hseen : seen.map parts = seen'.map parts) (h : ps.map parts = qs.map parts) :
    (insertAll seen ps).map parts = (insertAll seen' qs).map parts := by
  have hcons : ∀ seen p ps, insertAll seen (p :: ps) = insertAll (if seen.contains p then seen else seen ++ [p]) ps :=
    fun _ _ _ => rfl
  have hall := forall₂_same h
  clear h
  induction hall generalizing seen seen' with
  | nil => exact hseen
  | cons hp _ ih =>
    rw [hcons, hcons, contains_congr hseen hp]
    refine ih ?_
    split
    · exact hseen
    · rw [List.map_append, List.map_append, hseen, List.map_singleton, List.map_singleton, hp]

theorem distinct_congr (h : ps.map parts = qs.map parts) : (distinct ps).map parts = (distinct qs).map parts :=
  insertAll_congr rfl h

theorem latest_congr (h : ps.map parts = qs.map parts) : (latest ps).map parts = (latest qs).map parts := by
  rw [latest, latest, List.map_reverse, List.map_reverse, distinct_congr]
  rw [List.map_reverse, List.map_reverse, h]

theorem map_sort (ps : List Path) : (sort ps).map parts = (ps.map parts).mergeSort fun s t => !lexLt Part.lt t s :=
  List.map_mergeSort fun _ _ _ _ => rfl

/-- Which path is listed before which does not depend on how they are spelled. -/
theorem sort_congr (h : ps.map parts = qs.map parts) : (sort ps).map parts = (sort qs).map parts := by
  rw [map_sort, map_sort, h]

theorem parent?_congr (h : p.parts = q.parts) : p.parent?.map parts = q.parent?.map parts := by
  cases hp : p.parent? with
  | none => rw [parent?_eq_none_iff.2 (h ▸ parent?_eq_none_iff.1 hp)]
  | some r =>
    obtain ⟨s, hs, hsame⟩ := exists_parent?_congr (beq_iff.2 h) hp
    rw [hs, Option.map_some, Option.map_some, beq_iff.1 hsame]

end Path

end RemoteFacts
