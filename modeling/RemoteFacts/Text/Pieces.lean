/-!
# Pieces of a text

* `Text.pieces` : what stands between the separators of a text; a text without a separator is one piece;
* `pieces_append` : a separator between two texts keeps their pieces apart;
* `not_mem_of_mem_pieces` : no piece holds a separator;
* `intercalate_pieces`, `pieces_intercalate` : putting the separators back undoes the cut, and the other way
  round.
-/

namespace RemoteFacts.Text

/-- Puts a character in front of the first piece. -/
def addChar (c : Char) : List (List Char) → List (List Char)
  | [] => [[c]]
  | piece :: rest => (c :: piece) :: rest

/-- What stands between the separators of a text. -/
def pieces (sep : Char) : List Char → List (List Char)
  | [] => [[]]
  | c :: cs => if c = sep then [] :: pieces sep cs else addChar c (pieces sep cs)

variable {sep : Char}

theorem addChar_append {c : Char} {ps qs : List (List Char)} (h : ps ≠ []) :
    addChar c (ps ++ qs) = addChar c ps ++ qs := by
  cases ps with
  | nil => exact absurd rfl h
  | cons p ps => rfl

@[simp] theorem addChar_ne_nil (c : Char) (ps : List (List Char)) : addChar c ps ≠ [] := by
  cases ps <;> simp [addChar]

@[simp] theorem pieces_ne_nil (sep : Char) (cs : List Char) : pieces sep cs ≠ [] := by
  cases cs with
  | nil => simp [pieces]
  | cons c cs => rw [pieces]; split <;> simp

theorem pieces_append (cs ds : List Char) :
    pieces sep (cs ++ sep :: ds) = pieces sep cs ++ pieces sep ds := by
  induction cs with
  | nil => simp [pieces]
  | cons c cs ih =>
    simp only [List.cons_append, pieces, ih]
    split
    · rfl
    · exact addChar_append (pieces_ne_nil sep cs)

theorem not_mem_of_mem_pieces (sep : Char) (cs : List Char) : ∀ p ∈ pieces sep cs, sep ∉ p := by
  induction cs with
  | nil => simp [pieces]
  | cons c cs ih =>
    rw [pieces]
    split
    · simpa using ih
    · next h =>
      obtain ⟨p, ps, hp⟩ := List.exists_cons_of_ne_nil (pieces_ne_nil sep cs)
      rw [hp] at ih ⊢
      simp only [addChar, List.forall_mem_cons] at ih ⊢
      exact ⟨by simp [Ne.symm h, ih.1], ih.2⟩

theorem pieces_of_not_mem {cs : List Char} (h : sep ∉ cs) : pieces sep cs = [cs] := by
  induction cs with
  | nil => rfl
  | cons c cs ih =>
    rw [List.mem_cons, not_or] at h
    rw [pieces, if_neg (Ne.symm h.1), ih h.2]; rfl

theorem intercalate_addChar {c : Char} {ps : List (List Char)} (h : ps ≠ []) :
    [sep].intercalate (addChar c ps) = c :: [sep].intercalate ps := by
  match ps, h with
  | [p], _ => rfl
  | p :: q :: ps, _ => simp [addChar]

theorem intercalate_append {xs ys : List (List Char)} (hxs : xs ≠ []) (hys : ys ≠ []) :
    [sep].intercalate (xs ++ ys) = [sep].intercalate xs ++ sep :: [sep].intercalate ys := by
  induction xs with
  | nil => contradiction
  | cons x xs ih =>
    cases xs with
    | nil =>
      obtain ⟨y, ys, rfl⟩ := List.exists_cons_of_ne_nil hys
      simp [List.intercalate_cons_cons]
    | cons x' xs =>
      rw [List.cons_append, List.cons_append, List.intercalate_cons_cons, List.intercalate_cons_cons,
        ← List.cons_append, ih (List.cons_ne_nil x' xs), List.append_assoc, List.append_assoc, List.append_assoc]

theorem intercalate_pieces (sep : Char) (cs : List Char) : [sep].intercalate (pieces sep cs) = cs := by
  induction cs with
  | nil => rfl
  | cons c cs ih =>
    rw [pieces]
    split
    · next h =>
      obtain ⟨p, ps, hp⟩ := List.exists_cons_of_ne_nil (pieces_ne_nil sep cs)
      rw [hp, List.intercalate_cons_cons, ← hp, ih, h]; rfl
    · rw [intercalate_addChar (pieces_ne_nil sep cs), ih]

theorem pieces_intercalate {ps : List (List Char)} (hne : ps ≠ []) (h : ∀ p ∈ ps, sep ∉ p) :
    pieces sep ([sep].intercalate ps) = ps := by
  induction ps with
  | nil => exact absurd rfl hne
  | cons p ps ih =>
    rw [List.forall_mem_cons] at h
    cases ps with
    | nil => simpa using pieces_of_not_mem h.1
    | cons q qs =>
      rw [List.intercalate_cons_cons, List.append_assoc, List.singleton_append, pieces_append,
        pieces_of_not_mem h.1, ih (by simp) h.2]; rfl

end RemoteFacts.Text
