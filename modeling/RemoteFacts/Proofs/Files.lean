import RemoteFacts.FileTree
import RemoteFacts.Path.Lemmas

/-!
# Writing over a file that can be read

* `Path.parent?_text_prefix` : the parent of a path is spelled by the beginning of its spelling;
* `FileTree.walk_put` : other bytes in a file lead no walk elsewhere;
* `FileTree.exists_directory_of_parent?` : the directory above what a path leads to can be reached;
* `FileTree.FileAt` : a path leads to a file with given bytes; this is what `read` has found out
  (`exists_fileAt_of_read`), and all that it takes to write over it (`FileAt.write`, `FileAt.put`,
  `FileAt.makeDirectories`).
-/

namespace RemoteFacts

/-! ## The spelling of a parent -/

namespace Path

theorem trimPieces_prefix_self (ps : List (List Char)) : trimPieces ps <+: ps := by
  simpa [trimPieces] using (List.dropWhile_suffix (l := ps.reverse) fun p => (Part.ofPiece? p).isNone).reverse

theorem dropPiece_prefix_self (ps : List (List Char)) : dropPiece ps <+: ps :=
  (trimPieces_prefix_self _).trans ((List.dropLast_prefix _).trans (trimPieces_prefix_self ps))

theorem intercalate_prefix {ps qs : List (List Char)} (hne : ps ≠ []) (h : ps <+: qs) :
    ['/'].intercalate ps <+: ['/'].intercalate qs := by
  obtain ⟨rs, rfl⟩ := h
  cases rs with
  | nil => exact ⟨[], by rw [List.append_nil, List.append_nil]⟩
  | cons r rs =>
    rw [Text.intercalate_append hne (List.cons_ne_nil r rs)]
    exact List.prefix_append ..

/-- The parent of a path is spelled by the beginning of its spelling. -/
theorem parent?_text_prefix {p q : Path} (h : p.parent? = some q) : q.text.toList <+: p.text.toList := by
  obtain ⟨first, rest, hp⟩ := List.exists_cons_of_ne_nil (Text.pieces_ne_nil '/' p.text.toList)
  have htext : ['/'].intercalate (first :: rest) = p.text.toList := hp ▸ Text.intercalate_pieces '/' _
  simp only [parent?, pieces, hp] at h
  split at h
  · split at h
    · contradiction
    · cases h
      exact List.nil_prefix
  · next hrest =>
    cases h
    rw [← htext, ofPieces, String.toList_ofList]
    unfold below
    split
    · next hbare =>
      -- the parent is the root, which is spelled by the slash at the front of `p`
      rw [Bool.and_eq_true, List.isEmpty_iff] at hbare
      obtain ⟨r, rs, rfl⟩ := List.exists_cons_of_ne_nil (show rest ≠ [] by rintro rfl; exact hrest rfl)
      rw [hbare.1, List.intercalate_cons_cons]
      exact List.prefix_append ['/'] _
    · exact intercalate_prefix (List.cons_ne_nil first _) ((List.prefix_cons_inj first).2 (dropPiece_prefix_self rest))

end Path

namespace FileTree

variable {t : FileTree} {p : Path} {l m : Location} {n : Node} {old new : List UInt8}

/-! ## What lies where -/

theorem node?_put_self (hl : l ≠ []) : (t.put l n).node? l = some n := by
  rw [node?, if_neg (by simpa using hl), put, List.lookup_cons_self]

theorem lookup_filter_ne {nodes : List (Location × Node)} (hne : m ≠ l) :
    (nodes.filter fun e => !(e.1 == l)).lookup m = nodes.lookup m := by
  induction nodes with
  | nil => rfl
  | cons e nodes ih =>
    by_cases hel : e.1 = l
    · have hme : (m == e.1) = false := by simpa [hel] using hne
      rw [List.filter_cons_of_neg (by simp [hel]), ih, List.lookup_cons, hme]
    · rw [List.filter_cons_of_pos (by simpa using hel), List.lookup_cons, List.lookup_cons, ih]

theorem node?_put_of_ne (hne : m ≠ l) : (t.put l n).node? m = t.node? m := by
  have hml : (m == l) = false := by simpa using hne
  simp only [node?, put, List.lookup_cons, hml, lookup_filter_ne hne]

/-! ## Walking -/

/-- Other bytes in a file lead no walk elsewhere. -/
theorem walk_put (hl : t.node? l = some (.file old)) (ps : List Part) :
    (t.put l (.file new)).walk m ps = t.walk m ps := by
  have hne : l ≠ [] := by rintro rfl; cases hl
  induction ps generalizing m with
  | nil => rfl
  | cons part ps ih =>
    unfold walk
    by_cases hm : m = l
    · subst hm
      rw [node?_put_self hne, hl]
    · rw [node?_put_of_ne hm]
      simp only [ih]

/-- The way to what lies in a directory leads through the directory. -/
theorem exists_directory_of_walk {part : Part} {ps : List Part} (h : t.walk m (ps ++ [part]) = .ok l) :
    ∃ k, t.walk m ps = .ok k ∧ t.node? k = some .directory := by
  induction ps generalizing m with
  | nil =>
    rw [List.nil_append, walk.eq_def] at h
    dsimp only at h
    split at h
    · cases h
    · cases h
    · next hm => exact ⟨m, rfl, hm⟩
  | cons p ps ih =>
    rw [List.cons_append, walk.eq_def] at h
    rw [walk.eq_def]
    dsimp only at h ⊢
    split at h
    · cases h
    · cases h
    · cases p with
      | root => exact ih h
      | here => exact ih h
      | up => exact ih h
      | name s =>
        dsimp only at h ⊢
        split at h
        · next hs => rw [if_pos hs]; exact ih h
        · cases h

theorem fits_of_prefix {most : Nat} {a b : String} (hab : a.toList <+: b.toList) (h : fits most b = true) :
    fits most a = true := by
  rw [fits, decide_eq_true_eq] at h ⊢
  obtain ⟨cs, hcs⟩ := hab
  rw [Text.Utf8.encode, ← hcs, List.flatMap_append, List.length_append] at h
  exact Nat.le_trans (Nat.le_add_right ..) h

/-- The directory above what a path leads to can be reached. -/
theorem exists_directory_of_parent? {dir : Path} (hparent : p.parent? = some dir)
    (hempty : dir.text.isEmpty = false) (h : t.locate p = .ok l) :
    ∃ k, t.locate dir = .ok k ∧ t.node? k = some .directory := by
  have hbegin := Path.parent?_text_prefix hparent
  have hparts : p.parts ≠ [] := fun hnil => by
    rw [Path.parent?_eq_none_iff.2 (Or.inl hnil)] at hparent
    cases hparent
  unfold locate at h ⊢
  split at h
  · cases h
  split at h
  · cases h
  next hzero =>
  split at h
  · cases h
  next hlong =>
  have hclean : ¬ dir.text.toList.contains '\x00' = true := fun hmem =>
    hzero (List.contains_iff_mem.2 (hbegin.subset (List.contains_iff_mem.1 hmem)))
  have hfits : fits longestPath dir.text = true := fits_of_prefix hbegin (by simpa using hlong)
  rw [if_neg (by simp [hempty]), if_neg hclean, if_neg (by simp [hfits]), Path.parts_of_parent? hparent]
  rw [← List.dropLast_concat_getLast hparts] at h
  exact exists_directory_of_walk h

/-! ## Files -/

/-- A path leads to a file with these bytes, and is not written as that of a directory. -/
structure FileAt (t : FileTree) (p : Path) (l : Location) (bytes : List UInt8) : Prop where
  locate : t.locate p = .ok l
  node : t.node? l = some (.file bytes)
  plain : namesDirectory p = false

/-- The bytes that a path reads are those of a file. -/
theorem exists_fileAt_of_read (h : t.read p = .ok old) : ∃ l, t.FileAt p l old := by
  simp only [read, find] at h
  cases hlocate : t.locate p with
  | error e => rw [hlocate] at h; cases h
  | ok l =>
    rw [hlocate] at h
    simp only [bind, Except.bind] at h
    cases hnode : t.node? l with
    | none => rw [hnode] at h; cases h
    | some node =>
      rw [hnode] at h
      cases node with
      | directory => cases h
      | file bytes =>
        cases hplain : namesDirectory p with
        | true => rw [hplain] at h; cases h
        | false => rw [hplain] at h; cases h; exact ⟨l, hlocate, hnode, hplain⟩

namespace FileAt

theorem find (h : t.FileAt p l old) : t.find p = .ok (.file old) := by
  simp [FileTree.find, h.locate, h.node, h.plain, bind, Except.bind]

theorem read (h : t.FileAt p l old) : t.read p = .ok old := by
  simp [FileTree.read, h.find, bind, Except.bind]

theorem holds (h : t.FileAt p l old) : t.holds p = true := by
  rw [FileTree.holds, h.find]
  rfl

/-- Other bytes can be written to a file. -/
theorem write (h : t.FileAt p l old) (new : List UInt8) : t.write p new = .ok (t.put l (.file new)) := by
  simp [FileTree.write, h.locate, h.node, h.plain, bind, Except.bind]

/-- What has been written to a file is there afterwards. -/
theorem put (h : t.FileAt p l old) (new : List UInt8) : (t.put l (.file new)).FileAt p l new where
  locate := by
    have hlocate : (t.put l (.file new)).locate p = t.locate p := by
      unfold FileTree.locate
      rw [walk_put h.node]
      rfl
    exact hlocate.trans h.locate
  node := node?_put_self (by rintro rfl; cases h.node)
  plain := h.plain

/-- The directories above a file need not be made. -/
theorem makeDirectories (h : t.FileAt p l old) {dir : Path} (hparent : p.parent? = some dir) :
    t.makeDirectories dir = (.ok (), t) := by
  unfold FileTree.makeDirectories
  split
  · rfl
  next hempty =>
  obtain ⟨k, hlocate, hk⟩ := exists_directory_of_parent? hparent (by simpa using hempty) h.locate
  have hmake : t.makeDirectory dir = .error .alreadyThere := by
    simp [FileTree.makeDirectory, hlocate, hk, bind, Except.bind]
  have hthere : t.isDirectory dir = true := by
    simp [FileTree.isDirectory, FileTree.find, hlocate, hk, bind, Except.bind]
  rw [hmake]
  simp [hthere]

end FileAt

end FileTree

end RemoteFacts
