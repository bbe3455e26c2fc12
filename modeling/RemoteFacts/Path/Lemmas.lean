import RemoteFacts.Path

/-!
# Laws of paths

* `Path.parts_of_parent?`, `Path.parent?_eq_none_iff` : the parent lacks the last part;
* `Path.ParentOf`, `Path.any_parent?_iff` : the parent, told by the parts alone;
* `Path.parts_join` : a relative path below another one adds its parts, except a leading `.`;
* `Path.isAbsolute_iff` : an absolute path is one whose first part is the root;
* `Path.le_trans`, `Path.le_total`, `Path.beq_of_le_of_le` : the order of listing is total up to spelling.
-/

namespace RemoteFacts

open Text

namespace Part

theorem ofPieces_append (ps qs : List (List Char)) : ofPieces (ps ++ qs) = ofPieces ps ++ ofPieces qs :=
  List.filterMap_append

theorem ofPieces_cons (p : List Char) (ps : List (List Char)) :
    ofPieces (p :: ps) = (ofPiece? p).toList ++ ofPieces ps := by
  cases h : ofPiece? p <;> simp [ofPieces, h]

/-- A first piece with something in it stands for one part, and not for the root. -/
theorem exists_ofFirst {p : List Char} (h : p ≠ []) :
    ∃ part, part ≠ .root ∧ ∀ alone, ofFirst alone p = [part] := by
  unfold ofFirst
  split
  · contradiction
  · exact ⟨.here, by simp, fun _ => rfl⟩
  · unfold ofPiece?
    split
    · contradiction
    · contradiction
    · exact ⟨.up, by simp, fun _ => rfl⟩
    · exact ⟨.name (String.ofList p), by simp, fun _ => rfl⟩

theorem length_ofFirst_le (alone : Bool) (p : List Char) : (ofFirst alone p).length ≤ 1 := by
  cases p with
  | nil => cases alone <;> decide
  | cons c cs =>
    obtain ⟨part, _, hpart⟩ := exists_ofFirst (List.cons_ne_nil c cs)
    rw [hpart]
    exact Nat.le_refl 1

theorem ofSpelling_append {ps qs : List (List Char)} (hp : ps ≠ [[]]) (hps : ps ≠ []) (hqs : qs ≠ []) :
    ofSpelling (ps ++ qs) = ofSpelling ps ++ ofPieces qs := by
  obtain ⟨first, rest, rfl⟩ := List.exists_cons_of_ne_nil hps
  have hlast : (rest ++ qs).isEmpty = false := by simp [hqs]
  have hfirst : ofFirst false first = ofFirst rest.isEmpty first := by
    cases first with
    | nil =>
      cases rest with
      | nil => exact absurd rfl hp
      | cons => rfl
    | cons c cs =>
      obtain ⟨part, _, hpart⟩ := exists_ofFirst (List.cons_ne_nil c cs)
      rw [hpart, hpart]
  rw [List.cons_append, ofSpelling, ofSpelling, hlast, hfirst, ofPieces_append, List.append_assoc]

/-- What is written after a closing slash adds its pieces. -/
theorem ofSpelling_snoc_append {ps qs : List (List Char)} (hps : ps ≠ []) (hqs : qs ≠ []) :
    ofSpelling (ps ++ qs) = ofSpelling (ps ++ [[]]) ++ ofPieces qs := by
  obtain ⟨first, rest, rfl⟩ := List.exists_cons_of_ne_nil hps
  have h₁ : (rest ++ qs).isEmpty = false := by simp [hqs]
  have h₂ : (rest ++ [[]]).isEmpty = false := by simp
  rw [List.cons_append, List.cons_append, ofSpelling, ofSpelling, h₁, h₂, ofPieces_append,
    ofPieces_append, List.append_assoc, List.append_assoc]
  rfl

/-- The root and the `.` that counts stand at the front of a path only. -/
theorem up_or_name_of_mem_ofPieces {part : Part} {ps : List (List Char)} (h : part ∈ ofPieces ps) :
    part = .up ∨ ∃ s, part = .name s := by
  obtain ⟨p, _, hp⟩ := List.mem_filterMap.1 h
  unfold ofPiece? at hp
  split at hp
  · contradiction
  · contradiction
  · exact Or.inl (Option.some.inj hp).symm
  · exact Or.inr ⟨_, (Option.some.inj hp).symm⟩

end Part

namespace Path

theorem parts_ofPieces {ps : List (List Char)} (hne : ps ≠ []) (h : ∀ p ∈ ps, '/' ∉ p) :
    (ofPieces ps).parts = Part.ofSpelling ps := by
  rw [parts, pieces, ofPieces, String.toList_ofList, pieces_intercalate hne h]

/-! ## Parents -/

theorem mem_trimPieces {p : List Char} {ps : List (List Char)} (h : p ∈ trimPieces ps) : p ∈ ps := by
  rw [trimPieces, List.mem_reverse] at h
  exact List.mem_reverse.1 ((List.dropWhile_sublist _).subset h)

theorem mem_dropPiece {p : List Char} {ps : List (List Char)} (h : p ∈ dropPiece ps) : p ∈ ps :=
  mem_trimPieces (List.dropLast_subset _ (mem_trimPieces h))

theorem ofPieces_trimPieces (ps : List (List Char)) : Part.ofPieces (trimPieces ps) = Part.ofPieces ps := by
  have key : ∀ qs : List (List Char),
      Part.ofPieces (qs.dropWhile fun p => (Part.ofPiece? p).isNone) = Part.ofPieces qs := by
    intro qs
    induction qs with
    | nil => rfl
    | cons q qs ih =>
      rw [List.dropWhile_cons]
      split
      · next h => rw [ih, Part.ofPieces_cons, Option.isNone_iff_eq_none.1 h]; rfl
      · rfl
  simp only [trimPieces, Part.ofPieces, List.filterMap_reverse] at key ⊢
  rw [key, List.filterMap_reverse, List.reverse_reverse]

/-- The last piece left over names something. -/
theorem exists_of_trimPieces_ne_nil {ps : List (List Char)} (h : trimPieces ps ≠ []) :
    ∃ qs q part, trimPieces ps = qs ++ [q] ∧ Part.ofPiece? q = some part := by
  rw [trimPieces] at h ⊢
  obtain ⟨q, qs, hq⟩ := List.exists_cons_of_ne_nil (mt List.reverse_eq_nil_iff.2 h)
  have hd := List.head?_dropWhile_not (fun p => (Part.ofPiece? p).isNone) ps.reverse
  rw [hq] at hd ⊢
  simp only [List.head?_cons, Option.isNone_eq_false_iff] at hd
  obtain ⟨part, hpart⟩ := Option.isSome_iff_exists.1 hd
  exact ⟨qs.reverse, q, part, by simp, hpart⟩


theorem ofPieces_dropPiece (ps : List (List Char)) :
    Part.ofPieces (dropPiece ps) = (Part.ofPieces ps).dropLast := by
  rw [dropPiece, ofPieces_trimPieces]
  by_cases h : trimPieces ps = []
  · rw [← ofPieces_trimPieces ps, h]; rfl
  · obtain ⟨qs, q, part, hq, hpart⟩ := exists_of_trimPieces_ne_nil h
    rw [← ofPieces_trimPieces ps, hq, List.dropLast_concat, Part.ofPieces_append, Part.ofPieces_cons, hpart]
    simp [Part.ofPieces]

theorem trimPieces_eq_nil_iff {ps : List (List Char)} : trimPieces ps = [] ↔ Part.ofPieces ps = [] := by
  constructor
  · intro h; rw [← ofPieces_trimPieces, h]; rfl
  · intro h
    apply Classical.byContradiction
    intro hne
    obtain ⟨qs, q, part, hq, hpart⟩ := exists_of_trimPieces_ne_nil hne
    rw [← ofPieces_trimPieces, hq, Part.ofPieces_append, Part.ofPieces_cons, hpart] at h
    simp at h

theorem parts_eq (p : Path) {first : List Char} {rest : List (List Char)} (h : p.pieces = first :: rest) :
    p.parts = Part.ofFirst rest.isEmpty first ++ Part.ofPieces rest := by
  rw [parts, h]; rfl

/-- Pieces below the first stand for the same parts whether the root is spelled out or not. -/
theorem ofSpelling_below (first : List Char) (ps : List (List Char)) :
    Part.ofSpelling (first :: below first ps) = Part.ofFirst false first ++ Part.ofPieces ps := by
  cases ps with
  | cons p ps => simp [below, Part.ofSpelling]
  | nil =>
    cases first with
    | nil => rfl
    | cons c cs =>
      obtain ⟨part, _, hpart⟩ := Part.exists_ofFirst (List.cons_ne_nil c cs)
      simp [below, Part.ofSpelling, hpart]

/-- The parent of a path lacks its last part. -/
theorem parts_of_parent? {p q : Path} (h : p.parent? = some q) : q.parts = p.parts.dropLast := by
  obtain ⟨first, rest, hp⟩ := List.exists_cons_of_ne_nil (pieces_ne_nil '/' p.text.toList)
  have hslash : ∀ x ∈ first :: rest, '/' ∉ x := fun x hx =>
    not_mem_of_mem_pieces '/' p.text.toList x (hp ▸ hx)
  rw [parts_eq p hp]
  simp only [parent?, pieces, hp] at h
  split at h
  · next hr =>
    rw [List.isEmpty_iff, trimPieces_eq_nil_iff] at hr
    split at h
    · contradiction
    · next hf =>
      cases h
      rw [hr]
      obtain ⟨part, _, hpart⟩ := Part.exists_ofFirst (mt List.isEmpty_iff.2 hf)
      rw [hpart]; rfl
  · next hr =>
    rw [List.isEmpty_iff, trimPieces_eq_nil_iff] at hr
    cases h
    have hrest : rest.isEmpty = false := by
      cases rest with
      | nil => exact absurd rfl hr
      | cons => rfl
    rw [List.dropLast_append_of_ne_nil hr, ← ofPieces_dropPiece, hrest, ← ofSpelling_below]
    refine parts_ofPieces (by simp) fun x hx => ?_
    rw [below] at hx
    split at hx
    · simp only [List.mem_cons, List.not_mem_nil, or_false] at hx
      rcases hx with rfl | rfl
      · exact hslash _ (by simp)
      · simp
    · rcases List.mem_cons.1 hx with rfl | hx
      · exact hslash _ (by simp)
      · exact hslash x (by simp [mem_dropPiece hx])

/-- A path has no parent when it is empty or the root. -/
theorem parent?_eq_none_iff {p : Path} : p.parent? = none ↔ p.parts = [] ∨ p.parts = [.root] := by
  obtain ⟨first, rest, hp⟩ := List.exists_cons_of_ne_nil (pieces_ne_nil '/' p.text.toList)
  rw [parts_eq p hp]
  simp only [parent?, pieces, hp]
  by_cases hr : Part.ofPieces rest = []
  · rw [if_pos (List.isEmpty_iff.2 (trimPieces_eq_nil_iff.2 hr)), hr, List.append_nil]
    cases first with
    | nil => cases rest <;> simp [Part.ofFirst]
    | cons c cs =>
      obtain ⟨part, hroot, hpart⟩ := Part.exists_ofFirst (List.cons_ne_nil c cs)
      simp [hpart, hroot]
  · obtain ⟨x, xs, hx⟩ := List.exists_cons_of_ne_nil hr
    have hrest : rest.isEmpty = false := by
      cases rest with
      | nil => exact absurd rfl hr
      | cons => rfl
    rw [if_neg (by simp [trimPieces_eq_nil_iff, hr]), hx, hrest]
    cases first with
    | nil => simp [Part.ofFirst]
    | cons c cs =>
      obtain ⟨part, _, hpart⟩ := Part.exists_ofFirst (List.cons_ne_nil c cs)
      simp [hpart]

/-- `p` is the directory that holds `q`: `q` has one more part, and that is not the root, which nothing holds. -/
def ParentOf (p q : Path) : Prop := ∃ part, part ≠ .root ∧ q.parts = p.parts ++ [part]

/-- The root is the first part of a path or none. -/
theorem eq_nil_of_parts_eq_append_root {p : Path} {ps : List Part} (h : p.parts = ps ++ [.root]) : ps = [] := by
  obtain ⟨first, rest, hp⟩ := List.exists_cons_of_ne_nil (pieces_ne_nil '/' p.text.toList)
  rw [parts_eq p hp] at h
  rcases List.eq_nil_or_concat (Part.ofPieces rest) with hrest | ⟨qs, last, hrest⟩
  · rw [hrest, List.append_nil] at h
    have hlength := Part.length_ofFirst_le rest.isEmpty first
    rw [h, List.length_append, List.length_singleton] at hlength
    exact List.length_eq_zero_iff.1 (by omega)
  · rw [hrest, List.concat_eq_append, ← List.append_assoc] at h
    obtain rfl : last = .root := (List.append_singleton_inj.1 h).2
    have hmem : Part.root ∈ Part.ofPieces rest := by rw [hrest]; simp
    rcases Part.up_or_name_of_mem_ofPieces hmem with hup | ⟨s, hname⟩
    · contradiction
    · contradiction

theorem any_parent?_iff {p q : Path} : q.parent?.any (p == ·) = true ↔ p.ParentOf q := by
  rw [Option.any_eq_true]
  constructor
  · rintro ⟨r, hr, hsame⟩
    have hparts : p.parts = q.parts.dropLast := (beq_iff.1 hsame).trans (parts_of_parent? hr)
    have hnone : ¬ (q.parts = [] ∨ q.parts = [.root]) := by
      rw [← parent?_eq_none_iff, hr]
      exact Option.some_ne_none r
    rw [not_or] at hnone
    have hsplit := (List.dropLast_concat_getLast hnone.1).symm
    refine ⟨q.parts.getLast hnone.1, fun hroot => hnone.2 ?_, by rw [hparts]; exact hsplit⟩
    rw [hroot] at hsplit
    rw [hsplit, eq_nil_of_parts_eq_append_root hsplit, List.nil_append]
  · rintro ⟨part, hroot, hq⟩
    cases hr : q.parent? with
    | none =>
      rcases parent?_eq_none_iff.1 hr with hempty | halone
      · rw [hempty] at hq
        exact absurd hq.symm (List.append_ne_nil_of_right_ne_nil _ (List.cons_ne_nil _ _))
      · rw [halone] at hq
        have halike : [] ++ [Part.root] = p.parts ++ [part] := hq
        exact absurd (List.append_singleton_inj.1 halike).2.symm hroot
    | some r => exact ⟨r, rfl, beq_iff.2 (by rw [parts_of_parent? hr, hq, List.dropLast_concat])⟩

/-! ## Last names -/

theorem fileName?_eq_some_iff {p : Path} {s : String} : p.fileName? = some s ↔ p.parts.getLast? = some (.name s) := by
  unfold fileName?
  split
  · next hlast => simp [hlast]
  · next hlast => exact ⟨nofun, fun hname => absurd hname (hlast s)⟩

/-! ## Joins -/

theorem join_of_isAbsolute {p q : Path} (h : q.isAbsolute = true) : p.join q = q := by
  rw [join, if_pos h]

theorem join_of_empty {p q : Path} (h : p.text.toList = []) : p.join q = q := by
  rw [join, h]; split <;> rfl

/-- A relative path below another one adds its parts, except a leading `.`. -/
theorem parts_join {p q : Path} (hp : p.text.toList ≠ []) (hq : q.isAbsolute = false) :
    (p.join q).parts = p.parts ++ Part.ofPieces q.pieces := by
  rw [join, if_neg (by simp [hq])]
  split
  · next h => exact absurd (List.getLast?_eq_none_iff.1 h) hp
  · next h =>
    obtain ⟨cs, hcs⟩ := List.getLast?_eq_some_iff.1 h
    rw [parts, parts, pieces, pieces, String.toList_append, hcs, List.append_assoc, List.singleton_append,
      pieces_append, pieces_append, Part.ofSpelling_snoc_append (pieces_ne_nil '/' cs) (pieces_ne_nil '/' _)]
    rfl
  · rw [parts, parts, pieces, pieces, String.toList_append, String.toList_append, List.append_assoc]
    rw [show "/".toList = ['/'] from rfl, List.singleton_append, pieces_append,
      Part.ofSpelling_append _ (pieces_ne_nil '/' _) (pieces_ne_nil '/' _)]
    · rfl
    · intro h
      have := intercalate_pieces '/' p.text.toList
      rw [h] at this
      exact hp this.symm

/-! ## Absolute paths -/

/-- A path begins at the root when the root is its first part. -/
theorem isAbsolute_iff {p : Path} : p.isAbsolute = true ↔ p.parts.head? = some .root := by
  rw [isAbsolute, parts, pieces]
  cases hc : p.text.toList with
  | nil => simp [Text.pieces, Part.ofSpelling, Part.ofFirst, Part.ofPieces]
  | cons c cs =>
    rw [Text.pieces]
    by_cases h : c = '/'
    · simp [h, Part.ofSpelling, Part.ofFirst]
    · obtain ⟨first, rest, hp⟩ := List.exists_cons_of_ne_nil (pieces_ne_nil '/' cs)
      obtain ⟨part, hroot, hpart⟩ := Part.exists_ofFirst (List.cons_ne_nil c first)
      simp [h, hp, addChar, Part.ofSpelling, hpart, hroot]

end Path

/-! ## Order -/

theorem Part.code_inj (a b : Part) (h : a.code = b.code) : a = b := by
  cases a <;> cases b <;> simp [Part.code] at h ⊢
  exact String.toList_inj.1 (List.map_inj_right (fun _ _ => Char.toNat_inj.1) |>.1 h)

theorem Part.strictTotal_lt : StrictTotal Part.lt := strictTotal_nat.lexLt.ofKey Part.code_inj

namespace Path

theorem strictTotal_lexLt : StrictTotal (lexLt Part.lt) := Part.strictTotal_lt.lexLt

theorem le_total (p q : Path) : (p.le q || q.le p) = true := by
  cases h : lexLt Part.lt q.parts p.parts
  · simp [le, h]
  · simp [le, strictTotal_lexLt.asymm h]

theorem le_trans {p q r : Path} (h : p.le q = true) (k : q.le r = true) : p.le r = true := by
  simp only [le, Bool.not_eq_true'] at h k ⊢
  exact strictTotal_lexLt.not_trans h k

/-- Paths that are listed neither before nor after each other are one path. -/
theorem beq_of_le_of_le {p q : Path} (h : p.le q = true) (k : q.le p = true) : (p == q) = true := by
  simp only [le, Bool.not_eq_true'] at h k
  exact beq_iff.2 (strictTotal_lexLt.eq_of_not k h)

end Path

end RemoteFacts
