import Mathlib.Data.List.DropRight
import Mathlib.Data.List.Forall2
import RemoteFacts.Config.Setting

/-!
# How users spell values

Which texts stand for which values, said of the texts alone.

* `Config.SpellsBool` : a word for a truth value, in letters of either case (`boolOf_eq_ok_iff`);
* `Config.SpellsNat` : decimal digits after at most one plus, for a number below a bound (`numberOf_eq_ok_iff`);
* `Config.SpellsNames` : names with commas between them and blanks around them (`markersOf_eq_iff`).
-/

namespace RemoteFacts.Config

variable {s word : String} {cs name : List Char} {b : Bool} {n m high : Nat}

/-! ## Truth values -/

/-- A text is a word, each letter of it in either case. -/
def IsWord (word s : String) : Prop := List.Forall₂ (fun w c => c = w ∨ c = w.toUpper) word.toList s.toList

/-- A text stands for a truth value. -/
inductive SpellsBool : String → Bool → Prop where
  | yes {s word : String} (hword : word ∈ ["true", "1", "yes"]) (h : IsWord word s) : SpellsBool s true
  | no {s word : String} (hword : word ∈ ["false", "0", "no"]) (h : IsWord word s) : SpellsBool s false

theorem toNat_toLower (c : Char) :
    c.toLower.toNat = if 65 ≤ c.toNat ∧ c.toNat ≤ 90 then c.toNat + 32 else c.toNat := by
  have hletter : (c.val ≥ 'A'.val ∧ c.val ≤ 'Z'.val) ↔ 65 ≤ c.toNat ∧ c.toNat ≤ 90 := by
    rw [ge_iff_le, UInt32.le_iff_toNat_le, UInt32.le_iff_toNat_le]
    rfl
  unfold Char.toLower
  split
  · next h =>
    have hsum : (c.val + 32).toNat = (c.val.toNat + 32) % 2 ^ 32 := UInt32.toNat_add _ _
    have hbound : c.val.toNat ≤ 90 := (hletter.1 h).2
    rw [Nat.mod_eq_of_lt (by omega)] at hsum
    rw [if_pos (hletter.1 h)]
    exact hsum
  · next h => rw [if_neg (mt hletter.2 h)]

theorem toNat_toUpper (c : Char) :
    c.toUpper.toNat = if 97 ≤ c.toNat ∧ c.toNat ≤ 122 then c.toNat - 32 else c.toNat := by
  have hletter : ('a'.val ≤ c.val ∧ c.val ≤ 'z'.val) ↔ 97 ≤ c.toNat ∧ c.toNat ≤ 122 := by
    rw [UInt32.le_iff_toNat_le, UInt32.le_iff_toNat_le]
    rfl
  unfold Char.toUpper
  split
  · next h =>
    have hsum : (c.val + ('A'.val - 'a'.val)).toNat = (c.val.toNat + (2 ^ 32 - 32)) % 2 ^ 32 := UInt32.toNat_add _ _
    have hbound : 97 ≤ c.val.toNat ∧ c.val.toNat ≤ 122 := hletter.1 h
    rw [if_pos (hletter.1 h)]
    show (c.val + ('A'.val - 'a'.val)).toNat = c.val.toNat - 32
    omega
  · next h => rw [if_neg (mt hletter.2 h)]

/-- The letters of which a small letter is made are the letter itself and its capital. -/
theorem toLower_eq_iff {c w : Char} (hw : ¬ (65 ≤ w.toNat ∧ w.toNat ≤ 90)) :
    c.toLower = w ↔ c = w ∨ c = w.toUpper := by
  rw [← Char.toNat_inj, ← Char.toNat_inj, ← Char.toNat_inj, toNat_toLower, toNat_toUpper]
  split <;> split <;> omega

theorem forall₂_letters_iff {ws : List Char} (hws : ∀ w ∈ ws, ¬ (65 ≤ w.toNat ∧ w.toNat ≤ 90)) :
    List.Forall₂ (fun w c => c = w ∨ c = w.toUpper) ws cs ↔ cs.map Char.toLower = ws := by
  induction ws generalizing cs with
  | nil => rw [List.forall₂_nil_left_iff, List.map_eq_nil_iff]
  | cons w ws ih =>
    rw [List.forall_mem_cons] at hws
    rw [List.forall₂_cons_left_iff, List.map_eq_cons_iff]
    simp only [← toLower_eq_iff hws.1, ih hws.2]
    constructor
    · rintro ⟨c, cs, hc, hcs, rfl⟩
      exact ⟨c, cs, rfl, hc, hcs⟩
    · rintro ⟨c, cs, rfl, hc, hcs⟩
      exact ⟨c, cs, hc, hcs, rfl⟩

/-- A text in capitals or small letters is one of the words if it is in small letters. -/
theorem isWord_iff (hword : word ∈ ["true", "1", "yes", "false", "0", "no"]) :
    IsWord word s ↔ s.map Char.toLower = word := by
  have hsmall : ∀ word ∈ ["true", "1", "yes", "false", "0", "no"], ∀ w ∈ word.toList,
      ¬ (65 ≤ w.toNat ∧ w.toNat ≤ 90) := by
    simp
  rw [IsWord, forall₂_letters_iff (hsmall word hword), ← String.toList_map, String.toList_inj]

/-- A text is read as the truth value that it stands for. -/
theorem boolOf_eq_ok_iff : boolOf s = .ok b ↔ SpellsBool s b := by
  constructor
  · intro h
    unfold boolOf at h
    dsimp only at h
    split at h
    · next hyes =>
      cases h
      have hword : s.map Char.toLower ∈ ["true", "1", "yes"] := by simpa [or_assoc] using hyes
      exact .yes hword ((isWord_iff (List.mem_append_left ["false", "0", "no"] hword)).2 rfl)
    · split at h
      · next hno =>
        cases h
        have hword : s.map Char.toLower ∈ ["false", "0", "no"] := by simpa [or_assoc] using hno
        exact .no hword ((isWord_iff (List.mem_append_right ["true", "1", "yes"] hword)).2 rfl)
      · contradiction
  · intro h
    cases h with
    | yes hword h =>
      rw [boolOf, (isWord_iff (List.mem_append_left ["false", "0", "no"] hword)).1 h]
      simp only [List.mem_cons, List.not_mem_nil, or_false] at hword
      obtain rfl | rfl | rfl := hword <;> rfl
    | no hword h =>
      rw [boolOf, (isWord_iff (List.mem_append_right ["true", "1", "yes"] hword)).1 h]
      simp only [List.mem_cons, List.not_mem_nil, or_false] at hword
      obtain rfl | rfl | rfl := hword <;> rfl

/-! ## Numbers -/

/-- Decimal digits that write a number. -/
def Writes (cs : List Char) (n : Nat) : Prop :=
  cs ≠ [] ∧ (∀ c ∈ cs, c.isDigit = true) ∧ Nat.ofDigitChars 10 cs 0 = n

/-- A text stands for a number that is at most `high`. -/
inductive SpellsNat (high : Nat) (s : String) (n : Nat) : Prop where
  | plain (h : Writes s.toList n) (hhigh : n ≤ high)
  | plus {cs : List Char} (hs : s.toList = '+' :: cs) (h : Writes cs n) (hhigh : n ≤ high)

theorem SpellsNat.le (h : SpellsNat high s n) : n ≤ high := by
  cases h with
  | plain _ hhigh => exact hhigh
  | plus _ _ hhigh => exact hhigh

theorem foldlM_digits_iff :
    cs.foldlM (fun n c => if c.isDigit then some (n * 10 + (c.toNat - '0'.toNat)) else none) m = some n ↔
      (∀ c ∈ cs, c.isDigit = true) ∧ Nat.ofDigitChars 10 cs m = n := by
  induction cs generalizing m with
  | nil => simp
  | cons c cs ih =>
    rw [List.foldlM_cons, List.forall_mem_cons, Nat.ofDigitChars_cons]
    cases hc : c.isDigit with
    | false => simp
    | true =>
      rw [if_pos rfl]
      refine Iff.trans ih ?_
      rw [Nat.mul_comm m 10]
      simp

theorem digits?_eq_some_iff : Text.Decimal.digits? cs = some n ↔ Writes cs n := by
  unfold Text.Decimal.digits? Writes
  cases cs with
  | nil => simp
  | cons c cs =>
    rw [List.isEmpty_cons, if_neg Bool.false_ne_true, foldlM_digits_iff]
    exact (and_iff_right (List.cons_ne_nil c cs)).symm

/-- No number is written with a plus in front of it. -/
theorem not_writes_plus : ¬ Writes ('+' :: cs) n := fun h =>
  absurd (h.2.1 '+' List.mem_cons_self) (by decide)

theorem parse?_eq_some_iff : Text.Decimal.parse? high s = some n ↔ SpellsNat high s n := by
  have hread {cs : List Char} : ((Text.Decimal.digits? cs).bind fun n => if n ≤ high then some n else none) = some n ↔
      Writes cs n ∧ n ≤ high := by
    rw [Option.bind_eq_some_iff]
    simp only [digits?_eq_some_iff, Option.ite_none_right_eq_some, Option.some_inj]
    exact ⟨fun ⟨m, hm, hhigh, hsame⟩ => hsame ▸ ⟨hm, hhigh⟩, fun h => ⟨n, h.1, h.2, rfl⟩⟩
  unfold Text.Decimal.parse?
  dsimp only
  split
  · next cs hs =>
    refine hread.trans ⟨fun h => .plus hs h.1 h.2, fun h => ?_⟩
    cases h with
    | plain h hhigh =>
      rw [hs] at h
      exact absurd h not_writes_plus
    | plus hs' h hhigh =>
      rw [hs] at hs'
      cases hs'
      exact ⟨h, hhigh⟩
  · next hplus =>
    refine hread.trans ⟨fun h => .plain h.1 h.2, fun h => ?_⟩
    cases h with
    | plain h hhigh => exact ⟨h, hhigh⟩
    | plus hs h hhigh => exact absurd hs (hplus _)

/-- A text is read as the number that it stands for. -/
theorem numberOf_eq_ok_iff : numberOf high s = .ok n ↔ SpellsNat high s n := by
  rw [← parse?_eq_some_iff, numberOf]
  cases Text.Decimal.parse? high s with
  | none => simp only [reduceCtorEq]
  | some m => simp only [Except.ok.injEq, Option.some.injEq]

/-! ## Names -/

/-- A piece of a text is a name, which has no blank at its ends, with blanks around it. -/
def Surrounds (piece name : List Char) : Prop :=
  ∃ before after, piece = before ++ name ++ after ∧ (∀ c ∈ before ++ after, Text.isBlank c = true) ∧
    (∀ c ∈ name.head?, Text.isBlank c = false) ∧ ∀ c ∈ name.getLast?, Text.isBlank c = false

/-- Pieces of a text are these names in this order; a blank piece is none. -/
inductive Lists : List (List Char) → List String → Prop where
  | nil : Lists [] []
  | blank {piece : List Char} {pieces : List (List Char)} {names : List String}
      (hpiece : ∀ c ∈ piece, Text.isBlank c = true) (h : Lists pieces names) : Lists (piece :: pieces) names
  | name {piece : List Char} {pieces : List (List Char)} {name : String} {names : List String} (hname : name ≠ "")
      (hpiece : Surrounds piece name.toList) (h : Lists pieces names) : Lists (piece :: pieces) (name :: names)

/-- A text stands for a list of names: it is the pieces that hold them, with commas between the pieces. -/
def SpellsNames (s : String) (names : List String) : Prop :=
  ∃ pieces, pieces ≠ [] ∧ (∀ piece ∈ pieces, ',' ∉ piece) ∧ s.toList = [','].intercalate pieces ∧ Lists pieces names

section Blanks

variable {piece : List Char} {pieces : List (List Char)} {names : List String}

theorem dropWhile_isBlank (hhead : ∀ c ∈ cs.head?, Text.isBlank c = false) : cs.dropWhile Text.isBlank = cs := by
  cases cs with
  | nil => rfl
  | cons c cs => rw [List.dropWhile_cons_of_neg (Bool.eq_false_iff.1 (hhead c rfl))]

theorem isBlank_head?_dropWhile (cs : List Char) : ∀ c ∈ (cs.dropWhile Text.isBlank).head?, Text.isBlank c = false := by
  intro c hc
  have hnot := List.head?_dropWhile_not Text.isBlank cs
  rw [Option.mem_def.1 hc] at hnot
  exact hnot

/-- What is left of a piece without the blanks at its ends is the name in it. -/
theorem surrounds_trimChars (piece : List Char) : Surrounds piece (Text.trimChars piece) := by
  let rest := piece.dropWhile Text.isBlank
  have hrest : Text.trimChars piece ++ (rest.reverse.takeWhile Text.isBlank).reverse = rest := by
    rw [Text.trimChars, ← List.reverse_append, List.takeWhile_append_dropWhile, List.reverse_reverse]
  refine ⟨piece.takeWhile Text.isBlank, (rest.reverse.takeWhile Text.isBlank).reverse, ?_,
    fun c hc => ?_, fun c hc => ?_, fun c hc => ?_⟩
  · rw [List.append_assoc, hrest, List.takeWhile_append_dropWhile]
  · rcases List.mem_append.1 hc with hc | hc
    · exact List.mem_takeWhile_imp hc
    · exact List.mem_takeWhile_imp (List.mem_reverse.1 hc)
  · refine isBlank_head?_dropWhile piece c ?_
    show c ∈ rest.head?
    rw [← hrest, List.head?_append, Option.mem_def.1 hc]
    rfl
  · rw [Text.trimChars, List.getLast?_reverse] at hc
    exact isBlank_head?_dropWhile _ c hc

theorem Surrounds.trimChars_eq (h : Surrounds piece name) : Text.trimChars piece = name := by
  obtain ⟨before, after, rfl, hblank, hhead, hlast⟩ := h
  rw [List.forall_mem_append] at hblank
  have hrest : (before ++ name ++ after).dropWhile Text.isBlank = (name ++ after).dropWhile Text.isBlank := by
    rw [List.append_assoc, List.dropWhile_append_of_pos hblank.1]
  rw [Text.trimChars, hrest]
  cases name with
  | nil =>
    rw [List.nil_append, List.dropWhile_eq_nil_iff.2 hblank.2]
    rfl
  | cons c cs =>
    have hstart : ∀ d ∈ (c :: cs ++ after).head?, Text.isBlank d = false := hhead
    have hend : ∀ d ∈ (c :: cs).reverse.head?, Text.isBlank d = false := by
      rw [List.head?_reverse]
      exact hlast
    rw [dropWhile_isBlank hstart, List.reverse_append,
      List.dropWhile_append_of_pos fun d hd => hblank.2 d (List.mem_reverse.1 hd), dropWhile_isBlank hend,
      List.reverse_reverse]

/-- A blank piece holds no name. -/
theorem trimChars_eq_nil_iff : Text.trimChars piece = [] ↔ ∀ c ∈ piece, Text.isBlank c = true := by
  constructor
  · intro h
    obtain ⟨before, after, hpiece, hblank, -⟩ := surrounds_trimChars piece
    rw [h, List.append_nil] at hpiece
    rw [hpiece]
    exact hblank
  · intro h
    exact Surrounds.trimChars_eq ⟨piece, [], by simp, by simpa using h, by simp, by simp⟩

/-- The names that pieces hold are what is left of the pieces without the blanks at their ends. -/
theorem lists_iff : Lists pieces names ↔
    ((pieces.map Text.trimChars).filter fun cs => !cs.isEmpty).map String.ofList = names := by
  induction pieces generalizing names with
  | nil =>
    constructor
    · intro h
      cases h
      rfl
    · rintro rfl
      exact .nil
  | cons piece pieces ih =>
    rw [List.map_cons, List.filter_cons]
    constructor
    · intro h
      cases h with
      | blank hpiece h =>
        rw [trimChars_eq_nil_iff.2 hpiece]
        exact ih.1 h
      | @name _ _ name names hname hpiece h =>
        have hne : (!name.toList.isEmpty) = true := by simpa using hname
        rw [hpiece.trimChars_eq, if_pos hne, List.map_cons, String.ofList_toList, ih.1 h]
    · intro h
      by_cases hpiece : Text.trimChars piece = []
      · rw [hpiece] at h
        exact .blank (trimChars_eq_nil_iff.1 hpiece) (ih.2 h)
      · rw [if_pos (by simpa using hpiece), List.map_cons] at h
        rw [← h]
        refine .name (by simpa using hpiece) ?_ (ih.2 rfl)
        rw [String.toList_ofList]
        exact surrounds_trimChars piece

end Blanks

/-- A text is read as the names that it stands for. -/
theorem markersOf_eq_iff {names : List String} : markersOf s = names ↔ SpellsNames s names := by
  constructor
  · intro h
    exact ⟨Text.pieces ',' s.toList, Text.pieces_ne_nil ',' _, Text.not_mem_of_mem_pieces ',' _,
      (Text.intercalate_pieces ',' _).symm, lists_iff.2 h⟩
  · rintro ⟨pieces, hne, hcommas, hs, hlists⟩
    rw [markersOf, hs, Text.pieces_intercalate hne hcommas]
    exact lists_iff.1 hlists

/-! ## Formats and directories -/

theorem logFormatOf_eq_ok_iff {v : String} : logFormatOf s = .ok v ↔ v = s ∧ (s = "text" ∨ s = "json") := by
  have hformat : (s == "text" || s == "json") = true ↔ s = "text" ∨ s = "json" := by
    rw [Bool.or_eq_true, beq_iff_eq, beq_iff_eq]
  unfold logFormatOf
  split
  · next h => simp only [hformat.1 h, and_true, Except.ok.injEq, eq_comm]
  · next h => simp only [mt hformat.2 h, and_false, reduceCtorEq]

theorem metadataDirOf_eq_ok_iff {v : String} : metadataDirOf s = .ok v ↔ v = s ∧ s ≠ "" := by
  unfold metadataDirOf
  split
  · next h => simp only [String.isEmpty_iff.1 h, ne_eq, not_true_eq_false, and_false, reduceCtorEq]
  · next h => simp only [ne_eq, mt String.isEmpty_iff.2 h, not_false_eq_true, and_true, Except.ok.injEq, eq_comm]

/-! ## Texts that stand for no value -/

variable {e : Error}

theorem error_of_boolOf (h : boolOf s = .error e) : e = .user s!"Invalid boolean value: {s}. Use true/false" := by
  unfold boolOf at h
  dsimp only at h
  split at h
  · contradiction
  · split at h
    · contradiction
    · cases h
      rfl

theorem error_of_numberOf (h : numberOf high s = .error e) : e = .user s!"Invalid number: {s}" := by
  unfold numberOf at h
  split at h
  · contradiction
  · cases h
    rfl

theorem error_of_logFormatOf (h : logFormatOf s = .error e) :
    e = .user s!"Invalid log format: {s}. Use text or json" := by
  unfold logFormatOf at h
  split at h
  · contradiction
  · cases h
    rfl

theorem error_of_metadataDirOf (h : metadataDirOf s = .error e) :
    e = .user "prefetch.metadata_dir must not be empty" := by
  unfold metadataDirOf at h
  split at h
  · cases h
    rfl
  · contradiction

end RemoteFacts.Config
