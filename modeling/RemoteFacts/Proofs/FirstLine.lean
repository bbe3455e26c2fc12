import Mathlib.Data.List.DropRight
import RemoteFacts.CommandOutput
import RemoteFacts.Proofs.Text.Stretches

/-!
# The first line of an output

* `CommandOutput.lineBytes` : the bytes before the first line feed;
* `firstLine?_eq_ofLine` : whatever comes after these bytes, and whatever they are, the first line is read from them
  alone;
* `firstLine?_of_encode` : from the bytes of a text it is this text, without carriage returns at its end;
* `clean_of_firstLine?` : there is no line feed in it, no carriage return at its end, and something else is there;
* `firstLine?_eq_none_iff` : there is none exactly if the bytes are carriage returns only;
* `ReadsLine`, `readsLine` : how the first line of an output is read, given the bytes on both sides of a line feed.
-/

namespace RemoteFacts.CommandOutput

open Text.Utf8

variable {o o' : CommandOutput} {a : List UInt8} {line s : String} {n : Nat}

/-! ## Bytes -/

/-- The bytes before the first line feed. -/
def lineBytes (bytes : List UInt8) : List UInt8 := bytes.takeWhile (· != 0x0A)

/-- A command that has succeeded and has printed just these bytes. -/
def ofLine (line : List UInt8) : CommandOutput := ⟨0, line, []⟩

theorem notMem_lineBytes (bytes : List UInt8) : 0x0A ∉ lineBytes bytes := fun hmem =>
  absurd (List.mem_takeWhile_imp hmem) (by decide)

theorem lineBytes_of_notMem (h : 0x0A ∉ a) : lineBytes a = a := by
  refine List.takeWhile_eq_self_iff.2 fun b hb => ?_
  rw [bne_iff_ne]
  rintro rfl
  exact h hb

theorem lineBytes_append (h : 0x0A ∉ a) (b : List UInt8) : lineBytes (a ++ 0x0A :: b) = a := by
  have hall : ∀ byte ∈ a, (byte != 0x0A) = true := List.takeWhile_eq_self_iff.1 (lineBytes_of_notMem h)
  rw [lineBytes, List.takeWhile_append_of_pos hall, List.takeWhile_cons_of_neg (by decide), List.append_nil]

theorem lineBytes_lineBytes (bytes : List UInt8) : lineBytes (lineBytes bytes) = lineBytes bytes :=
  lineBytes_of_notMem (notMem_lineBytes bytes)

/-- After the first line there is nothing, or a line feed. -/
theorem eq_lineBytes_append (bytes : List UInt8) :
    bytes = lineBytes bytes ∨ ∃ rest, bytes = lineBytes bytes ++ 0x0A :: rest := by
  have hsplit : lineBytes bytes ++ bytes.dropWhile (· != 0x0A) = bytes := List.takeWhile_append_dropWhile
  cases hrest : bytes.dropWhile (· != 0x0A) with
  | nil =>
    rw [hrest, List.append_nil] at hsplit
    exact Or.inl hsplit.symm
  | cons b rest =>
    have hb := List.head?_dropWhile_not (· != 0x0A) bytes
    rw [hrest] at hb
    obtain rfl : b = 0x0A := by simpa using hb
    exact Or.inr ⟨rest, by rw [← hrest, hsplit]⟩

/-! ## Characters -/

theorem toList_decodeLossy_lineFeed (rest : List UInt8) :
    (decodeLossy (0x0A :: rest)).toList = '\n' :: (decodeLossy rest).toList := by
  rw [toList_decodeLossy, pieces_alone (by decide), List.map_cons, ← toList_decodeLossy]
  rfl

/-- No line feed is read from a line. -/
theorem takeWhile_decodeLossy_lineBytes (bytes : List UInt8) :
    (decodeLossy (lineBytes bytes)).toList.takeWhile (· != '\n') = (decodeLossy (lineBytes bytes)).toList := by
  refine List.takeWhile_eq_self_iff.2 fun c hc => ?_
  rw [bne_iff_ne]
  rintro rfl
  exact notMem_lineBytes bytes ((mem_decodeLossy_iff (by decide)).1 hc)

/-- The characters before the first line feed are read from the bytes before the first line feed. -/
theorem takeWhile_text (o : CommandOutput) :
    o.text.toList.takeWhile (· != '\n') = (decodeLossy (lineBytes o.stdout)).toList := by
  have hline := takeWhile_decodeLossy_lineBytes o.stdout
  unfold text
  rcases eq_lineBytes_append o.stdout with hall | ⟨rest, hsplit⟩
  · rwa [← hall] at hline ⊢
  · have hfresh : Fresh (0x0A :: rest) := fun b hb => by
      obtain rfl := Option.some.inj hb
      decide
    have htext : (decodeLossy o.stdout).toList =
        (decodeLossy (lineBytes o.stdout)).toList ++ '\n' :: (decodeLossy rest).toList := by
      rw [← toList_decodeLossy_lineFeed, ← toList_decodeLossy_append hfresh, ← hsplit]
    rw [htext, List.takeWhile_append_of_pos (List.takeWhile_eq_self_iff.1 hline),
      List.takeWhile_cons_of_neg (by decide), List.append_nil]

theorem firstLineChars_text (o : CommandOutput) :
    firstLineChars o.text.toList = (decodeLossy (lineBytes o.stdout)).toList.rdropWhile (· == '\r') := by
  rw [← takeWhile_text]
  rfl

/-! ## Lines -/

theorem firstLine?_eq_some_iff : o.firstLine? = some line ↔ firstLineChars o.text.toList = line.toList ∧ line ≠ "" := by
  unfold firstLine?
  cases hchars : firstLineChars o.text.toList with
  | nil =>
    refine iff_of_false (Option.some_ne_none _).symm ?_
    rintro ⟨hline, hsome⟩
    exact hsome (String.toList_eq_nil_iff.1 hline.symm)
  | cons c cs =>
    rw [Option.some_inj, ← String.toList_inj, String.toList_ofList]
    refine ⟨fun hline => ⟨hline, ?_⟩, And.left⟩
    rintro rfl
    contradiction

/-- The first line is read from its own bytes, and from nothing else that a command leaves behind. -/
theorem firstLine?_congr (h : lineBytes o.stdout = lineBytes o'.stdout) : o.firstLine? = o'.firstLine? := by
  unfold firstLine?
  rw [firstLineChars_text, firstLineChars_text, h]

theorem firstLine?_eq_ofLine (o : CommandOutput) : o.firstLine? = (ofLine (lineBytes o.stdout)).firstLine? :=
  firstLine?_congr (lineBytes_lineBytes o.stdout).symm

theorem rdropWhile_append_of_all {p : Char → Bool} {cs ds : List Char} (h : ∀ c ∈ ds, p c = true) :
    (cs ++ ds).rdropWhile p = cs.rdropWhile p := by
  rw [List.rdropWhile, List.reverse_append, List.dropWhile_append_of_pos fun c hc => h c (List.mem_reverse.1 hc)]
  rfl

/-- From the bytes of a text, with any number of carriage returns after them, the text is read. -/
theorem firstLine?_of_encode (hsome : s ≠ "") (hlast : s.toList.getLast? ≠ some '\r')
    (hline : lineBytes o.stdout = encode s ++ List.replicate n 0x0D) : o.firstLine? = some s := by
  have hfresh : Fresh (List.replicate n 0x0D) := fun b hb => by
    obtain rfl := List.eq_of_mem_replicate (List.mem_of_mem_head? hb)
    decide
  have hreturns : ∀ c ∈ (decodeLossy (List.replicate n 0x0D)).toList, (c == '\r') = true := fun c hc =>
    beq_iff_eq.2 ((forall_decodeLossy_iff (by decide)).2 (fun _ hb => List.eq_of_mem_replicate hb) c hc)
  have hself : s.toList.rdropWhile (· == '\r') = s.toList := by
    refine List.rdropWhile_eq_self_iff.2 fun hne hreturn => hlast ?_
    rw [List.getLast?_eq_some_getLast hne, beq_iff_eq.1 hreturn]
  rw [firstLine?_eq_some_iff, firstLineChars_text, hline, toList_decodeLossy_append hfresh, toList_decodeLossy_encode]
  exact ⟨(rdropWhile_append_of_all hreturns).trans hself, hsome⟩

/-- A first line holds no line feed, does not end in a carriage return, and is not empty. -/
theorem clean_of_firstLine? (h : o.firstLine? = some line) :
    '\n' ∉ line.toList ∧ line.toList.getLast? ≠ some '\r' ∧ line ≠ "" := by
  obtain ⟨hchars, hsome⟩ := firstLine?_eq_some_iff.1 h
  rw [firstLineChars_text] at hchars
  refine ⟨fun hmem => ?_, fun hlast => ?_, hsome⟩
  · rw [← hchars] at hmem
    have hshown := (List.rdropWhile_prefix _ _).subset hmem
    exact notMem_lineBytes o.stdout ((mem_decodeLossy_iff (by decide)).1 hshown)
  · have hne : (decodeLossy (lineBytes o.stdout)).toList.rdropWhile (· == '\r') ≠ [] := by
      rw [hchars]
      exact fun hnil => hsome (String.toList_eq_nil_iff.1 hnil)
    rw [← hchars, List.getLast?_eq_some_getLast hne] at hlast
    exact List.rdropWhile_last_not _ _ hne (beq_iff_eq.2 (Option.some.inj hlast))

/-- There is no first line exactly if nothing but carriage returns comes before the first line feed. -/
theorem firstLine?_eq_none_iff : o.firstLine? = none ↔ ∀ b ∈ lineBytes o.stdout, b = 0x0D := by
  have hnone : o.firstLine? = none ↔ firstLineChars o.text.toList = [] := by
    unfold firstLine?
    cases firstLineChars o.text.toList with
    | nil => exact iff_of_true rfl rfl
    | cons c cs => exact iff_of_false (Option.some_ne_none _) (List.cons_ne_nil _ _)
  have hreturns : (∀ c ∈ (decodeLossy (lineBytes o.stdout)).toList, c = '\r') ↔ ∀ b ∈ lineBytes o.stdout, b = 0x0D :=
    forall_decodeLossy_iff (by decide)
  rw [hnone, firstLineChars_text, List.rdropWhile_eq_nil_iff, ← hreturns]
  exact forall₂_congr fun c _ => beq_iff_eq

/-- How the first line is read when the bytes `a` come first, and `b` after a line feed. -/
structure ReadsLine (a b : List UInt8) : Prop where
  /-- Neither the line feed nor what comes after it matters. -/
  same : ∀ o ended more : CommandOutput, o.stdout = a → ended.stdout = a ++ [0x0A] → more.stdout = a ++ 0x0A :: b →
    ended.firstLine? = o.firstLine? ∧ more.firstLine? = o.firstLine?
  /-- A text is read back, without the carriage returns after it. -/
  text : ∀ (o : CommandOutput) s n, o.stdout = a → s ≠ "" → s.toList.getLast? ≠ some '\r' →
    a = encode s ++ List.replicate n 0x0D → o.firstLine? = some s

theorem readsLine {b : List UInt8} (ha : 0x0A ∉ a) : ReadsLine a b where
  same o ended more ho hended hmore := by
    have hline : lineBytes o.stdout = a := by rw [ho, lineBytes_of_notMem ha]
    refine ⟨firstLine?_congr ?_, firstLine?_congr ?_⟩
    · rw [hended, lineBytes_append ha, hline]
    · rw [hmore, lineBytes_append ha, hline]
  text o s n ho hsome hlast hencoded := by
    refine firstLine?_of_encode (n := n) hsome hlast ?_
    rw [ho, lineBytes_of_notMem ha, hencoded]

end RemoteFacts.CommandOutput
