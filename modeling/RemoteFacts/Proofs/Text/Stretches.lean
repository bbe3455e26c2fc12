import RemoteFacts.Proofs.Text.Utf8

/-!
# Bytes in stretches

Bytes that are no text are read as well, stretch by stretch. A byte below 0x80 is a stretch by itself and is in no other
one, so it ends whatever has begun before it.

* `Utf8.Broken`, `pieces_of_broken` : bytes that break off are one gap, and what follows is read on its own;
* `Utf8.Stretch` : some bytes, and the character or the gap that they are read as;
* `Utf8.Begins`, `begins_cons` : all bytes begin with a stretch, whatever comes after them from a byte below 0x80 on;
* `Utf8.Reads`, `reads_pieces` : all bytes are read so;
* `toList_decodeLossy_append` : before a byte below 0x80 bytes are read as they are by themselves;
* `mem_decodeLossy_iff`, `forall_decodeLossy_iff` : a character below 0x80 is shown for its own byte only.
-/

namespace RemoteFacts.Text.Utf8

/-! ## Leads -/

theorem lead_eq (a : UInt8) : lead a =
    if a.toNat < 128 then .alone
    else if a.toNat < 194 then .never
    else if a.toNat < 224 then .two
    else if a.toNat < 240 then
      .three (if a.toNat = 224 then 0xA0 else 0x80) (if a.toNat = 237 then 0x9F else 0xBF)
    else if a.toNat < 245 then .four (if a.toNat = 240 then 0x90 else 0x80) (if a.toNat = 244 then 0x8F else 0xBF)
    else .never := by
  have hlead := lead_byte a.toNat_lt
  rwa [UInt8.ofNat_toNat] at hlead

theorem isTail_iff {b : UInt8} : isTail b = true ↔ 128 ≤ b.toNat ∧ b.toNat ≤ 191 := by
  rw [isTail, Bool.and_eq_true, decide_eq_true_eq, decide_eq_true_eq, UInt8.le_iff_toNat_le, UInt8.le_iff_toNat_le]
  rfl

/-! ## Gaps -/

/-- The bytes break off before `rest`: no character begins so, or none goes on with `rest`. -/
inductive Broken (rest : List UInt8) : List UInt8 → Prop where
  | never {a : UInt8} (h : lead a = .never) : Broken rest [a]
  | two {a : UInt8} (h : lead a = .two) (hrest : ∀ b ∈ rest.head?, ¬ isTail b = true) : Broken rest [a]
  | three {a low high : UInt8} (h : lead a = .three low high) (hrest : ∀ b ∈ rest.head?, ¬ (low ≤ b ∧ b ≤ high)) :
      Broken rest [a]
  | threeSecond {a b low high : UInt8} (h : lead a = .three low high) (hb : low ≤ b ∧ b ≤ high)
      (hrest : ∀ c ∈ rest.head?, ¬ isTail c = true) : Broken rest [a, b]
  | four {a low high : UInt8} (h : lead a = .four low high) (hrest : ∀ b ∈ rest.head?, ¬ (low ≤ b ∧ b ≤ high)) :
      Broken rest [a]
  | fourSecond {a b low high : UInt8} (h : lead a = .four low high) (hb : low ≤ b ∧ b ≤ high)
      (hrest : ∀ c ∈ rest.head?, ¬ isTail c = true) : Broken rest [a, b]
  | fourThird {a b c low high : UInt8} (h : lead a = .four low high) (hb : low ≤ b ∧ b ≤ high) (hc : isTail c = true)
      (hrest : ∀ d ∈ rest.head?, ¬ isTail d = true) : Broken rest [a, b, c]

/-- Bytes that break off are one gap. -/
theorem pieces_of_broken {first rest : List UInt8} (h : Broken rest first) :
    pieces (first ++ rest) = none :: pieces rest := by
  have hnil : pieces [] = [] := rfl
  rw [pieces.eq_def]
  cases h with
  | never h => simp only [List.cons_append, List.nil_append, h]
  | two h hrest =>
    cases rest with
    | nil => simp only [List.cons_append, List.nil_append, h, hnil]
    | cons b rest => simp only [List.cons_append, List.nil_append, h, if_neg (hrest b rfl)]
  | three h hrest =>
    cases rest with
    | nil => simp only [List.cons_append, List.nil_append, h, hnil]
    | cons b rest => simp only [List.cons_append, List.nil_append, h, if_neg (hrest b rfl)]
  | threeSecond h hb hrest =>
    cases rest with
    | nil => simp only [List.cons_append, List.nil_append, h, if_pos hb, hnil]
    | cons c rest => simp only [List.cons_append, List.nil_append, h, if_pos hb, if_neg (hrest c rfl)]
  | four h hrest =>
    cases rest with
    | nil => simp only [List.cons_append, List.nil_append, h, hnil]
    | cons b rest => simp only [List.cons_append, List.nil_append, h, if_neg (hrest b rfl)]
  | fourSecond h hb hrest =>
    cases rest with
    | nil => simp only [List.cons_append, List.nil_append, h, if_pos hb, hnil]
    | cons c rest => simp only [List.cons_append, List.nil_append, h, if_pos hb, if_neg (hrest c rfl)]
  | fourThird h hb hc hrest =>
    cases rest with
    | nil => simp only [List.cons_append, List.nil_append, h, if_pos hb, hc, if_true, hnil]
    | cons d rest => simp only [List.cons_append, List.nil_append, h, if_pos hb, hc, if_true, if_neg (hrest d rfl)]

/-! ## The first stretch -/

/-- What follows begins with a byte below 0x80, if with any. -/
def Fresh (more : List UInt8) : Prop := ∀ b ∈ more.head?, b.toNat < 128

/-- Bytes that are read together, as one character or as none. -/
inductive Stretch : List UInt8 → Option Char → Prop where
  | ascii {a : UInt8} (ha : a.toNat < 128) : Stretch [a] (some (Char.ofNat a.toNat))
  /-- No byte of any other stretch is below 0x80, and no character. -/
  | high {bytes : List UInt8} {c : Option Char} (hsome : bytes ≠ []) (hbytes : ∀ b ∈ bytes, 128 ≤ b.toNat)
      (hc : ∀ d ∈ c, 128 ≤ d.toNat) : Stretch bytes c

theorem Stretch.ne_nil {bytes : List UInt8} {c : Option Char} (h : Stretch bytes c) : bytes ≠ [] := by
  cases h with
  | ascii _ => exact List.cons_ne_nil _ _
  | high hsome _ _ => exact hsome

theorem toNat_ofNat_of_isValidChar {n : Nat} (h : n.isValidChar) : (Char.ofNat n).toNat = n := by
  rw [Char.ofNat, dif_pos h]
  rfl

/-- Bytes from 0x80 on that stand for a character from there on. -/
theorem stretch_char {bytes : List UInt8} {n : Nat} (hsome : bytes ≠ []) (hbytes : ∀ b ∈ bytes, 128 ≤ b.toNat)
    (hn : 128 ≤ n) (hvalid : n.isValidChar) : Stretch bytes (some (Char.ofNat n)) := by
  refine .high hsome hbytes fun d hd => ?_
  rw [← Option.some.inj hd, toNat_ofNat_of_isValidChar hvalid]
  exact hn

/-- Bytes from 0x80 on that stand for no character. -/
theorem stretch_gap {bytes : List UInt8} (hsome : bytes ≠ []) (hbytes : ∀ b ∈ bytes, 128 ≤ b.toNat) :
    Stretch bytes none :=
  .high hsome hbytes nofun

/-- A stretch is over, whatever comes after, or what follows begins with a byte that goes on with it. -/
theorem ends_or_exists_head {p : UInt8 → Prop} (hp : ∀ b, p b → 128 ≤ b.toNat) (rest : List UInt8) :
    (∀ more, Fresh more → ∀ b ∈ (rest ++ more).head?, ¬ p b) ∨ ∃ b rest', rest = b :: rest' ∧ p b := by
  cases rest with
  | nil => exact Or.inl fun more hmore b hb hpb => Nat.not_lt.2 (hp b hpb) (hmore b hb)
  | cons b rest =>
    by_cases hb : p b
    · exact Or.inr ⟨b, rest, rfl, hb⟩
    · refine Or.inl fun more _ c hc => ?_
      rwa [← Option.some.inj hc]

theorem ends_or_exists_tail (rest : List UInt8) :
    (∀ more, Fresh more → ∀ b ∈ (rest ++ more).head?, ¬ isTail b = true) ∨
      ∃ b rest', rest = b :: rest' ∧ isTail b = true :=
  ends_or_exists_head (fun _ hb => (isTail_iff.1 hb).1) rest

/-- How bytes begin: with a stretch that is read so whatever comes after them. -/
def Begins (bytes : List UInt8) : Prop := ∃ first c rest, bytes = first ++ rest ∧ Stretch first c ∧
  ∀ more, Fresh more → pieces (bytes ++ more) = c :: pieces (rest ++ more)

section
variable {a b : UInt8} {rest : List UInt8}

theorem begins_alone (hlead : lead a = .alone) (ha : a.toNat < 128) : Begins (a :: rest) :=
  ⟨[a], _, rest, rfl, .ascii ha, fun _ _ => pieces_alone hlead⟩

theorem begins_never (hlead : lead a = .never) (ha : 128 ≤ a.toNat) : Begins (a :: rest) :=
  ⟨[a], none, rest, rfl, stretch_gap (List.cons_ne_nil _ _) (by simpa using ha),
    fun _ _ => pieces_of_broken (.never hlead)⟩

theorem begins_two (hlead : lead a = .two) (hlow : 194 ≤ a.toNat) (hhigh : a.toNat < 224) : Begins (a :: rest) := by
  have ha : 128 ≤ a.toNat := by omega
  rcases ends_or_exists_tail rest with hends | ⟨b, rest, rfl, hb⟩
  · exact ⟨[a], none, rest, rfl, stretch_gap (List.cons_ne_nil _ _) (by simpa using ha),
      fun more hmore => pieces_of_broken (.two hlead (hends more hmore))⟩
  refine ⟨[a, b], _, rest, rfl, stretch_char (List.cons_ne_nil _ _) ?_ ?_ (Or.inl ?_),
    fun more _ => pieces_two hlead hb⟩
  · simpa using ⟨ha, (isTail_iff.1 hb).1⟩
  · unfold tailBits
    omega
  · unfold tailBits
    omega

/-- The second byte after a lead of three keeps the number from being too small for three bytes and from being a
surrogate. -/
theorem second_of_three (hb : (if a.toNat = 224 then 0xA0 else 0x80) ≤ b ∧ b ≤ (if a.toNat = 237 then 0x9F else 0xBF)) :
    128 ≤ b.toNat ∧ b.toNat ≤ 191 ∧ (a.toNat ≠ 224 ∨ 160 ≤ b.toNat) ∧ (a.toNat ≠ 237 ∨ b.toNat ≤ 159) := by
  obtain ⟨hlow, hhigh⟩ := hb
  rw [UInt8.le_iff_toNat_le] at hlow hhigh
  split at hlow <;> split at hhigh <;> simp only [UInt8.toNat_ofNat, Nat.reduceMod, Nat.reducePow] at hlow hhigh <;>
    omega

theorem begins_three (hlead : lead a =
      .three (if a.toNat = 224 then 0xA0 else 0x80) (if a.toNat = 237 then 0x9F else 0xBF))
    (hlow : 224 ≤ a.toNat) (hhigh : a.toNat < 240) : Begins (a :: rest) := by
  have ha : 128 ≤ a.toNat := by omega
  rcases ends_or_exists_head (fun b hb => (second_of_three (a := a) hb).1) rest with hends | ⟨b, rest, rfl, hb⟩
  · exact ⟨[a], none, rest, rfl, stretch_gap (List.cons_ne_nil _ _) (by simpa using ha),
      fun more hmore => pieces_of_broken (.three hlead (hends more hmore))⟩
  obtain ⟨hb₁, hb₂, hb₃, hb₄⟩ := second_of_three hb
  rcases ends_or_exists_tail rest with hends | ⟨c, rest, rfl, hc⟩
  · exact ⟨[a, b], none, rest, rfl, stretch_gap (List.cons_ne_nil _ _) (by simpa using ⟨ha, hb₁⟩),
      fun more hmore => pieces_of_broken (.threeSecond hlead hb (hends more hmore))⟩
  refine ⟨[a, b, c], _, rest, rfl, stretch_char (List.cons_ne_nil _ _) ?_ ?_ ?_, fun more _ => pieces_three hlead hb hc⟩
  · simpa using ⟨ha, hb₁, (isTail_iff.1 hc).1⟩
  · unfold tailBits
    omega
  · unfold tailBits
    by_cases hbelow : a.toNat ≤ 237
    · left
      omega
    · right
      omega

/-- The second byte after a lead of four keeps the number from being too small for four bytes and within Unicode. -/
theorem second_of_four (hb : (if a.toNat = 240 then 0x90 else 0x80) ≤ b ∧ b ≤ (if a.toNat = 244 then 0x8F else 0xBF)) :
    128 ≤ b.toNat ∧ b.toNat ≤ 191 ∧ (a.toNat ≠ 240 ∨ 144 ≤ b.toNat) ∧ (a.toNat ≠ 244 ∨ b.toNat ≤ 143) := by
  obtain ⟨hlow, hhigh⟩ := hb
  rw [UInt8.le_iff_toNat_le] at hlow hhigh
  split at hlow <;> split at hhigh <;> simp only [UInt8.toNat_ofNat, Nat.reduceMod, Nat.reducePow] at hlow hhigh <;>
    omega

theorem begins_four (hlead : lead a =
      .four (if a.toNat = 240 then 0x90 else 0x80) (if a.toNat = 244 then 0x8F else 0xBF))
    (hlow : 240 ≤ a.toNat) (hhigh : a.toNat < 245) : Begins (a :: rest) := by
  have ha : 128 ≤ a.toNat := by omega
  rcases ends_or_exists_head (fun b hb => (second_of_four (a := a) hb).1) rest with hends | ⟨b, rest, rfl, hb⟩
  · exact ⟨[a], none, rest, rfl, stretch_gap (List.cons_ne_nil _ _) (by simpa using ha),
      fun more hmore => pieces_of_broken (.four hlead (hends more hmore))⟩
  obtain ⟨hb₁, hb₂, hb₃, hb₄⟩ := second_of_four hb
  rcases ends_or_exists_tail rest with hends | ⟨c, rest, rfl, hc⟩
  · exact ⟨[a, b], none, rest, rfl, stretch_gap (List.cons_ne_nil _ _) (by simpa using ⟨ha, hb₁⟩),
      fun more hmore => pieces_of_broken (.fourSecond hlead hb (hends more hmore))⟩
  rcases ends_or_exists_tail rest with hends | ⟨d, rest, rfl, hd⟩
  · exact ⟨[a, b, c], none, rest, rfl,
      stretch_gap (List.cons_ne_nil _ _) (by simpa using ⟨ha, hb₁, (isTail_iff.1 hc).1⟩),
      fun more hmore => pieces_of_broken (.fourThird hlead hb hc (hends more hmore))⟩
  refine ⟨[a, b, c, d], _, rest, rfl, stretch_char (List.cons_ne_nil _ _) ?_ ?_ (Or.inr ?_),
    fun more _ => pieces_four hlead hb hc hd⟩
  · simpa using ⟨ha, hb₁, (isTail_iff.1 hc).1, (isTail_iff.1 hd).1⟩
  · unfold tailBits
    omega
  · unfold tailBits
    omega

end

theorem begins_cons (a : UInt8) (rest : List UInt8) : Begins (a :: rest) := by
  have hlead := lead_eq a
  split at hlead
  · next ha => exact begins_alone hlead ha
  split at hlead
  · next hlow _ => exact begins_never hlead (Nat.not_lt.1 hlow)
  split at hlead
  · next hlow hhigh => exact begins_two hlead (Nat.not_lt.1 hlow) hhigh
  split at hlead
  · next hlow hhigh => exact begins_three hlead (Nat.not_lt.1 hlow) hhigh
  split at hlead
  · next hlow hhigh => exact begins_four hlead (Nat.not_lt.1 hlow) hhigh
  · next hlow => exact begins_never hlead (by omega)

/-! ## All stretches -/

/-- Bytes are read as stretches, one after the other. -/
inductive Reads : List UInt8 → List (Option Char) → Prop where
  | nil : Reads [] []
  | cons {first rest : List UInt8} {c : Option Char} {cs : List (Option Char)} (hfirst : Stretch first c)
      (hrest : Reads rest cs) : Reads (first ++ rest) (c :: cs)

/-- Bytes are read stretch by stretch, and from a byte below 0x80 on the reading begins anew. -/
theorem reads_pieces (bytes : List UInt8) : Reads bytes (pieces bytes) ∧
    ∀ more, Fresh more → pieces (bytes ++ more) = pieces bytes ++ pieces more := by
  induction hlength : bytes.length using Nat.strongRecOn generalizing bytes with
  | ind n ih =>
    cases bytes with
    | nil => exact ⟨.nil, fun _ _ => rfl⟩
    | cons a rest =>
      obtain ⟨first, c, rest', hsplit, hfirst, hread⟩ := begins_cons a rest
      have hshorter : rest'.length < n := by
        have hpositive := List.length_pos_iff.2 hfirst.ne_nil
        rw [hsplit, List.length_append] at hlength
        omega
      obtain ⟨hreads, happend⟩ := ih _ hshorter rest' rfl
      have hself : pieces (a :: rest) = c :: pieces rest' := by simpa using hread [] nofun
      refine ⟨?_, fun more hmore => ?_⟩
      · rw [hself, hsplit]
        exact .cons hfirst hreads
      · rw [hread more hmore, happend more hmore, hself, List.cons_append]

/-! ## What is shown -/

section
variable {bytes more : List UInt8} {c : Char} {piece : Option Char} {cs : List (Option Char)}

theorem ofNat_toNat_eq_iff {a : UInt8} (ha : a.toNat < 128) (hc : c.toNat < 128) :
    Char.ofNat a.toNat = c ↔ a = UInt8.ofNat c.toNat := by
  have hchar : (Char.ofNat a.toNat).toNat = a.toNat := toNat_ofNat_of_isValidChar (Or.inl (by omega))
  rw [← Char.toNat_inj, hchar, ← UInt8.toNat_inj, toNat_byte (by omega)]

/-- A character below 0x80 is shown for a stretch exactly if its byte is in it. -/
theorem Stretch.mem_iff (h : Stretch bytes piece) (hc : c.toNat < 128) :
    UInt8.ofNat c.toNat ∈ bytes ↔ piece.getD '\uFFFD' = c := by
  cases h with
  | ascii ha => rw [List.mem_singleton, Option.getD_some, ofNat_toNat_eq_iff ha hc, eq_comm]
  | high _ hbytes hpiece =>
    refine iff_of_false (fun hmem => ?_) fun hshown => ?_
    · have hbyte := hbytes _ hmem
      rw [toNat_byte (by omega)] at hbyte
      omega
    · cases piece with
      | none =>
        rw [← hshown] at hc
        exact absurd hc (by decide)
      | some d =>
        have hd := hpiece d rfl
        rw [show d = c from hshown] at hd
        omega

/-- Where a byte below 0x80 is in a stretch, nothing else is. -/
theorem Stretch.forall_iff (h : Stretch bytes piece) (hc : c.toNat < 128) :
    (∀ b ∈ bytes, b = UInt8.ofNat c.toNat) ↔ piece.getD '\uFFFD' = c := by
  rw [← h.mem_iff hc]
  constructor
  · intro hall
    obtain ⟨b, hb⟩ := List.exists_mem_of_ne_nil _ h.ne_nil
    rwa [← hall b hb]
  · intro hmem
    cases h with
    | ascii _ =>
      rw [List.mem_singleton.1 hmem]
      exact fun b hb => List.mem_singleton.1 hb
    | high _ hbytes _ =>
      have hbyte := hbytes _ hmem
      rw [toNat_byte (by omega)] at hbyte
      omega

theorem Reads.mem_iff (h : Reads bytes cs) (hc : c.toNat < 128) :
    UInt8.ofNat c.toNat ∈ bytes ↔ c ∈ cs.map fun piece => piece.getD '\uFFFD' := by
  induction h with
  | nil => exact iff_of_false List.not_mem_nil List.not_mem_nil
  | cons hfirst _ ih => rw [List.mem_append, List.map_cons, List.mem_cons, hfirst.mem_iff hc, ih, eq_comm]

theorem Reads.forall_iff (h : Reads bytes cs) (hc : c.toNat < 128) :
    (∀ b ∈ bytes, b = UInt8.ofNat c.toNat) ↔ ∀ d ∈ cs.map fun piece => piece.getD '\uFFFD', d = c := by
  induction h with
  | nil => exact iff_of_true nofun nofun
  | cons hfirst _ ih => rw [List.forall_mem_append, List.map_cons, List.forall_mem_cons, hfirst.forall_iff hc, ih]

theorem toList_decodeLossy : (decodeLossy bytes).toList = (pieces bytes).map fun piece => piece.getD '\uFFFD' :=
  String.toList_ofList

/-- Whatever the bytes are, a character below 0x80 is shown exactly if its byte is there. -/
theorem mem_decodeLossy_iff (hc : c.toNat < 128) :
    c ∈ (decodeLossy bytes).toList ↔ UInt8.ofNat c.toNat ∈ bytes := by
  rw [toList_decodeLossy, (reads_pieces bytes).1.mem_iff hc]

/-- Nothing else is shown exactly if nothing else is there. -/
theorem forall_decodeLossy_iff (hc : c.toNat < 128) :
    (∀ d ∈ (decodeLossy bytes).toList, d = c) ↔ ∀ b ∈ bytes, b = UInt8.ofNat c.toNat := by
  rw [toList_decodeLossy, (reads_pieces bytes).1.forall_iff hc]

/-- No byte below 0x80 is swallowed by bytes before it, even if they break off within a character. -/
theorem toList_decodeLossy_append (hmore : Fresh more) :
    (decodeLossy (bytes ++ more)).toList = (decodeLossy bytes).toList ++ (decodeLossy more).toList := by
  rw [toList_decodeLossy, toList_decodeLossy, toList_decodeLossy, (reads_pieces bytes).2 more hmore, List.map_append]

theorem toList_decodeLossy_encode (s : String) : (decodeLossy (encode s)).toList = s.toList := by
  rw [toList_decodeLossy, encode, pieces_encodeChars, List.map_map]
  exact List.map_id _

end

end RemoteFacts.Text.Utf8
