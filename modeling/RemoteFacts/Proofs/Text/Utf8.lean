import RemoteFacts.Text.Utf8

/-!
# A text comes back from its bytes

* `Utf8.lead_byte` : what the first byte of a character says, by its number;
* `Utf8.pieces_oneByte`, `pieces_twoBytes`, `pieces_threeBytes`, `pieces_fourBytes` : the bytes of a number at the
  front of others are read as the character with this number, hence those of a character as the character
  (`pieces_encodeChar`);
* `Utf8.decode?_encode` : reading the bytes of a text gives the text.
-/

namespace RemoteFacts.Text.Utf8

/-! ## Bytes by their numbers -/

theorem toNat_byte {n : Nat} (h : n < 256) : (UInt8.ofNat n).toNat = n := by
  rw [UInt8.toNat_ofNat', Nat.mod_eq_of_lt h]

theorem byte_lt_iff {m n : Nat} (hm : m < 256) (hn : n < 256) : UInt8.ofNat m < UInt8.ofNat n ↔ m < n := by
  rw [UInt8.lt_iff_toNat_lt, toNat_byte hm, toNat_byte hn]

theorem byte_le_iff {m n : Nat} (hm : m < 256) (hn : n < 256) : UInt8.ofNat m ≤ UInt8.ofNat n ↔ m ≤ n := by
  rw [UInt8.le_iff_toNat_le, toNat_byte hm, toNat_byte hn]

theorem byte_eq_iff {m n : Nat} (hm : m < 256) (hn : n < 256) : UInt8.ofNat m = UInt8.ofNat n ↔ m = n := by
  rw [← UInt8.toNat_inj, toNat_byte hm, toNat_byte hn]

/-- The kind of a first byte, by its number. -/
theorem lead_byte {n : Nat} (h : n < 256) : lead (UInt8.ofNat n) =
    if n < 128 then .alone
    else if n < 194 then .never
    else if n < 224 then .two
    else if n < 240 then .three (if n = 224 then 0xA0 else 0x80) (if n = 237 then 0x9F else 0xBF)
    else if n < 245 then .four (if n = 240 then 0x90 else 0x80) (if n = 244 then 0x8F else 0xBF)
    else .never := by
  unfold lead
  simp only [← byte_lt_iff h (show 128 < 256 by decide), ← byte_lt_iff h (show 194 < 256 by decide),
    ← byte_lt_iff h (show 224 < 256 by decide), ← byte_lt_iff h (show 240 < 256 by decide),
    ← byte_lt_iff h (show 245 < 256 by decide), ← byte_eq_iff h (show 224 < 256 by decide),
    ← byte_eq_iff h (show 237 < 256 by decide), ← byte_eq_iff h (show 240 < 256 by decide),
    ← byte_eq_iff h (show 244 < 256 by decide)]
  rfl

theorem isTail_byte {n : Nat} : isTail (UInt8.ofNat (n % 64 + 128)) = true := by
  have h : n % 64 + 128 < 256 := by omega
  rw [isTail, Bool.and_eq_true, decide_eq_true_eq, decide_eq_true_eq]
  exact ⟨(byte_le_iff (show 128 < 256 by decide) h).2 (Nat.le_add_left ..),
    (byte_le_iff h (show 191 < 256 by decide)).2 (show n % 64 + 128 ≤ 191 by omega)⟩

theorem tailBits_byte {n : Nat} : tailBits (UInt8.ofNat (n % 64 + 128)) = n % 64 := by
  rw [tailBits, toNat_byte (by omega)]
  omega

/-! ## Characters -/

section
variable {a b c d low high : UInt8} {rest : List UInt8}

theorem pieces_alone (h : lead a = .alone) :
    pieces (a :: rest) = some (Char.ofNat a.toNat) :: pieces rest := by
  rw [pieces.eq_def]
  simp only [h]

theorem pieces_two (h : lead a = .two) (hb : isTail b = true) :
    pieces (a :: b :: rest) = some (Char.ofNat (a.toNat % 32 * 64 + tailBits b)) :: pieces rest := by
  rw [pieces.eq_def]
  simp only [h, hb, if_true]

theorem pieces_three (h : lead a = .three low high) (hb : low ≤ b ∧ b ≤ high) (hc : isTail c = true) :
    pieces (a :: b :: c :: rest) =
      some (Char.ofNat ((a.toNat % 16 * 64 + tailBits b) * 64 + tailBits c)) :: pieces rest := by
  rw [pieces.eq_def]
  simp only [h, if_pos hb, hc, if_true]

theorem pieces_four (h : lead a = .four low high) (hb : low ≤ b ∧ b ≤ high) (hc : isTail c = true)
    (hd : isTail d = true) : pieces (a :: b :: c :: d :: rest) =
      some (Char.ofNat (((a.toNat % 8 * 64 + tailBits b) * 64 + tailBits c) * 64 + tailBits d)) ::
        pieces rest := by
  rw [pieces.eq_def]
  simp only [h, if_pos hb, hc, hd, if_true]

/-! ### Characters by their numbers -/

variable {n : Nat}

theorem pieces_oneByte (h : n < 0x80) : pieces (UInt8.ofNat n :: rest) = some (Char.ofNat n) :: pieces rest := by
  have hlead : lead (UInt8.ofNat n) = .alone := by
    rw [lead_byte (by omega), if_pos (by omega)]
  rw [pieces_alone hlead, toNat_byte (by omega)]

theorem pieces_twoBytes (hlow : 0x80 ≤ n) (hhigh : n < 0x800) :
    pieces (UInt8.ofNat (n / 64 % 32 + 192) :: UInt8.ofNat (n % 64 + 128) :: rest) =
      some (Char.ofNat n) :: pieces rest := by
  have hsize : n / 64 % 32 + 192 < 256 := by omega
  have hlead : lead (UInt8.ofNat (n / 64 % 32 + 192)) = .two := by
    rw [lead_byte hsize, if_neg (by omega), if_neg (by omega), if_pos (by omega)]
  have hnumber : (n / 64 % 32 + 192) % 32 * 64 + n % 64 = n := by omega
  rw [pieces_two hlead isTail_byte, tailBits_byte, toNat_byte hsize, hnumber]

/-- The second byte is bounded so that there is no shorter way to write the number, and it is no surrogate. -/
theorem pieces_threeBytes (hlow : 0x800 ≤ n) (hhigh : n < 0x10000) (hscalar : n < 0xD800 ∨ 0xDFFF < n) :
    pieces (UInt8.ofNat (n / 4096 % 16 + 224) :: UInt8.ofNat (n / 64 % 64 + 128) :: UInt8.ofNat (n % 64 + 128) ::
      rest) = some (Char.ofNat n) :: pieces rest := by
  have hsize : n / 4096 % 16 + 224 < 256 := by omega
  have hlead := lead_byte hsize
  rw [if_neg (by omega), if_neg (by omega), if_neg (by omega), if_pos (by omega)] at hlead
  have hrange : (if n / 4096 % 16 + 224 = 224 then UInt8.ofNat 160 else UInt8.ofNat 128) ≤
      UInt8.ofNat (n / 64 % 64 + 128) ∧ UInt8.ofNat (n / 64 % 64 + 128) ≤
        (if n / 4096 % 16 + 224 = 237 then UInt8.ofNat 159 else UInt8.ofNat 191) := by
    constructor <;> split <;> rw [byte_le_iff (by omega) (by omega)] <;> omega
  have hnumber : ((n / 4096 % 16 + 224) % 16 * 64 + n / 64 % 64) * 64 + n % 64 = n := by omega
  rw [pieces_three hlead hrange isTail_byte, tailBits_byte, tailBits_byte, toNat_byte hsize, hnumber]

/-- The second byte is bounded so that there is no shorter way to write the number, and it lies in Unicode. -/
theorem pieces_fourBytes (hlow : 0x10000 ≤ n) (hhigh : n < 0x110000) :
    pieces (UInt8.ofNat (n / 262144 % 8 + 240) :: UInt8.ofNat (n / 4096 % 64 + 128) ::
      UInt8.ofNat (n / 64 % 64 + 128) :: UInt8.ofNat (n % 64 + 128) :: rest) =
        some (Char.ofNat n) :: pieces rest := by
  have hsize : n / 262144 % 8 + 240 < 256 := by omega
  have hlead := lead_byte hsize
  rw [if_neg (by omega), if_neg (by omega), if_neg (by omega), if_neg (by omega), if_pos (by omega)] at hlead
  have hrange : (if n / 262144 % 8 + 240 = 240 then UInt8.ofNat 144 else UInt8.ofNat 128) ≤
      UInt8.ofNat (n / 4096 % 64 + 128) ∧ UInt8.ofNat (n / 4096 % 64 + 128) ≤
        (if n / 262144 % 8 + 240 = 244 then UInt8.ofNat 143 else UInt8.ofNat 191) := by
    constructor <;> split <;> rw [byte_le_iff (by omega) (by omega)] <;> omega
  have hnumber : (((n / 262144 % 8 + 240) % 8 * 64 + n / 4096 % 64) * 64 + n / 64 % 64) * 64 + n % 64 = n := by
    omega
  rw [pieces_four hlead hrange isTail_byte isTail_byte, tailBits_byte, tailBits_byte, tailBits_byte,
    toNat_byte hsize, hnumber]

end

/-- The bytes of a character, at the front of others, are read as that character. -/
theorem pieces_encodeChar (c : Char) (rest : List UInt8) :
    pieces (String.utf8EncodeChar c ++ rest) = some c :: pieces rest := by
  have hc : Char.ofNat c.val.toNat = c := Char.ofNat_toNat c
  have hscalar : c.val.toNat < 0xD800 ∨ (0xDFFF < c.val.toNat ∧ c.val.toNat < 0x110000) := c.valid
  unfold String.utf8EncodeChar
  generalize c.val.toNat = n at hc hscalar ⊢
  subst hc
  dsimp only
  split
  · exact pieces_oneByte (by omega)
  split
  · exact pieces_twoBytes (by omega) (by omega)
  split
  · exact pieces_threeBytes (by omega) (by omega) (by omega)
  · exact pieces_fourBytes (by omega) (by omega)

/-! ## Texts -/

theorem pieces_encodeChars (cs : List Char) : pieces (cs.flatMap String.utf8EncodeChar) = cs.map some := by
  induction cs with
  | nil => simp [pieces]
  | cons c cs ih => rw [List.flatMap_cons, pieces_encodeChar, ih, List.map_cons]

/-- Reading the bytes of a text gives the text. -/
theorem decode?_encode (s : String) : decode? (encode s) = some s := by
  have hall : (s.toList.map some).mapM id = some s.toList := by
    rw [List.mapM_map]
    exact (List.mapM_pure (f := id)).trans (congrArg some (List.map_id _))
  rw [decode?, encode, pieces_encodeChars, hall, Option.map_some, String.ofList_toList]

end RemoteFacts.Text.Utf8
