import Mathlib.Data.List.Forall2
import RemoteFacts.Proofs.Toml.Strings
import RemoteFacts.Toml.Reader

/-!
# Values come back

* `Delimited` : a text that goes on as it does after a value: with a line break, a comma or a bracket;
* `Lexer.number?_digits` : the digits of a number are read as the number;
* `Reader.value_leaf?`, `Reader.value_value?` : what is written for a value is read as the value, whatever follows it,
  if that is delimited.
-/

namespace RemoteFacts.Toml

open Lexer

variable {c : Char} {cs ds rest : List Char} {n : Nat}

/-- A text that goes on as it does after a value. -/
inductive Delimited : List Char → Prop where
  | lineBreak (rest : List Char) : Delimited ('\n' :: rest)
  | comma (rest : List Char) : Delimited (',' :: rest)
  | bracket (rest : List Char) : Delimited (']' :: rest)

theorem forall₂_of_mapM {α β : Type} {f : α → Option β} {as : List α} {bs : List β} (h : as.mapM f = some bs) :
    List.Forall₂ (fun a b => f a = some b) as bs := by
  induction as generalizing bs with
  | nil => cases h; exact .nil
  | cons a as ih =>
    rw [List.mapM_cons] at h
    obtain ⟨b, hb, h⟩ := Option.bind_eq_some_iff.1 h
    obtain ⟨bs', hbs, h⟩ := Option.bind_eq_some_iff.1 h
    cases h
    exact .cons hb (ih hbs)

namespace Lexer

/-! ## Decimal digits -/

theorem natOf_eq_ofDigitChars (hds : ∀ c ∈ ds, c.isDigit = true) (n : Nat) :
    ds.foldl (fun n c => n * 10 + (hexDigit? c).getD 0) n = Nat.ofDigitChars 10 ds n := by
  induction ds generalizing n with
  | nil => rfl
  | cons d ds ih =>
    rw [List.forall_mem_cons] at hds
    have hd : '0' ≤ d ∧ d ≤ '9' := by simpa [Char.isDigit, Char.le_def, UInt32.le_iff_toNat_le] using hds.1
    have hvalue : hexDigit? d = some (d.toNat - '0'.toNat) := if_pos hd
    rw [List.foldl_cons, Nat.ofDigitChars_cons, ih hds.2, hvalue, Option.getD_some, Nat.mul_comm n 10]

theorem isDigit_of_mem_toDigits : ∀ c ∈ Nat.toDigits 10 n, c.isDigit = true := fun _ hc =>
  Nat.isDigit_of_mem_toDigits (by decide) (by decide) hc

theorem natOf_toDigits (n : Nat) : natOf 10 (Nat.toDigits 10 n) = n := by
  rw [natOf, natOf_eq_ofDigitChars isDigit_of_mem_toDigits, Nat.ofDigitChars_ten_toDigits]

/-- Only the digits of zero begin with a zero. -/
theorem toDigits_eq_cons (n : Nat) : ∃ d ds, Nat.toDigits 10 n = d :: ds ∧ (d = '0' → n = 0) := by
  induction n using Nat.strongRecOn with
  | ind n ih =>
    rw [Nat.toDigits_eq_if (by decide)]
    split
    · next hn =>
      have hzero : ∀ n < 10, n.digitChar = '0' → n = 0 := by decide
      exact ⟨_, _, rfl, hzero n hn⟩
    · next hn =>
      obtain ⟨d, ds, hds, hzero⟩ := ih (n / 10) (by omega)
      exact ⟨d, ds ++ [(n % 10).digitChar], by rw [hds]; rfl, fun hd => by have := hzero hd; omega⟩

/-! ## Numbers -/

theorem digits_append (hds : ∀ c ∈ ds, c.isDigit = true) (hrest : Delimited rest) :
    digits Char.isDigit (ds ++ rest) = (ds, rest) := by
  induction ds with
  | nil => cases hrest <;> rfl
  | cons d ds ih =>
    rw [List.forall_mem_cons] at hds
    rw [List.cons_append, digits, if_pos hds.1, ih hds.2]
    rintro _ _ rfl
    exact absurd hds.1 (by decide)

theorem whole?_digits (n : Nat) (hrest : Delimited rest) :
    whole? (Nat.toDigits 10 n ++ rest) = some (Nat.toDigits 10 n, rest) := by
  obtain ⟨d, ds, hds, hzero⟩ := toDigits_eq_cons n
  have hdigits : ∀ c ∈ d :: ds, c.isDigit = true := fun c hc => isDigit_of_mem_toDigits c (hds ▸ hc)
  by_cases hd : d = '0'
  · rw [hzero hd, Nat.toDigits_zero]
    rfl
  · rw [hds, List.cons_append, whole?, digits1?, if_pos (hdigits d List.mem_cons_self), ← List.cons_append,
      digits_append hdigits hrest]
    rintro _ heq
    exact hd (List.cons.inj heq).1

theorem unsigned?_digits (negative : Bool) (n : Nat) (hrest : Delimited rest) :
    unsigned? negative (Nat.toDigits 10 n ++ rest) =
      (integer? (if negative then -(n : Int) else n)).map (·, rest) := by
  obtain ⟨d, ds, hds, -⟩ := toDigits_eq_cons n
  have hd : d.isDigit = true := isDigit_of_mem_toDigits d (hds ▸ List.mem_cons_self)
  have hletter {cs : List Char} {c : Char} (hc : c.isDigit = false) (heq : Nat.toDigits 10 n ++ rest = c :: cs) :
      False := by
    rw [hds] at heq
    rw [← (List.cons.inj heq).1, hd] at hc
    exact Bool.noConfusion hc
  have hfraction : fraction? rest = some ([], rest) := by cases hrest <;> rfl
  have hexponent : exponent? rest = some (none, rest) := by cases hrest <;> rfl
  rw [unsigned?, whole?_digits n hrest]
  · simp only [Option.bind_eq_bind, Option.bind_some, hfraction, hexponent, natOf_toDigits]
    cases integer? (if negative then -(n : Int) else n) <;> rfl
  · exact fun _ => hletter (by decide)
  · exact fun _ => hletter (by decide)

theorem number?_digits (n : Nat) (hrest : Delimited rest) :
    number? (Nat.toDigits 10 n ++ rest) = (integer? n).map (·, rest) := by
  refine Eq.trans ?_ (unsigned?_digits false n hrest)
  obtain ⟨d, ds, hds, hzero⟩ := toDigits_eq_cons n
  have hd : d.isDigit = true := isDigit_of_mem_toDigits d (hds ▸ List.mem_cons_self)
  by_cases hn : d = '0'
  · rw [hzero hn, Nat.toDigits_zero]
    cases hrest <;> rfl
  · rw [hds, List.cons_append]
    unfold number?
    split
    · next heq => exact absurd (List.cons.inj heq).1 hn
    · next heq => exact absurd (List.cons.inj heq).1 hn
    · next heq => exact absurd (List.cons.inj heq).1 hn
    · next heq => rw [(List.cons.inj heq).1] at hd; exact absurd hd (by decide)
    · next heq => rw [(List.cons.inj heq).1] at hd; exact absurd hd (by decide)
    · rfl

/-! ## No moments -/

theorem after?_eq_none {e : Char} (h : cs.head? ≠ some e) : after? e cs = none := by
  cases cs with
  | nil => rfl
  | cons c cs =>
    have hne : (e == c) = false := beq_false_of_ne fun heq => h (by rw [heq]; rfl)
    rw [after?, hne]
    rfl

/-- Digits that a delimiter follows are not the beginning of a date or a time. -/
theorem beginsWith_digits (hds : ∀ c ∈ ds, c.isDigit = true) (hrest : Delimited rest) {e : Char}
    (he : e = '-' ∨ e = ':') (k : Nat) : beginsWith k e (ds ++ rest) = false := by
  have hother : ∃ c more, rest = c :: more ∧ c.isDigit = false ∧ c ≠ e := by
    cases hrest with
    | lineBreak more => exact ⟨_, more, rfl, by decide, by rcases he with rfl | rfl <;> decide⟩
    | comma more => exact ⟨_, more, rfl, by decide, by rcases he with rfl | rfl <;> decide⟩
    | bracket more => exact ⟨_, more, rfl, by decide, by rcases he with rfl | rfl <;> decide⟩
  obtain ⟨c, more, rfl, hc, hce⟩ := hother
  have hedigit : e.isDigit = false := by rcases he with rfl | rfl <;> decide
  unfold beginsWith fixed?
  dsimp only
  split
  · next htake =>
    have hk : k ≤ ds.length := by
      refine Nat.le_of_not_lt fun hlt => ?_
      have hmem : c ∈ List.take k (ds ++ c :: more) := by
        obtain ⟨j, rfl⟩ : ∃ j, k = ds.length + (j + 1) := ⟨k - ds.length - 1, by omega⟩
        rw [List.take_length_add_append, List.take_succ_cons]
        exact List.mem_append_right _ List.mem_cons_self
      rw [List.all_eq_true.1 htake.2 c hmem] at hc
      exact Bool.noConfusion hc
    rw [List.drop_append_of_le_length hk, Option.map_some, Option.bind_some, after?_eq_none]
    · rfl
    · cases hdrop : List.drop k ds with
      | nil => simpa using hce
      | cons d rest =>
        have hd : d.isDigit = true := hds d (List.mem_of_mem_drop (hdrop ▸ List.mem_cons_self))
        rw [List.cons_append, List.head?_cons]
        rintro heq
        rw [Option.some.inj heq, hedigit] at hd
        exact Bool.noConfusion hd
  · rfl

theorem looksLikeMoment_digits (hds : ∀ c ∈ ds, c.isDigit = true) (hrest : Delimited rest) :
    looksLikeMoment (ds ++ rest) = false := by
  rw [looksLikeMoment, beginsWith_digits hds hrest (Or.inl rfl), beginsWith_digits hds hrest (Or.inr rfl)]
  rfl

theorem looksLikeMoment_minus (cs : List Char) : looksLikeMoment ('-' :: cs) = false := by
  have hfixed (k : Nat) : fixed? (k + 1) ('-' :: cs) = none := by
    refine if_neg fun h => ?_
    rw [List.take_succ_cons] at h
    exact absurd (List.all_eq_true.1 h.2 '-' List.mem_cons_self) (by decide)
  rw [looksLikeMoment, beginsWith, beginsWith, hfixed, hfixed]
  rfl

theorem string_eq_cons (s : String) : ∃ c cs, (Printer.string s).toList = c :: cs ∧ (c = '"' ∨ c = '\'') := by
  rw [Printer.string, String.toList_ofList]
  cases Quotes.ofText s.toList with
  | double => exact ⟨_, _, rfl, Or.inl rfl⟩
  | single => exact ⟨_, _, rfl, Or.inr rfl⟩
  | tripleDouble => exact ⟨_, _, rfl, Or.inl rfl⟩
  | tripleSingle => exact ⟨_, _, rfl, Or.inr rfl⟩

end Lexer

namespace Reader

/-! ## Values that are no arrays -/

theorem value_string (s : String) (depth fuel : Nat) (hrest : Delimited rest) :
    value depth (fuel + 1) ((Printer.string s).toList ++ rest) = some (.text s, rest) := by
  have hstring : string? ((Printer.string s).toList ++ rest) = some (s, rest) := by
    refine string?_string s ?_ ?_ <;> cases hrest <;> simp
  obtain ⟨c, cs, hs, hc⟩ := string_eq_cons s
  rw [hs, List.cons_append] at hstring ⊢
  rcases hc with rfl | rfl <;> rw [value, hstring] <;> rfl

theorem value_number (cs : List Char) (depth fuel : Nat) (hc : c.isDigit = true ∨ c = '-') :
    value depth (fuel + 1) (c :: cs) =
      if looksLikeMoment (c :: cs) then moment? (c :: cs) else number? (c :: cs) := by
  have hother {d : Char} {ds : List Char} (hd : d.isDigit = false ∧ d ≠ '-') (heq : c :: cs = d :: ds) : False := by
    rw [(List.cons.inj heq).1] at hc
    exact hc.elim (fun h => Bool.noConfusion (hd.1.symm.trans h)) hd.2
  rw [value]
  · exact fun _ => hother (by decide)
  · exact fun _ => hother (by decide)
  · exact fun _ => hother (by decide)
  · exact fun _ => hother (by decide)
  · exact fun _ => hother (by decide)
  · exact fun _ => hother (by decide)

theorem value_integer {n : Int} (hn : Width.minInt64 ≤ n ∧ n ≤ Width.maxInt64) (depth fuel : Nat)
    (hrest : Delimited rest) :
    value depth (fuel + 1) ((toString n).toList ++ rest) = some (.integer n, rest) := by
  cases n with
  | ofNat n =>
    obtain ⟨d, ds, hds, -⟩ := toDigits_eq_cons n
    have hd : d.isDigit = true := isDigit_of_mem_toDigits d (hds ▸ List.mem_cons_self)
    have hfits : integer? (n : Int) = some (.integer (Int.ofNat n)) := if_pos hn
    have hvalue := value_number (ds ++ rest) depth fuel (Or.inl hd)
    rw [← List.cons_append, ← hds, looksLikeMoment_digits isDigit_of_mem_toDigits hrest, if_neg (by decide),
      number?_digits n hrest, hfits] at hvalue
    rw [show (toString (Int.ofNat n)).toList = Nat.toDigits 10 n from Nat.toList_repr]
    exact hvalue
  | negSucc n =>
    have hfits : integer? (-((n + 1 : Nat) : Int)) = some (.integer (Int.negSucc n)) := if_pos hn
    have hvalue := value_number (Nat.toDigits 10 (n + 1) ++ rest) depth fuel (Or.inr (rfl : '-' = '-'))
    rw [looksLikeMoment_minus, if_neg (by decide), number?, unsigned?_digits true (n + 1) hrest, if_pos rfl,
      hfits] at hvalue
    have htext : (toString (Int.negSucc n)).toList = '-' :: Nat.toDigits 10 (n + 1) := by
      rw [show toString (Int.negSucc n) = "-" ++ (n + 1).repr from rfl, String.toList_append, Nat.toList_repr]
      rfl
    rw [htext]
    exact hvalue

/-- What is written for a string, a whole number or a truth value is read as that. -/
theorem value_leaf? {v : Toml} {s : String} (h : Printer.leaf? v = some s) (depth fuel : Nat) (hrest : Delimited rest) :
    value depth (fuel + 1) (s.toList ++ rest) = some (v, rest) := by
  cases v with
  | text s => cases h; exact value_string s depth fuel hrest
  | integer n =>
    rw [Printer.leaf?] at h
    split at h
    · next hn => cases h; exact value_integer hn depth fuel hrest
    · contradiction
  | boolean b => cases h; cases b <;> rfl
  | real | moment | array | table => cases h

/-! ## What stands between values -/

/-- A character that is neither a blank nor a line break, and begins no comment. -/
def isSolid (c : Char) : Bool := c != ' ' && c != '\t' && c != '\n' && c != '\r' && c != '#'

theorem isSolid_iff : isSolid c = true ↔ c ≠ ' ' ∧ c ≠ '\t' ∧ c ≠ '\n' ∧ c ≠ '\r' ∧ c ≠ '#' := by
  simp only [isSolid, Bool.and_eq_true, bne_iff_ne, and_assoc]

theorem isSolid_of_isDigit (h : c.isDigit = true) : isSolid c = true := by
  refine isSolid_iff.2 ⟨?_, ?_, ?_, ?_, ?_⟩ <;> rintro rfl <;> exact absurd h (by decide)

theorem skipBlank_cons (h : isSolid c = true) (cs : List Char) : skipBlank (c :: cs) = c :: cs := by
  obtain ⟨hblank, htab, -⟩ := isSolid_iff.1 h
  exact List.dropWhile_cons_of_neg (by simp [hblank, htab])

theorem skipSpace_cons (h : isSolid c = true) (fuel : Nat) (cs : List Char) : skipSpace fuel (c :: cs) = c :: cs := by
  obtain ⟨-, -, hn, hr, hhash⟩ := isSolid_iff.1 h
  cases fuel with
  | zero => rfl
  | succ fuel =>
    have hcomment : comment? (c :: cs) = none := by
      unfold comment?
      split
      · next heq => exact absurd (List.cons.inj heq).1 hhash
      · rfl
    rw [skipSpace, skipBlank_cons h, newline?_of_ne hn hr, hcomment]

/-- An item on a line of its own is reached. -/
theorem skipSpace_line (h : isSolid c = true) (fuel : Nat) (cs : List Char) :
    skipSpace (fuel + 2) ('\n' :: ' ' :: ' ' :: ' ' :: ' ' :: c :: cs) = c :: cs := by
  have hblanks : skipBlank (' ' :: ' ' :: ' ' :: ' ' :: c :: cs) = skipBlank (c :: cs) := rfl
  calc skipSpace (fuel + 2) ('\n' :: ' ' :: ' ' :: ' ' :: ' ' :: c :: cs)
      = skipSpace (fuel + 1) (' ' :: ' ' :: ' ' :: ' ' :: c :: cs) := rfl
    _ = skipSpace (fuel + 1) (c :: cs) := by rw [skipSpace, skipSpace, hblanks]
    _ = c :: cs := skipSpace_cons h (fuel + 1) cs

/-! ## Arrays -/

section
variable {v : Toml} {vs done : List Toml} {s : String} {ts : List String} {depth fuel : Nat}

/-- What is written for a value that is no array begins with a character that no reader passes over. -/
theorem leaf?_eq_cons (h : Printer.leaf? v = some s) : ∃ c cs, s.toList = c :: cs ∧ isSolid c = true ∧ c ≠ ']' := by
  cases v with
  | text s =>
    cases h
    obtain ⟨c, cs, hs, hc⟩ := string_eq_cons s
    exact ⟨c, cs, hs, by rcases hc with rfl | rfl <;> decide⟩
  | integer n =>
    rw [Printer.leaf?] at h
    split at h
    · cases h
      cases n with
      | ofNat n =>
        obtain ⟨d, ds, hds, -⟩ := toDigits_eq_cons n
        have hd : d.isDigit = true := isDigit_of_mem_toDigits d (hds ▸ List.mem_cons_self)
        refine ⟨d, ds, ?_, isSolid_of_isDigit hd, ?_⟩
        · exact Nat.toList_repr.trans hds
        · rintro rfl
          exact absurd hd (by decide)
      | negSucc n => exact ⟨'-', _, String.toList_append, by decide⟩
    · contradiction
  | boolean b => cases h; cases b <;> exact ⟨_, _, rfl, by decide⟩
  | real | moment | array | table => cases h

/-- An item is read, and then what follows it tells whether there are more. -/
theorem items_item (hskip : skipSpace cs.length cs = c :: ds) (hc : c ≠ ']')
    (hvalue : value depth fuel (c :: ds) = some (v, rest)) :
    items depth (fuel + 1) done cs = match skipSpace rest.length rest with
      | ',' :: rest => items depth fuel (v :: done) rest
      | ']' :: rest => some (.array (v :: done).reverse, rest)
      | _ => none := by
  rw [items, hskip]
  split
  · next heq => exact absurd (List.cons.inj heq).1 hc
  · rw [hvalue]
    rfl

theorem items_nil : items depth (fuel + 1) done (']' :: rest) = some (.array done.reverse, rest) := by
  rw [items]
  rfl

theorem items_single (hv : Printer.leaf? v = some s) :
    items depth (fuel + 2) [] (s.toList ++ ']' :: rest) = some (.array [v], rest) := by
  obtain ⟨c, cs, hs, hsolid, hc⟩ := leaf?_eq_cons hv
  have hvalue := value_leaf? hv depth fuel (.bracket rest)
  rw [hs, List.cons_append] at hvalue ⊢
  rw [items_item (skipSpace_cons hsolid _ _) hc hvalue]
  rfl

/-- An item on a line of its own. -/
def itemLine (t : String) : List Char := ' ' :: ' ' :: ' ' :: ' ' :: (t.toList ++ [',', '\n'])

theorem toList_itemLines (ts : List String) (rest : List Char) :
    ("[\n" ++ String.join (ts.map fun t => "    " ++ t ++ ",\n") ++ "]").toList ++ rest =
      '[' :: '\n' :: (ts.flatMap itemLine ++ ']' :: rest) := by
  have hline : (fun t => ("    " ++ t ++ ",\n").toList) = itemLine := by
    funext t
    simp [itemLine]
  have hjoin : (String.join (ts.map fun t => "    " ++ t ++ ",\n")).toList = ts.flatMap itemLine := by
    rw [String.toList_join, List.flatMap_map, hline]
  rw [String.toList_append, String.toList_append, hjoin]
  simp

theorem length_le_itemLines (ts : List String) : ts.length ≤ (ts.flatMap itemLine).length := by
  induction ts with
  | nil => exact Nat.le_refl 0
  | cons t ts ih =>
    rw [List.flatMap_cons, List.length_append, itemLine, List.length_cons, List.length_cons]
    omega

/-- The lines of an array are read as its items. -/
theorem items_lines (h : List.Forall₂ (fun v t => Printer.leaf? v = some t) vs ts) (hfuel : vs.length < fuel) :
    items depth fuel done ('\n' :: (ts.flatMap itemLine ++ ']' :: rest)) =
      some (.array (done.reverse ++ vs), rest) := by
  induction h generalizing done fuel with
  | nil =>
    obtain ⟨fuel, rfl⟩ := Nat.exists_eq_add_one.2 (Nat.zero_lt_of_lt hfuel)
    rw [List.append_nil, items]
    rfl
  | @cons v t vs ts hv hvs ih =>
    obtain ⟨fuel, rfl⟩ : ∃ n, fuel = n + 2 := ⟨fuel - 2, by simp at hfuel; omega⟩
    obtain ⟨c, cs, ht, hsolid, hc⟩ := leaf?_eq_cons hv
    have hvalue := value_leaf? hv depth fuel (.comma ('\n' :: (ts.flatMap itemLine ++ ']' :: rest)))
    have hnext := @ih (v :: done) (fuel + 1) (by simpa using hfuel)
    rw [List.reverse_cons, List.append_assoc, List.singleton_append] at hnext
    rw [ht, List.cons_append] at hvalue
    have htext : '\n' :: ((t :: ts).flatMap itemLine ++ ']' :: rest) =
        '\n' :: ' ' :: ' ' :: ' ' :: ' ' :: c :: (cs ++ ',' :: '\n' :: (ts.flatMap itemLine ++ ']' :: rest)) := by
      simp [itemLine, ht]
    rw [htext, items_item (skipSpace_line hsolid _ _) hc hvalue]
    exact hnext

/-- What is written for a value is read as the value. -/
theorem value_value? (h : Printer.value? v = some s) (hdepth : depth + 1 < depthLimit) (hfuel : s.length < fuel)
    (hrest : Delimited rest) : value depth fuel (s.toList ++ rest) = some (v, rest) := by
  obtain ⟨fuel, rfl⟩ := Nat.exists_eq_add_one.2 (Nat.zero_lt_of_lt hfuel)
  have hleaf (h : Printer.leaf? v = some s) := value_leaf? h depth fuel hrest
  cases v with
  | array vs =>
    obtain ⟨ts, hts, h⟩ := Option.bind_eq_some_iff.1 h
    have hall := forall₂_of_mapM hts
    have hopen (text : List Char) : value depth (fuel + 1) ('[' :: text) = items (depth + 1) fuel [] text := by
      rw [value, if_pos hdepth]
    match ts with
    | [] =>
      cases h
      cases hall
      have hlength : "[]".length = 2 := rfl
      obtain ⟨fuel, rfl⟩ : ∃ n, fuel = n + 1 := ⟨fuel - 1, by omega⟩
      exact (hopen (']' :: rest)).trans items_nil
    | [t] =>
      cases h
      obtain ⟨v, hv, rfl⟩ : ∃ v, Printer.leaf? v = some t ∧ vs = [v] := by
        cases hall with
        | cons hv hnil => cases hnil; exact ⟨_, hv, rfl⟩
      have hlength : ("[" ++ t ++ "]").length = t.length + 2 := by
        have hmark : "[".length = 1 ∧ "]".length = 1 := ⟨rfl, rfl⟩
        rw [String.length_append, String.length_append]
        omega
      obtain ⟨fuel, rfl⟩ : ∃ n, fuel = n + 2 := ⟨fuel - 2, by omega⟩
      have htext : ("[" ++ t ++ "]").toList ++ rest = '[' :: (t.toList ++ ']' :: rest) := by simp
      rw [htext, hopen, items_single hv]
    | t :: t' :: ts =>
      cases h
      have htext := toList_itemLines (t :: t' :: ts) rest
      have hlength := congrArg List.length htext
      have hlines := length_le_itemLines (t :: t' :: ts)
      rw [List.length_append, String.length_toList, List.length_cons, List.length_cons, List.length_append,
        List.length_cons] at hlength
      have hmany : vs.length < fuel := by
        rw [hall.length_eq]
        omega
      exact (congrArg _ htext).trans ((hopen _).trans (items_lines hall hmany))
  | text | integer | boolean | real | moment | table => exact hleaf h

end

end Reader

end RemoteFacts.Toml
