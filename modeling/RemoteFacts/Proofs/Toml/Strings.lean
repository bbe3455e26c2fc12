import RemoteFacts.Toml.Lexer
import RemoteFacts.Toml.Printer

/-!
# Strings in quotes come back

* `Quotes.Written`, `Quotes.written_escape` : a character between double quotes stands there as itself, as a line
  break or as an escape that the reader undoes;
* `Lexer.closing?_marks`, `Lexer.closing?_eq_none` : where a string of several lines ends;
* `Lexer.basicString_escapeAll`, `multiBasicString_escapeAll`, `literalString_plain`, `multiLiteralString_plain` : the
  four kinds of strings, after their opening quotes;
* `Lexer.string?_string` : a string in the quotes that the printer has chosen for it is read as the string, whatever
  follows it, unless that begins with a quote.
-/

namespace RemoteFacts.Toml

open Lexer

variable {c : Char} {cs done rest : List Char} {quote : Char}

/-! ## Characters -/

theorem Quotes.isPlain_of_not_isControl (h : Quotes.isControl c = false) (hc : c ≠ '\n') : isPlain c = true := by
  simp only [Quotes.isControl, Bool.or_eq_false_iff, Bool.and_eq_false_iff, decide_eq_false_iff_not,
    bne_eq_false_iff_eq, beq_eq_false_iff_ne] at h
  simp only [isPlain, Bool.or_eq_true, beq_iff_eq, Bool.and_eq_true, decide_eq_true_eq, bne_iff_ne]
  obtain ⟨(hlow | rfl) | rfl, hdel⟩ := h
  · exact Or.inr ⟨by omega, hdel⟩
  · exact Or.inl rfl
  · exact absurd rfl hc

theorem Quotes.toNat_of_isControl (h : Quotes.isControl c = true) : c.toNat < 0x20 ∨ c.toNat = 0x7F := by
  simp only [Quotes.isControl, Bool.or_eq_true, Bool.and_eq_true, decide_eq_true_eq, beq_iff_eq] at h
  exact h.imp (fun h => h.1.1) id

/-- How a character other than a double quote may stand between double quotes. -/
inductive Quotes.Written (q : Quotes) (c : Char) : List Char → Prop where
  /-- As itself. -/
  | plain : isPlain c = true → c ≠ '"' → c ≠ '\\' → Written q c [c]
  /-- As a line break. -/
  | newline : q.isTriple = true → c = '\n' → Written q c ['\n']
  /-- As an escape. -/
  | escaped (tail : List Char) : (∀ rest, escape? (tail ++ rest) = some (c, rest)) → Written q c ('\\' :: tail)

/-- The number of a control character, in four digits, is read as the character. -/
theorem scalar?_hexChars : ∀ n < 128, n < 0x20 ∨ n = 0x7F →
    scalar? ['0', '0', (Json.hexChar (n / 16)).toUpper, (Json.hexChar (n % 16)).toUpper] = some (Char.ofNat n) := by
  decide +kernel

theorem Quotes.written_escape (q : Quotes) (hc : c ≠ '"') : q.Written c (q.escape c) := by
  unfold Quotes.escape
  split
  · exact .escaped ['b'] fun _ => rfl
  · exact .escaped ['t'] fun _ => rfl
  · split
    · next h => exact .newline h rfl
    · exact .escaped ['n'] fun _ => rfl
  · exact .escaped ['f'] fun _ => rfl
  · exact .escaped ['r'] fun _ => rfl
  · exact .escaped ['\\'] fun _ => rfl
  next htab hnewline _ _ hbackslash =>
  split
  · next hcontrol =>
    have hn := Quotes.toNat_of_isControl hcontrol
    refine .escaped _ fun rest => ?_
    have hscalar := scalar?_hexChars c.toNat (by omega) hn
    rw [Char.ofNat_toNat] at hscalar
    show (scalar? _).map (·, rest) = _
    rw [hscalar]
    rfl
  · next hcontrol =>
    exact .plain (Quotes.isPlain_of_not_isControl (by simpa using hcontrol) (by simpa using hnewline)) hc
      (by simpa using hbackslash)

theorem Quotes.length_le_escapeAll (q : Quotes) (row : Nat) (cs : List Char) :
    cs.length ≤ (q.escapeAll row cs).length := by
  induction cs generalizing row with
  | nil => exact Nat.zero_le _
  | cons c cs ih =>
    rw [Quotes.escapeAll]
    split
    · split
      · exact Nat.succ_le_succ (ih _)
      · exact Nat.succ_le_succ (Nat.le_succ_of_le (ih _))
    · next hc =>
      rw [beq_iff_eq] at hc
      have hpos : 0 < (q.escape c).length := by
        generalize hw : q.escape c = w
        cases hw ▸ q.written_escape hc <;> exact Nat.succ_pos _
      have := ih 0
      rw [List.length_append, List.length_cons]
      omega

/-- What an escape stands for is no end of a line. -/
theorem Lexer.endsLine_of_escape? {x : Char × List Char} (h : escape? cs = some x) : endsLine cs = false := by
  unfold escape? at h
  split at h
  all_goals first | rfl | contradiction

/-! ## One line -/

namespace Lexer

/-- A text between double quotes, on one line. -/
theorem basicString_escapeAll (cs done : List Char) {fuel : Nat} (hfuel : cs.length < fuel) :
    basicString fuel done (Quotes.double.escapeAll 0 cs ++ '"' :: rest) =
      some (String.ofList (done.reverse ++ cs), rest) := by
  induction cs generalizing done fuel with
  | nil =>
    obtain ⟨fuel, rfl⟩ := Nat.exists_eq_add_one.2 hfuel
    rw [List.append_nil]
    rfl
  | cons c cs ih =>
    obtain ⟨fuel, rfl⟩ := Nat.exists_eq_add_one.2 (Nat.zero_lt_of_lt hfuel)
    have hrest := ih (c :: done) (Nat.lt_of_succ_lt_succ hfuel)
    rw [List.reverse_cons, List.append_assoc, List.singleton_append] at hrest
    rw [← hrest]
    rw [Quotes.escapeAll]
    split
    · next hc =>
      rw [beq_iff_eq] at hc
      subst hc
      rfl
    · next hc =>
      rw [beq_iff_eq] at hc
      generalize hw : Quotes.double.escape c = w
      cases hw ▸ Quotes.double.written_escape hc with
      | plain hplain hquote hbackslash =>
        rw [List.singleton_append, List.cons_append, basicString]
        · rw [if_pos hplain]
        · exact hquote
        · exact hbackslash
      | newline htriple => cases htriple
      | escaped tail hescape =>
        rw [List.append_assoc, List.cons_append, basicString, hescape]
        rfl

/-- A text between single quotes, on one line. -/
theorem literalString_plain (cs done : List Char) (hplain : ∀ c ∈ cs, isPlain c = true ∧ c ≠ '\'') :
    literalString done (cs ++ '\'' :: rest) = some (String.ofList (done.reverse ++ cs), rest) := by
  induction cs generalizing done with
  | nil => rw [List.append_nil]; rfl
  | cons c cs ih =>
    rw [List.forall_mem_cons] at hplain
    have hrest := ih (c :: done) hplain.2
    rw [List.reverse_cons, List.append_assoc, List.singleton_append] at hrest
    rw [← hrest, List.cons_append, literalString, if_pos hplain.1.1]
    exact hplain.1.2

/-! ## Several lines -/

/-- Three quotes end a string, and up to two before them belong to it. -/
theorem closing?_marks (done : List Char) {k : Nat} (hk : k ≤ 2) (hrest : rest.head? ≠ some quote) :
    closing? quote done (List.replicate k quote ++ [quote, quote, quote] ++ rest) =
      some (String.ofList (done.reverse ++ List.replicate k quote), rest) := by
  have hne (d : Char) (ds : List Char) (hd : rest = d :: ds) : (d == quote) = false := by
    rw [hd, List.head?_cons] at hrest
    exact beq_false_of_ne fun h => hrest (congrArg some h)
  match k with
  | 0 =>
    match rest with
    | [] => simp [closing?]
    | [d] => simp [closing?, hne d [] rfl]
    | d :: e :: rest => simp [closing?, hne d (e :: rest) rfl]
  | 1 =>
    match rest with
    | [] => simp [closing?]
    | d :: rest => simp [closing?, hne d rest rfl]
  | 2 => simp [closing?, List.replicate]

theorem closing?_eq_none (done : List Char) (h : ¬ [quote, quote, quote] <+: cs) : closing? quote done cs = none := by
  unfold closing?
  split
  · next a b c rest =>
    split
    · next heq =>
      simp only [Bool.and_eq_true, beq_iff_eq] at heq
      obtain ⟨⟨rfl, rfl⟩, rfl⟩ := heq
      exact absurd (List.prefix_append [_, _, _] rest) h
    · rfl
  · rfl

theorem newline?_of_isPlain (h : isPlain c = true) : newline? (c :: cs) = none := by
  unfold newline?
  split
  · next heq => cases heq; contradiction
  · next heq => cases heq; contradiction
  · rfl

theorem newline?_of_ne (hn : c ≠ '\n') (hr : c ≠ '\r') : newline? (c :: cs) = none := by
  unfold newline?
  split
  · next heq => cases heq; contradiction
  · next heq => cases heq; contradiction
  · rfl

theorem multiBasicString_end {fuel : Nat} {x : String × List Char} (h : closing? '"' done cs = some x) :
    multiBasicString (fuel + 1) done cs = some x := by
  rw [multiBasicString.eq_def]
  simp only [h]

theorem multiLiteralString_end {fuel : Nat} {x : String × List Char} (h : closing? '\'' done cs = some x) :
    multiLiteralString (fuel + 1) done cs = some x := by
  rw [multiLiteralString.eq_def]
  simp only [h]

/-- A character that stands for itself is read as itself, where the string does not end. -/
theorem multiBasicString_plain {fuel : Nat} (hplain : isPlain c = true) (hc : c ≠ '\\')
    (hopen : closing? '"' done (c :: cs) = none) :
    multiBasicString (fuel + 1) done (c :: cs) = multiBasicString fuel (c :: done) cs := by
  rw [multiBasicString, hopen, newline?_of_isPlain hplain]
  · exact if_pos hplain
  · exact hc

/-- A character between three double quotes is read as itself, where the string does not end. -/
theorem multiBasicString_written {fuel : Nat} {w : List Char} (hw : Quotes.tripleDouble.Written c w) :
    multiBasicString (fuel + 1) done (w ++ cs) = multiBasicString fuel (c :: done) cs := by
  cases hw with
  | plain hplain hquote hbackslash =>
    refine multiBasicString_plain hplain hbackslash (closing?_eq_none _ fun hmarks => ?_)
    exact hquote (List.cons_prefix_cons.1 hmarks).1.symm
  | newline _ hc =>
    subst hc
    have hopen : closing? '"' done ('\n' :: cs) = none := closing?_eq_none _ fun hmarks =>
      absurd (List.cons_prefix_cons.1 hmarks).1 (by decide)
    rw [List.singleton_append, multiBasicString, hopen]
    · rfl
    · decide
  | escaped tail hescape =>
    have hopen : closing? '"' done ('\\' :: (tail ++ cs)) = none := closing?_eq_none _ fun hmarks =>
      absurd (List.cons_prefix_cons.1 hmarks).1 (by decide)
    rw [List.cons_append, multiBasicString, hopen, newline?_of_isPlain (by decide)]
    dsimp only
    rw [endsLine_of_escape? (hescape cs), if_neg (by decide), hescape]
    rfl

/-- The text between three double quotes begins with as many quotes as it takes to end it only if there is nothing
else in it. -/
theorem eq_replicate_of_prefix_escapeAll {row n : Nat} {marks : List Char} (hrow : row ≤ 2) (hn : 3 ≤ row + n)
    (h : List.replicate n '"' <+: Quotes.tripleDouble.escapeAll row cs ++ marks) :
    ∃ k, cs = List.replicate k '"' ∧ row + k ≤ 2 := by
  induction cs generalizing row n with
  | nil => exact ⟨0, rfl, hrow⟩
  | cons c cs ih =>
    obtain ⟨n, rfl⟩ : ∃ m, n = m + 1 := ⟨n - 1, by omega⟩
    rw [List.replicate_succ, Quotes.escapeAll] at h
    split at h
    · next hc =>
      rw [beq_iff_eq] at hc
      subst hc
      split at h
      · next hbare =>
        have hbare : row < 2 := hbare
        obtain ⟨k, rfl, hk⟩ := ih (by omega) (by omega) (List.cons_prefix_cons.1 h).2
        exact ⟨k + 1, rfl, by omega⟩
      · exact absurd (List.cons_prefix_cons.1 h).1 (by decide)
    · next hc =>
      rw [beq_iff_eq] at hc
      generalize hw : Quotes.tripleDouble.escape c = w at h
      cases hw ▸ Quotes.tripleDouble.written_escape hc with
      | plain => exact absurd (List.cons_prefix_cons.1 h).1.symm hc
      | newline => exact absurd (List.cons_prefix_cons.1 h).1 (by decide)
      | escaped => exact absurd (List.cons_prefix_cons.1 h).1 (by decide)

theorem escapeAll_replicate {row k : Nat} (h : row + k ≤ 2) :
    Quotes.tripleDouble.escapeAll row (List.replicate k '"') = List.replicate k '"' := by
  induction k generalizing row with
  | zero => rfl
  | succ k ih =>
    have hbare : row < Quotes.tripleDouble.bare := show row < 2 by omega
    rw [List.replicate_succ, Quotes.escapeAll, if_pos (beq_self_eq_true '"'), if_pos hbare, ih (by omega)]

/-- A text between three double quotes, after `row` quotes in a row. -/
theorem multiBasicString_escapeAll (cs done : List Char) {fuel row : Nat} (hfuel : cs.length < fuel) (hrow : row ≤ 2)
    (hrest : rest.head? ≠ some '"') :
    multiBasicString fuel done (Quotes.tripleDouble.escapeAll row cs ++ ['"', '"', '"'] ++ rest) =
      some (String.ofList (done.reverse ++ cs), rest) := by
  induction cs generalizing done fuel row with
  | nil =>
    obtain ⟨fuel, rfl⟩ := Nat.exists_eq_add_one.2 (Nat.zero_lt_of_lt hfuel)
    exact multiBasicString_end (closing?_marks done (Nat.zero_le 2) hrest)
  | cons c cs ih =>
    obtain ⟨fuel, rfl⟩ := Nat.exists_eq_add_one.2 (Nat.zero_lt_of_lt hfuel)
    by_cases hmarks : ['"', '"', '"'] <+: Quotes.tripleDouble.escapeAll row (c :: cs) ++ ['"', '"', '"'] ++ rest
    · -- only quotes are left, and those that are not the mark belong to the text
      rw [List.append_assoc] at hmarks
      obtain ⟨k, hk, hle⟩ := eq_replicate_of_prefix_escapeAll (n := 3) hrow (by omega) hmarks
      rw [hk, escapeAll_replicate hle]
      exact multiBasicString_end (closing?_marks done (by omega) hrest)
    · have hopen := closing?_eq_none done hmarks
      have hnext {row : Nat} (hrow : row ≤ 2) := ih (c :: done) (Nat.lt_of_succ_lt_succ hfuel) hrow
      rw [List.reverse_cons, List.append_assoc, List.singleton_append] at hnext
      rw [Quotes.escapeAll] at hopen ⊢
      split at hopen
      · next hc =>
        rw [if_pos hc]
        rw [beq_iff_eq] at hc
        subst hc
        split at hopen
        · next hbare =>
          rw [if_pos hbare]
          exact (multiBasicString_plain (by decide) (by decide) hopen).trans (hnext hbare)
        · next hbare =>
          have hw : Quotes.tripleDouble.Written '"' ['\\', '"'] := .escaped ['"'] fun _ => rfl
          rw [if_neg hbare]
          exact (multiBasicString_written hw).trans (hnext (Nat.zero_le 2))
      · next hc =>
        rw [if_neg hc, List.append_assoc, List.append_assoc]
        rw [beq_iff_eq] at hc
        rw [multiBasicString_written (Quotes.tripleDouble.written_escape hc), ← List.append_assoc]
        exact hnext (Nat.zero_le 2)

theorem le_longestRow (n : Nat) (cs : List Char) : n ≤ Quotes.longestRow quote n cs := by
  induction cs generalizing n with
  | nil => exact Nat.le_refl n
  | cons c cs ih =>
    rw [Quotes.longestRow]
    split
    · exact Nat.le_of_succ_le (ih (n + 1))
    · exact Nat.le_max_left ..

theorem longestRow_mono {m n : Nat} (h : m ≤ n) (cs : List Char) :
    Quotes.longestRow quote m cs ≤ Quotes.longestRow quote n cs := by
  induction cs generalizing m n with
  | nil => exact h
  | cons c cs ih =>
    rw [Quotes.longestRow, Quotes.longestRow]
    split
    · exact ih (Nat.succ_le_succ h)
    · omega

theorem longestRow_tail (c : Char) (cs : List Char) :
    Quotes.longestRow quote 0 cs ≤ Quotes.longestRow quote 0 (c :: cs) := by
  rw [Quotes.longestRow]
  split
  · exact longestRow_mono (Nat.zero_le _) cs
  · exact Nat.le_max_right ..

/-- A text without rows of three quotes begins with as many as it takes to end it only if there is nothing else in
it. -/
theorem eq_replicate_of_prefix {row n : Nat} {marks : List Char} (hrow : Quotes.longestRow quote row cs ≤ 2)
    (hn : 3 ≤ row + n) (h : List.replicate n quote <+: cs ++ marks) :
    ∃ k, cs = List.replicate k quote ∧ row + k ≤ 2 := by
  have hle := Nat.le_trans (le_longestRow row cs) hrow
  induction cs generalizing row n with
  | nil => exact ⟨0, rfl, hle⟩
  | cons c cs ih =>
    obtain ⟨n, rfl⟩ : ∃ m, n = m + 1 := ⟨n - 1, by omega⟩
    rw [List.replicate_succ] at h
    obtain ⟨rfl, hbegin⟩ := List.cons_prefix_cons.1 h
    rw [Quotes.longestRow, if_pos (beq_self_eq_true quote)] at hrow
    obtain ⟨k, rfl, hk⟩ := ih hrow (by omega) hbegin (Nat.le_trans (le_longestRow _ _) hrow)
    exact ⟨k + 1, rfl, by omega⟩

/-- A text between three single quotes. -/
theorem multiLiteralString_plain (cs done : List Char) {fuel : Nat} (hfuel : cs.length < fuel)
    (hplain : ∀ c ∈ cs, isPlain c = true ∨ c = '\n') (hrow : Quotes.longestRow '\'' 0 cs ≤ 2)
    (hrest : rest.head? ≠ some '\'') :
    multiLiteralString fuel done (cs ++ ['\'', '\'', '\''] ++ rest) =
      some (String.ofList (done.reverse ++ cs), rest) := by
  induction cs generalizing done fuel with
  | nil =>
    obtain ⟨fuel, rfl⟩ := Nat.exists_eq_add_one.2 (Nat.zero_lt_of_lt hfuel)
    exact multiLiteralString_end (closing?_marks done (Nat.zero_le 2) hrest)
  | cons c cs ih =>
    obtain ⟨fuel, rfl⟩ := Nat.exists_eq_add_one.2 (Nat.zero_lt_of_lt hfuel)
    by_cases hmarks : ['\'', '\'', '\''] <+: c :: cs ++ ['\'', '\'', '\''] ++ rest
    · rw [List.append_assoc] at hmarks
      obtain ⟨k, hk, hle⟩ := eq_replicate_of_prefix (n := 3) hrow (by omega) hmarks
      rw [hk]
      exact multiLiteralString_end (closing?_marks done (by omega) hrest)
    · have hopen := closing?_eq_none done hmarks
      rw [List.forall_mem_cons] at hplain
      have hnext := ih (c :: done) (Nat.lt_of_succ_lt_succ hfuel) hplain.2 (Nat.le_trans (longestRow_tail c cs) hrow)
      rw [List.reverse_cons, List.append_assoc done.reverse, List.singleton_append] at hnext
      refine Eq.trans ?_ hnext
      rw [List.cons_append, List.cons_append] at hopen ⊢
      rcases hplain.1 with hc | rfl
      · rw [multiLiteralString, hopen, newline?_of_isPlain hc]
        exact if_pos hc
      · rw [multiLiteralString, hopen]
        rfl

/-! ## Opening quotes -/

theorem string?_double (h : ¬ ['"', '"'] <+: cs) : string? ('"' :: cs) = basicString (cs.length + 2) [] cs := by
  unfold string?
  split
  · next heq =>
    cases heq
    exact absurd (List.prefix_append ['"', '"'] _) h
  · next heq => cases heq; rfl
  · next heq => cases heq
  · next heq => cases heq
  · next _ hne _ _ => exact absurd rfl (hne cs)

theorem string?_single (h : ¬ ['\'', '\''] <+: cs) : string? ('\'' :: cs) = literalString [] cs := by
  unfold string?
  split
  · next heq => cases heq
  · next heq => cases heq
  · next heq =>
    cases heq
    exact absurd (List.prefix_append ['\'', '\''] _) h
  · next heq => cases heq; rfl
  · next hne => exact absurd rfl (hne cs)

/-- A string of several lines begins after the line break at its front, which the printer puts there if there are
more. -/
theorem skipFirstLine_body {body : List Char} (h : '\n' ∉ cs → newline? body = none) :
    skipFirstLine ((if cs.contains '\n' then ['\n'] else []) ++ body) = body := by
  split
  · rfl
  · next hline =>
    rw [List.contains_iff_mem] at hline
    rw [List.nil_append, skipFirstLine, h hline, Option.getD_none]

/-- What is written for a character that is no line break begins with none. -/
theorem newline?_escapeAll (h : '\n' ∉ cs) (marks : List Char) :
    newline? (Quotes.tripleDouble.escapeAll 0 cs ++ '"' :: marks) = none := by
  cases cs with
  | nil => rfl
  | cons c cs =>
    rw [Quotes.escapeAll]
    split
    · rfl
    · next hc =>
      rw [beq_iff_eq] at hc
      generalize hw : Quotes.tripleDouble.escape c = w
      cases hw ▸ Quotes.tripleDouble.written_escape hc with
      | plain hplain => exact newline?_of_isPlain hplain
      | newline _ hn => exact absurd (hn ▸ List.mem_cons_self) h
      | escaped => rfl

theorem not_prefix_escapeAll (hrest : rest.head? ≠ some '"') :
    ¬ ['"', '"'] <+: Quotes.double.escapeAll 0 cs ++ '"' :: rest := by
  intro h
  cases cs with
  | nil =>
    obtain ⟨more, hmore⟩ := (List.cons_prefix_cons.1 h).2
    rw [← hmore] at hrest
    exact hrest rfl
  | cons c cs =>
    rw [Quotes.escapeAll] at h
    split at h
    · exact absurd (List.cons_prefix_cons.1 h).1 (by decide)
    · next hc =>
      rw [beq_iff_eq] at hc
      generalize hw : Quotes.double.escape c = w at h
      cases hw ▸ Quotes.double.written_escape hc with
      | plain => exact absurd (List.cons_prefix_cons.1 h).1.symm hc
      | newline htriple => cases htriple
      | escaped => exact absurd (List.cons_prefix_cons.1 h).1 (by decide)

theorem string?_enclose_double (cs : List Char) (hrest : rest.head? ≠ some '"') :
    string? (Quotes.double.enclose cs ++ rest) = some (String.ofList cs, rest) := by
  have hbody : Quotes.double.enclose cs ++ rest = '"' :: (Quotes.double.escapeAll 0 cs ++ '"' :: rest) := by
    simp [Quotes.enclose, Quotes.mark, Quotes.isTriple, Quotes.isLiteral]
  have hlength := Quotes.double.length_le_escapeAll 0 cs
  rw [hbody, string?_double (not_prefix_escapeAll hrest)]
  exact basicString_escapeAll cs [] (by rw [List.length_append]; omega)

theorem string?_enclose_tripleDouble (cs : List Char) (hrest : rest.head? ≠ some '"') :
    string? (Quotes.tripleDouble.enclose cs ++ rest) = some (String.ofList cs, rest) := by
  have hbody : Quotes.tripleDouble.enclose cs ++ rest = '"' :: '"' :: '"' ::
      ((if cs.contains '\n' then ['\n'] else []) ++
        (Quotes.tripleDouble.escapeAll 0 cs ++ ['"', '"', '"'] ++ rest)) := by
    simp [Quotes.enclose, Quotes.mark, Quotes.isTriple, Quotes.isLiteral]
  have hfirst : skipFirstLine ((if cs.contains '\n' then ['\n'] else []) ++
      (Quotes.tripleDouble.escapeAll 0 cs ++ ['"', '"', '"'] ++ rest)) =
        Quotes.tripleDouble.escapeAll 0 cs ++ ['"', '"', '"'] ++ rest := by
    refine skipFirstLine_body fun hline => ?_
    rw [List.append_assoc]
    exact newline?_escapeAll hline _
  have hlength := Quotes.tripleDouble.length_le_escapeAll 0 cs
  rw [hbody, string?, hfirst]
  refine multiBasicString_escapeAll cs [] ?_ (Nat.zero_le 2) hrest
  simp only [List.length_cons, List.length_append]
  omega

theorem string?_enclose_single (hsuits : Quotes.single.suits cs = true) (hrest : rest.head? ≠ some '\'') :
    string? (Quotes.single.enclose cs ++ rest) = some (String.ofList cs, rest) := by
  have hplain : ∀ c ∈ cs, isPlain c = true ∧ c ≠ '\'' := by
    simp only [Quotes.suits, Bool.and_eq_true, Bool.not_eq_true', List.any_eq_false, List.contains_eq_mem,
      decide_eq_false_iff_not] at hsuits
    intro c hc
    refine ⟨Quotes.isPlain_of_not_isControl (by simpa using hsuits.1 c hc) ?_, ?_⟩
    · rintro rfl; exact hsuits.2.2 hc
    · rintro rfl; exact hsuits.2.1 hc
  have hbody : Quotes.single.enclose cs ++ rest = '\'' :: (cs ++ '\'' :: rest) := by
    simp [Quotes.enclose, Quotes.mark, Quotes.isTriple, Quotes.isLiteral]
  have hopen : ¬ ['\'', '\''] <+: cs ++ '\'' :: rest := by
    intro h
    cases cs with
    | nil =>
      obtain ⟨more, hmore⟩ := (List.cons_prefix_cons.1 h).2
      rw [← hmore] at hrest
      exact hrest rfl
    | cons c cs => exact (hplain c List.mem_cons_self).2 (List.cons_prefix_cons.1 h).1.symm
  rw [hbody, string?_single hopen]
  exact literalString_plain cs [] hplain

theorem string?_enclose_tripleSingle (hsuits : Quotes.tripleSingle.suits cs = true) (hrest : rest.head? ≠ some '\'') :
    string? (Quotes.tripleSingle.enclose cs ++ rest) = some (String.ofList cs, rest) := by
  simp only [Quotes.suits, Bool.and_eq_true, Bool.not_eq_true', List.any_eq_false, decide_eq_true_eq] at hsuits
  have hplain : ∀ c ∈ cs, isPlain c = true ∨ c = '\n' := fun c hc =>
    (Decidable.em (c = '\n')).symm.imp_left fun hn =>
      Quotes.isPlain_of_not_isControl (by simpa using hsuits.1 c hc) hn
  have hbody : Quotes.tripleSingle.enclose cs ++ rest = '\'' :: '\'' :: '\'' ::
      ((if cs.contains '\n' then ['\n'] else []) ++ (cs ++ ['\'', '\'', '\''] ++ rest)) := by
    simp [Quotes.enclose, Quotes.mark, Quotes.isTriple, Quotes.isLiteral]
  have hfirst : skipFirstLine ((if cs.contains '\n' then ['\n'] else []) ++ (cs ++ ['\'', '\'', '\''] ++ rest)) =
      cs ++ ['\'', '\'', '\''] ++ rest := by
    refine skipFirstLine_body fun hline => ?_
    cases cs with
    | nil => rfl
    | cons c cs =>
      refine newline?_of_isPlain ((hplain c List.mem_cons_self).resolve_right ?_)
      rintro rfl
      exact hline List.mem_cons_self
  rw [hbody, string?, hfirst]
  refine multiLiteralString_plain cs [] ?_ hplain hsuits.2 hrest
  simp only [List.length_cons, List.length_append]
  omega

/-- A string in the quotes that the printer has chosen for it is read as the string. -/
theorem string?_string (s : String) (hdouble : rest.head? ≠ some '"') (hsingle : rest.head? ≠ some '\'') :
    string? ((Printer.string s).toList ++ rest) = some (s, rest) := by
  rw [Printer.string, String.toList_ofList]
  conv => rhs; rw [← String.ofList_toList (s := s)]
  generalize s.toList = cs
  unfold Quotes.ofText
  split
  · next q hq =>
    have hsuits := List.find?_some hq
    cases q with
    | double => exact string?_enclose_double cs hdouble
    | single => exact string?_enclose_single hsuits hsingle
    | tripleDouble => exact string?_enclose_tripleDouble cs hdouble
    | tripleSingle => exact string?_enclose_tripleSingle hsuits hsingle
  · split
    · exact string?_enclose_tripleDouble cs hdouble
    · exact string?_enclose_double cs hdouble

end Lexer

end RemoteFacts.Toml
