import RemoteFacts.Invocation
import RemoteFacts.Path.Lemmas

/-!
# Which invocations are understood

* `Invocation.Leading` : the options that may stand before a query, with the operands of `-C` among them;
* `takeOptions_eq_some_iff` : these are what the leading options are taken from;
* `key_injective` : no two lists of tokens have one key;
* `IsQuery`, `Reads` : what a list of arguments has to look like to be understood (`normalizeArgs_iff`);
* `isGit_iff`, `normalize_eq_some_iff` : the invocations that are understood, with the key and the directory of each;
* `effectiveDirectory_foldl` : the directory is the caller's, joined with the operands in turn;
* `normalizeArgs_accepts_grammar` : which lists of arguments are understood, and what is read from them.
-/

namespace RemoteFacts

/-! ## Joins in turn -/

namespace Path

variable {p q r : Path}

/-- What is written between a path and a relative one below it. -/
def slash (p : Path) : List Char :=
  match p.text.toList.getLast? with
  | none => []
  | some c => if c = '/' then [] else ['/']

theorem toList_join (hq : q.isAbsolute = false) :
    (p.join q).text.toList = p.text.toList ++ p.slash ++ q.text.toList := by
  rw [join, if_neg (by rw [hq]; exact Bool.false_ne_true), slash]
  split
  · next hlast => simp [List.getLast?_eq_none_iff.1 hlast]
  · next hlast => simp [hlast]
  · next c hne hlast =>
    have hc : c ≠ '/' := hne
    simp [hlast, hc]

/-- What is written after a join is what would be written after its second path. -/
theorem slash_join (hq : q.isAbsolute = false) : (p.join q).slash = q.slash := by
  rw [slash, toList_join hq]
  rcases List.eq_nil_or_concat q.text.toList with hempty | ⟨cs, c, hsnoc⟩
  · have hnone : q.slash = [] := by rw [slash, hempty]; rfl
    rw [hempty, List.append_nil, hnone, slash]
    cases hlast : p.text.toList.getLast? with
    | none => simp [List.getLast?_eq_none_iff.1 hlast]
    | some c =>
      by_cases hc : c = '/'
      · simp [hlast, hc]
      · simp [hc]
  · simp [slash, hsnoc]

/-- Joining in turn is joining once, down to the spelling. -/
theorem join_join (p q r : Path) : (p.join q).join r = p.join (q.join r) := by
  cases hr : r.isAbsolute with
  | true => rw [join_of_isAbsolute hr, join_of_isAbsolute hr, join_of_isAbsolute hr]
  | false =>
    cases hq : q.isAbsolute with
    | true =>
      have hjoined : (q.join r).isAbsolute = true := by
        obtain ⟨cs, hcs⟩ := List.head?_eq_some_iff.1 (beq_iff_eq.1 hq)
        rw [isAbsolute, toList_join hr, hcs]
        rfl
      rw [join_of_isAbsolute hq, join_of_isAbsolute hjoined]
    | false =>
      have hjoined : (q.join r).isAbsolute = false := by
        rw [isAbsolute, toList_join hr]
        rw [isAbsolute] at hq hr
        cases hqs : q.text.toList with
        | nil => simpa [slash, hqs] using hr
        | cons c cs => simpa [hqs] using hq
      have hsame : ((p.join q).join r).text.toList = (p.join (q.join r)).text.toList := by
        rw [toList_join hr, toList_join hq, toList_join hjoined, toList_join hr, slash_join hq]
        simp only [List.append_assoc]
      exact congrArg Path.mk (String.toList_inj.1 hsame)

end Path

namespace Invocation

variable {program arg operand s : String} {args rest leading operands tail : List String} {dir dir' : Option Path}
  {cwd : Path} {n : Normalized}

/-! ## Options -/

theorem isSetting_iff : isSetting s = true ↔
    ∃ name value : String, name ≠ "" ∧ '=' ∉ name.toList ∧ s = name ++ "=" ++ value := by
  rw [isSetting, Bool.and_eq_true, List.contains_iff_mem, bne_iff_ne]
  constructor
  · rintro ⟨hmem, hhead⟩
    obtain ⟨name, value, hs, hfree⟩ := List.eq_append_cons_of_mem hmem
    refine ⟨String.ofList name, String.ofList value, fun hempty => hhead ?_, ?_, String.toList_inj.1 ?_⟩
    · rw [hs, String.ofList_eq_empty_iff.1 hempty]
      rfl
    · rwa [String.toList_ofList]
    · simp [hs]
  · rintro ⟨name, value, hname, hfree, rfl⟩
    obtain ⟨c, cs, hcs⟩ := List.exists_cons_of_ne_nil (mt String.toList_eq_nil_iff.1 hname)
    rw [hcs] at hfree
    refine ⟨by simp, fun hhead => hfree ?_⟩
    simp only [String.toList_append, hcs, List.cons_append, List.head?_cons, Option.some.injEq] at hhead
    rw [hhead]
    exact List.mem_cons_self

/-- Options that leave the output of a query as it is: flags, directories and settings. The second list holds the
operands of `-C` among them. -/
inductive Leading : List String → List String → Prop where
  | nil : Leading [] []
  | flag {arg : String} {rest operands : List String} (harg : arg ∈ neutralFlags) (hrest : Leading rest operands) :
      Leading (arg :: rest) operands
  | directory (operand : String) {rest operands : List String} (hrest : Leading rest operands) :
      Leading ("-C" :: operand :: rest) (operand :: operands)
  | setting {name : String} (value : String) {rest operands : List String} (hname : name ≠ "")
      (hfree : '=' ∉ name.toList) (hrest : Leading rest operands) :
      Leading ("-c" :: (name ++ "=" ++ value) :: rest) operands

/-- What begins a query is no option. -/
def Begins (tail : List String) : Prop := ∀ arg ∈ tail.head?, isOption arg = false

theorem isOption_of_neutral (harg : arg ∈ neutralFlags) : isOption arg = true := by
  have hall : ∀ arg ∈ neutralFlags, isOption arg = true := by decide +kernel
  exact hall arg harg

theorem takeOptions_of_begins (htail : Begins tail) : takeOptions dir tail = some (dir, tail) := by
  match tail, htail with
  | [], _ => rfl
  | [arg], htail => rw [takeOptions, htail arg rfl, Bool.not_false, if_pos rfl]
  | arg :: operand :: rest, htail => rw [takeOptions, htail arg rfl, Bool.not_false, if_pos rfl]

theorem takeOptions_flag (harg : arg ∈ neutralFlags) : takeOptions dir (arg :: args) = takeOptions dir args := by
  have hoption := isOption_of_neutral harg
  have hflag : neutralFlags.contains arg = true := List.contains_iff_mem.2 harg
  cases args with
  | nil => simp only [takeOptions, hoption, hflag, Bool.not_true, Bool.false_eq_true, if_false, if_true]
  | cons operand rest => simp only [takeOptions, hoption, hflag, Bool.not_true, Bool.false_eq_true, if_false, if_true]

theorem takeOptions_directory : takeOptions dir ("-C" :: operand :: rest) = takeOptions (descend dir operand) rest :=
  rfl

theorem takeOptions_setting (hs : isSetting s = true) : takeOptions dir ("-c" :: s :: rest) = takeOptions dir rest := by
  have hoption : isOption "-c" = true := by decide +kernel
  have hflag : neutralFlags.contains "-c" = false := by decide +kernel
  rw [takeOptions, hoption, hflag, hs]
  rfl

/-- Options that may stand before a query are taken, and their operands with them. -/
theorem takeOptions_of_leading (hleading : Leading leading operands) (htail : Begins tail) :
    takeOptions dir (leading ++ tail) = some (operands.foldl descend dir, tail) := by
  induction hleading generalizing dir with
  | nil => exact takeOptions_of_begins htail
  | flag harg _ ih =>
    rw [List.cons_append, takeOptions_flag harg]
    exact ih
  | directory operand _ ih => exact takeOptions_directory.trans ih
  | setting value hname hfree _ ih =>
    exact (takeOptions_setting (isSetting_iff.2 ⟨_, value, hname, hfree, rfl⟩)).trans ih

/-- What is taken from the front are such options, and what is left does not begin with one. -/
theorem leading_of_takeOptions (h : takeOptions dir args = some (dir', tail)) : ∃ leading operands,
    args = leading ++ tail ∧ Leading leading operands ∧ Begins tail ∧ dir' = operands.foldl descend dir := by
  fun_induction takeOptions dir args with
  | case1 dir =>
    obtain ⟨rfl, rfl⟩ := Prod.mk.inj (Option.some.inj h)
    exact ⟨[], [], rfl, Leading.nil, nofun, rfl⟩
  | case2 dir arg hoption =>
    obtain ⟨rfl, rfl⟩ := Prod.mk.inj (Option.some.inj h)
    exact ⟨[], [], rfl, Leading.nil, by simpa [Begins] using hoption, rfl⟩
  | case3 dir arg hoption hflag =>
    obtain ⟨rfl, rfl⟩ := Prod.mk.inj (Option.some.inj h)
    exact ⟨[arg], [], rfl, Leading.flag (List.contains_iff_mem.1 hflag) Leading.nil, nofun, rfl⟩
  | case4 => contradiction
  | case5 dir arg operand rest hoption =>
    obtain ⟨rfl, rfl⟩ := Prod.mk.inj (Option.some.inj h)
    exact ⟨[], [], rfl, Leading.nil, by simpa [Begins] using hoption, rfl⟩
  | case6 dir arg operand rest hoption hflag ih =>
    obtain ⟨leading, operands, hsplit, hleading, hdir⟩ := ih h
    exact ⟨arg :: leading, operands, by rw [hsplit]; rfl, Leading.flag (List.contains_iff_mem.1 hflag) hleading, hdir⟩
  | case7 dir arg operand rest hoption hflag harg ih =>
    obtain ⟨leading, operands, rfl, hleading, htail, hdir⟩ := ih h
    obtain rfl := beq_iff_eq.1 harg
    exact ⟨"-C" :: operand :: leading, operand :: operands, rfl, Leading.directory operand hleading, htail, hdir⟩
  | case8 dir arg operand rest hoption hflag hdirectory harg ih =>
    obtain ⟨leading, operands, rfl, hleading, htail, hdir⟩ := ih h
    obtain ⟨harg, hsetting⟩ := Bool.and_eq_true_iff.1 harg
    obtain rfl := beq_iff_eq.1 harg
    obtain ⟨name, value, hname, hfree, rfl⟩ := isSetting_iff.1 hsetting
    exact ⟨"-c" :: (name ++ "=" ++ value) :: leading, operands, rfl, Leading.setting value hname hfree hleading, htail,
      hdir⟩
  | case9 => contradiction

theorem takeOptions_eq_some_iff : takeOptions dir args = some (dir', tail) ↔ ∃ leading operands,
    args = leading ++ tail ∧ Leading leading operands ∧ Begins tail ∧ dir' = operands.foldl descend dir := by
  constructor
  · exact leading_of_takeOptions
  · rintro ⟨leading, operands, rfl, hleading, htail, rfl⟩
    exact takeOptions_of_leading hleading htail

/-! ## Keys -/

theorem not_mem_of_isToken (harg : isToken arg = true) : ' ' ∉ arg.toList := by
  intro hmem
  have hblank : arg.toList.any Text.isBlank = true := List.any_eq_true.2 ⟨' ', hmem, by decide⟩
  rw [isToken, hblank, Bool.not_true, Bool.and_false] at harg
  contradiction

theorem ne_empty_of_isToken (harg : isToken arg = true) : arg.toList ≠ [] := by
  rintro hnil
  rw [String.toList_eq_nil_iff.1 hnil] at harg
  contradiction

/-- A key is cut into its tokens at the spaces; the empty one into an empty piece. -/
theorem pieces_key (hargs : ∀ arg ∈ args, isToken arg = true) :
    Text.pieces ' ' (key args).toList = if args = [] then [[]] else args.map String.toList := by
  rw [key, String.toList_intercalate]
  split
  · next hnil => rw [hnil]; rfl
  · next hne =>
    refine Text.pieces_intercalate (mt List.map_eq_nil_iff.1 hne) fun piece hpiece => ?_
    obtain ⟨arg, harg, rfl⟩ := List.mem_map.1 hpiece
    exact not_mem_of_isToken (hargs arg harg)

/-- No two lists of tokens have one key. -/
theorem key_injective {others : List String} (hargs : ∀ arg ∈ args, isToken arg = true)
    (hothers : ∀ arg ∈ others, isToken arg = true) (hkey : key args = key others) : args = others := by
  have hlone : ∀ l : List String, (∀ arg ∈ l, isToken arg = true) → [[]] ≠ l.map String.toList := by
    intro l hl hsame
    obtain ⟨arg, harg, hempty⟩ := List.mem_map.1 (hsame ▸ List.mem_singleton_self [])
    exact ne_empty_of_isToken (hl arg harg) hempty
  have hpieces := pieces_key hargs
  rw [hkey, pieces_key hothers] at hpieces
  split at hpieces
  · next hnil =>
    split at hpieces
    · next hnil' => rw [hnil, hnil']
    · exact absurd hpieces (hlone args hargs)
  · split at hpieces
    · exact absurd hpieces.symm (hlone others hothers)
    · exact (List.map_inj_right (fun _ _ => String.toList_inj.1)).1 hpieces.symm

/-! ## Queries -/

/-- Arguments that say what is asked: there are some, the first is no option, and none is empty or has a blank in it. -/
structure IsQuery (tail : List String) : Prop where
  nonempty : tail ≠ []
  begins : Begins tail
  full : ∀ arg ∈ tail, arg ≠ ""
  unbroken : ∀ arg ∈ tail, ∀ c ∈ arg.toList, Text.isBlank c = false

theorem isToken_iff : isToken arg = true ↔ arg ≠ "" ∧ ∀ c ∈ arg.toList, Text.isBlank c = false := by
  simp [isToken]

theorem isQuery_iff : IsQuery tail ↔ Begins tail ∧ tail ≠ [] ∧ ∀ arg ∈ tail, isToken arg = true := by
  simp only [isToken_iff]
  constructor
  · intro h
    exact ⟨h.begins, h.nonempty, fun arg harg => ⟨h.full arg harg, h.unbroken arg harg⟩⟩
  · rintro ⟨hbegins, hne, htokens⟩
    exact ⟨hne, hbegins, fun arg harg => (htokens arg harg).1, fun arg harg => (htokens arg harg).2⟩

/-- The arguments are the query `tail` after options that leave its output as it is, with these operands of `-C` among
them. -/
def Reads (args operands tail : List String) : Prop :=
  ∃ leading, args = leading ++ tail ∧ Leading leading operands ∧ IsQuery tail

theorem normalizeArgs_eq_some_iff : normalizeArgs args = some n ↔ ∃ dir tail, takeOptions none args = some (dir, tail) ∧
    tail ≠ [] ∧ (∀ arg ∈ tail, isToken arg = true) ∧ n = ⟨key tail, dir⟩ := by
  have hread : normalizeArgs args = (takeOptions none args).bind fun taken =>
      if !taken.2.isEmpty && taken.2.all isToken then some ⟨key taken.2, taken.1⟩ else none := by
    unfold normalizeArgs guard
    refine Option.bind_congr fun taken _ => ?_
    obtain ⟨dir, tail⟩ := taken
    dsimp only
    split <;> rfl
  rw [hread]
  simp only [Option.bind_eq_some_iff, Prod.exists, Option.ite_none_right_eq_some, Option.some.injEq, Bool.and_eq_true,
    Bool.not_eq_true', List.isEmpty_eq_false_iff, List.all_eq_true, and_assoc, eq_comm (a := n)]

theorem normalizeArgs_iff : normalizeArgs args = some n ↔
    ∃ operands tail, Reads args operands tail ∧ n = ⟨key tail, operands.foldl descend none⟩ := by
  rw [normalizeArgs_eq_some_iff]
  constructor
  · rintro ⟨dir, tail, htaken, hne, htokens, rfl⟩
    obtain ⟨leading, operands, hsplit, hleading, hbegins, rfl⟩ := takeOptions_eq_some_iff.1 htaken
    exact ⟨operands, tail, ⟨leading, hsplit, hleading, isQuery_iff.2 ⟨hbegins, hne, htokens⟩⟩, rfl⟩
  · rintro ⟨operands, tail, ⟨leading, hsplit, hleading, hquery⟩, rfl⟩
    obtain ⟨hbegins, hne, htokens⟩ := isQuery_iff.1 hquery
    exact ⟨_, tail, takeOptions_eq_some_iff.2 ⟨leading, operands, hsplit, hleading, hbegins, rfl⟩, hne, htokens, rfl⟩

/-! ## Invocations -/

/-- A program is git if its path ends in one of the names of git. -/
theorem isGit_iff : isGit program = true ↔ (Path.mk program).parts.getLast? = some (.name "git") ∨
    (Path.mk program).parts.getLast? = some (.name "git.exe") := by
  have hbare : (Path.mk "git").fileName? = some "git" := by decide +kernel
  rw [← Path.fileName?_eq_some_iff, ← Path.fileName?_eq_some_iff, isGit, Bool.or_eq_true, beq_iff_eq]
  constructor
  · rintro (rfl | hname)
    · exact Or.inl hbare
    · cases hfile : (Path.mk program).fileName? with
      | none =>
        rw [hfile] at hname
        contradiction
      | some name =>
        rw [hfile] at hname
        simpa [git] using hname
  · rintro (hname | hname)
    · rw [hname]
      exact Or.inr rfl
    · rw [hname]
      exact Or.inr rfl

/-- Understood are the invocations of git that end in tokens, after options that change nothing. -/
theorem normalize_eq_some_iff : normalize program args = some n ↔ isGit program = true ∧ ∃ leading operands tail,
    args = leading ++ tail ∧ Leading leading operands ∧ Begins tail ∧ tail ≠ [] ∧ (∀ arg ∈ tail, isToken arg = true) ∧
      n = ⟨key tail, operands.foldl descend none⟩ := by
  have hgit : normalize program args = some n ↔ isGit program = true ∧ normalizeArgs args = some n := by
    unfold normalize
    split
    · next hgit => simp [hgit]
    · next hgit => simp [hgit]
  rw [hgit, normalizeArgs_iff]
  refine and_congr_right fun _ => ?_
  constructor
  · rintro ⟨operands, tail, ⟨leading, hsplit, hleading, hquery⟩, rfl⟩
    obtain ⟨hbegins, hne, htokens⟩ := isQuery_iff.1 hquery
    exact ⟨leading, operands, tail, hsplit, hleading, hbegins, hne, htokens, rfl⟩
  · rintro ⟨leading, operands, tail, hsplit, hleading, hbegins, hne, htokens, rfl⟩
    exact ⟨operands, tail, ⟨leading, hsplit, hleading, isQuery_iff.2 ⟨hbegins, hne, htokens⟩⟩, rfl⟩

/-- A query runs in the caller's directory, joined with the operands of `-C` in turn. -/
theorem effectiveDirectory_foldl {k : String} : (Normalized.mk k (operands.foldl descend dir)).effectiveDirectory cwd =
    operands.foldl (fun place operand => place.join ⟨operand⟩) ((Normalized.mk k dir).effectiveDirectory cwd) := by
  induction operands generalizing dir with
  | nil => rfl
  | cons operand operands ih =>
    have hstep : (Normalized.mk k (descend dir operand)).effectiveDirectory cwd =
        ((Normalized.mk k dir).effectiveDirectory cwd).join ⟨operand⟩ := by
      cases dir with
      | none => rfl
      | some dir => exact (Path.join_join cwd dir ⟨operand⟩).symm
    rw [List.foldl_cons, List.foldl_cons, ih, hstep]

/-- Understood are the lists of arguments that are a query after options that change nothing. The key is that of the
query, whatever stands before it, and no other query has it; the directory is the caller's, joined with the operands of
`-C` in turn, so that an absolute one stands for the caller's and all before it. -/
theorem normalizeArgs_accepts_grammar :
    (∀ args, (normalizeArgs args).isSome = true ↔ ∃ operands tail, Reads args operands tail) ∧
    (∀ args operands tail, Reads args operands tail → ∃ n, normalizeArgs args = some n ∧ n.key = key tail ∧
      ∀ cwd, n.effectiveDirectory cwd = operands.foldl (fun place operand => place.join ⟨operand⟩) cwd) ∧
    (∀ args args' operands operands' tail tail' n n', Reads args operands tail → Reads args' operands' tail' →
      normalizeArgs args = some n → normalizeArgs args' = some n' → (n.key = n'.key ↔ tail = tail')) ∧
    ∀ before operand after cwd, (Path.mk operand).isAbsolute = true →
      (before ++ operand :: after).foldl (fun place operand => Path.join place ⟨operand⟩) cwd =
        after.foldl (fun place operand => Path.join place ⟨operand⟩) ⟨operand⟩ := by
  have hread : ∀ args operands tail, Reads args operands tail →
      normalizeArgs args = some ⟨key tail, operands.foldl descend none⟩ :=
    fun args operands tail hreads => normalizeArgs_iff.2 ⟨operands, tail, hreads, rfl⟩
  refine ⟨fun args => ?_, fun args operands tail hreads => ?_, ?_, fun before operand after cwd habs => ?_⟩
  · rw [Option.isSome_iff_exists]
    constructor
    · rintro ⟨n, hn⟩
      obtain ⟨operands, tail, hreads, -⟩ := normalizeArgs_iff.1 hn
      exact ⟨operands, tail, hreads⟩
    · rintro ⟨operands, tail, hreads⟩
      exact ⟨_, hread _ _ _ hreads⟩
  · exact ⟨_, hread _ _ _ hreads, rfl, fun cwd => effectiveDirectory_foldl⟩
  · intro args args' operands operands' tail tail' n n' hreads hreads' hn hn'
    obtain rfl := Option.some.inj (hn.symm.trans (hread _ _ _ hreads))
    obtain rfl := Option.some.inj (hn'.symm.trans (hread _ _ _ hreads'))
    obtain ⟨-, -, -, hquery⟩ := hreads
    obtain ⟨-, -, -, hquery'⟩ := hreads'
    exact ⟨key_injective (isQuery_iff.1 hquery).2.2 (isQuery_iff.1 hquery').2.2, congrArg key⟩
  · rw [List.foldl_append, List.foldl_cons, Path.join_of_isAbsolute habs]

/-- A directory that is named like a flag, a setting with two signs of equality, an absolute directory and one below it;
the `-C` after the query has begun is one of its arguments. -/
theorem normalizeArgs_accepts_grammar_of_status : ∃ n,
    normalizeArgs ["-C", "-P", "--no-pager", "-c", "a==b", "-C", "/srv/x", "-C", "lib", "status", "-C", "-z"] = some n ∧
      n.key = "status -C -z" ∧ n.effectiveDirectory ⟨"/home"⟩ = ⟨"/srv/x/lib"⟩ := by
  have hleading : Leading ["-C", "-P", "--no-pager", "-c", "a" ++ "=" ++ "=b", "-C", "/srv/x", "-C", "lib"]
      ["-P", "/srv/x", "lib"] :=
    .directory "-P" (.flag (by decide) (.setting "=b" (by decide) (by decide)
      (.directory "/srv/x" (.directory "lib" .nil))))
  have hbegins : Begins ["status", "-C", "-z"] := fun arg harg => by
    obtain rfl := Option.some.inj harg
    decide
  have hquery : IsQuery ["status", "-C", "-z"] := isQuery_iff.2 ⟨hbegins, by decide, by decide +kernel⟩
  obtain ⟨-, haccepts, -, habsolute⟩ := normalizeArgs_accepts_grammar
  obtain ⟨n, hn, hkey, hdirectory⟩ := haccepts _ _ _ ⟨_, rfl, hleading, hquery⟩
  refine ⟨n, hn, hkey, (hdirectory ⟨"/home"⟩).trans ?_⟩
  exact (habsolute ["-P"] "/srv/x" ["lib"] _ (by decide +kernel)).trans rfl

end Invocation

end RemoteFacts
