import Mathlib.Data.List.Infix
import RemoteFacts.AncestorScan
import RemoteFacts.Path.Lemmas

/-!
# Scans and the tree that they have seen

A scan is told where the markers are; here this is compared with the tree of directories that hold them.

* `Path.place` : the directory that a path leads to, by its names from the root (`Path.Plain.parts_eq` : a path without
  `..` is spelled by them);
* `MarkerTree`, `MarkerTree.Nearest`, `MarkerTree.Nowhere` : which directories hold which markers, and what holds at or
  above a place;
* `AncestorScan.Truthful` : a scan that says of each of its markers what holds at or above the scanned directory;
* `AncestorScan.resolve_eq_present_iff`, `AncestorScan.resolve_eq_absent_iff` : when a scan answers;
* `truthful_scan_never_misleads` : what it answers then holds in the tree.
-/

namespace RemoteFacts

/-! ## Places -/

/-- Where a part leads to from a directory, both by their names from the root. -/
def Part.walk (place : List String) : Part → List String
  | .root => []
  | .here => place
  | .up => place.dropLast
  | .name s => place ++ [s]

namespace Path

/-- The directory that a path leads to from the root, by its names. -/
def place (p : Path) : List String := p.parts.foldl Part.walk []

/-- A path that begins at the root and never leads up. -/
structure Plain (p : Path) : Prop where
  isAbsolute : p.isAbsolute = true
  down : .up ∉ p.parts

variable {p q r : Path}

theorem startsWith_iff : p.startsWith q = true ↔ q.parts <+: p.parts := List.isPrefixOf_iff_prefix

theorem startsWith_trans (h : p.startsWith q = true) (k : q.startsWith r = true) : p.startsWith r = true :=
  startsWith_iff.2 ((startsWith_iff.1 k).trans (startsWith_iff.1 h))

/-- Below the parent is below the path itself. -/
theorem startsWith_of_parent? (h : p.parent? = some q) (k : q.startsWith r = true) : p.startsWith r = true := by
  rw [startsWith_iff] at k ⊢
  rw [parts_of_parent? h] at k
  exact k.trans (List.dropLast_prefix _)

/-- The path of a directory below which a path lies begins its parent, too, unless it is the path itself. -/
theorem parent?_startsWith (hq : q.isAbsolute = true) (h : p.startsWith q = true) (hne : (p == q) = false) :
    ∃ r, p.parent? = some r ∧ r.startsWith q = true := by
  obtain ⟨below, hbelow⟩ := startsWith_iff.1 h
  have hroot : q.parts ≠ [] := by
    intro hnil
    rw [isAbsolute_iff, hnil] at hq
    contradiction
  have hsome : below ≠ [] := by
    rintro rfl
    rw [List.append_nil] at hbelow
    rw [beq_iff.2 hbelow.symm] at hne
    contradiction
  cases hr : p.parent? with
  | none =>
    have hlength := congrArg List.length hbelow
    have hq := List.length_pos_iff.2 hroot
    have hlow := List.length_pos_iff.2 hsome
    rw [List.length_append] at hlength
    rcases parent?_eq_none_iff.1 hr with hnil | honly
    · rw [hnil, List.length_nil] at hlength
      omega
    · rw [honly, List.length_singleton] at hlength
      omega
  | some r =>
    refine ⟨r, rfl, startsWith_iff.2 ?_⟩
    rw [parts_of_parent? hr, ← hbelow, List.dropLast_append_of_ne_nil hsome]
    exact List.prefix_append _ _

/-! ## Plain paths -/

theorem exists_parts_of_isAbsolute (h : p.isAbsolute = true) : ∃ ps, p.parts = .root :: Part.ofPieces ps := by
  obtain ⟨first, rest, hp⟩ := List.exists_cons_of_ne_nil (Text.pieces_ne_nil '/' p.text.toList)
  rw [isAbsolute_iff, parts_eq p hp] at h
  rw [parts_eq p hp]
  cases first with
  | nil =>
    cases rest with
    | nil => contradiction
    | cons piece rest => exact ⟨piece :: rest, rfl⟩
  | cons c cs =>
    obtain ⟨part, hroot, hpart⟩ := Part.exists_ofFirst (List.cons_ne_nil c cs)
    rw [hpart, List.singleton_append, List.head?_cons] at h
    exact absurd (Option.some.inj h) hroot

theorem here_notMem_of_isAbsolute (h : p.isAbsolute = true) : Part.here ∉ p.parts := by
  obtain ⟨ps, hps⟩ := exists_parts_of_isAbsolute h
  rw [hps, List.mem_cons]
  rintro (hroot | hlater)
  · contradiction
  · rcases Part.up_or_name_of_mem_ofPieces hlater with hup | ⟨s, hname⟩
    · contradiction
    · contradiction

/-- What only goes down ends below where it began. -/
theorem foldl_walk_names (names place : List String) :
    (names.map Part.name).foldl Part.walk place = place ++ names := by
  induction names generalizing place with
  | nil => simp
  | cons name names ih => simp [Part.walk, ih]

theorem exists_names (ps : List (List Char)) (hdown : Part.up ∉ Part.ofPieces ps) :
    ∃ names : List String, Part.ofPieces ps = names.map Part.name := by
  induction ps with
  | nil => exact ⟨[], rfl⟩
  | cons piece ps ih =>
    rw [Part.ofPieces_cons, List.mem_append, not_or] at hdown
    obtain ⟨names, hnames⟩ := ih hdown.2
    rw [Part.ofPieces_cons, hnames]
    have hpiece := hdown.1
    unfold Part.ofPiece? at hpiece ⊢
    split at hpiece
    · exact ⟨names, rfl⟩
    · exact ⟨names, rfl⟩
    · simp at hpiece
    · exact ⟨String.ofList piece :: names, rfl⟩

/-- A plain path is spelled by the names that lead to its directory. -/
theorem Plain.parts_eq (h : p.Plain) : p.parts = .root :: p.place.map .name := by
  obtain ⟨ps, hps⟩ := exists_parts_of_isAbsolute h.isAbsolute
  have hdown := h.down
  rw [hps, List.mem_cons, not_or] at hdown
  obtain ⟨names, hnames⟩ := exists_names ps hdown.2
  have hplace : p.place = names := by
    rw [place, hps, hnames, List.foldl_cons, foldl_walk_names, Part.walk, List.nil_append]
  rw [hplace, hps, hnames]

theorem Plain.of_startsWith (h : p.Plain) (hq : q.isAbsolute = true) (hpq : p.startsWith q = true) : q.Plain :=
  ⟨hq, fun hup => h.down ((startsWith_iff.1 hpq).subset hup)⟩

/-- Of plain paths one lies below the other exactly if its directory does. -/
theorem Plain.startsWith_iff (hp : p.Plain) (hq : q.Plain) : p.startsWith q = true ↔ q.place <+: p.place := by
  rw [Path.startsWith_iff, hp.parts_eq, hq.parts_eq, List.prefix_cons_inj]
  have hinj : Function.Injective Part.name := fun _ _ hsame => Part.name.inj hsame
  exact List.prefix_map_iff_of_injective hinj

end Path

/-! ## Trees -/

/-- Which directories hold which markers; a directory is given by its names from the root. -/
abbrev MarkerTree := List String → String → Prop

namespace MarkerTree

variable (tree : MarkerTree) (marker : String) (place : List String)

/-- Of the directories at or above `place`, `dir` is the nearest one that holds the marker. -/
structure Nearest (dir : List String) : Prop where
  above : dir <+: place
  holds : tree dir marker
  nearer : ∀ e, dir <+: e → e <+: place → tree e marker → e = dir

/-- No directory at or above `place` holds the marker. -/
def Nowhere : Prop := ∀ e, e <+: place → ¬ tree e marker

end MarkerTree

namespace AncestorScan

variable {scan : AncestorScan} {tree : MarkerTree} {query dir d : Path} {marker : String}

/-- The scan says of each of its markers which directory at or above the scanned one is the nearest that holds it, in
whatever spelling, or that none does. -/
structure Truthful (scan : AncestorScan) (tree : MarkerTree) : Prop where
  found : ∀ marker d, scan.markers.lookup marker = some (some d) →
    d.isAbsolute = true ∧ tree.Nearest marker scan.directory.place d.place
  missing : ∀ marker, scan.markers.lookup marker = some none → tree.Nowhere marker scan.directory.place

/-! ## When a scan answers -/

theorem queryDirectory?_eq_some (h : scan.queryDirectory? query = some dir) : query.Plain ∧
    ((query == scan.directory) = true ∧ dir = query ∨
      (query == scan.directory) = false ∧ query.parent? = some dir) := by
  unfold queryDirectory? at h
  split at h
  · contradiction
  · next habs =>
    split at h
    · contradiction
    · next hdots =>
      have hplain : query.Plain := by
        refine ⟨by simpa using habs, fun hup => hdots ?_⟩
        exact List.any_eq_true.2 ⟨.up, hup, rfl⟩
      refine ⟨hplain, ?_⟩
      split at h
      · next hsame => exact Or.inl ⟨hsame, (Option.some.inj h).symm⟩
      · next hother => exact Or.inr ⟨by simpa using hother, h⟩

theorem queryDirectory?_of_plain (h : query.Plain) :
    scan.queryDirectory? query = if query == scan.directory then some query else query.parent? := by
  have hdots : query.parts.any (fun part => part == .up || part == .here) = false := by
    rw [List.any_eq_false]
    intro part hpart hdot
    rcases Bool.or_eq_true_iff.1 hdot with hup | hhere
    · exact h.down (beq_iff_eq.1 hup ▸ hpart)
    · exact Path.here_notMem_of_isAbsolute h.isAbsolute (beq_iff_eq.1 hhere ▸ hpart)
  simp [queryDirectory?, h.isAbsolute, hdots]

/-- The search for a query begins in the scanned tree exactly if the query is plain and lies at or below the scanned
directory. -/
theorem begins_below_iff (hD : scan.directory.isAbsolute = true) :
    (∃ dir, scan.queryDirectory? query = some dir ∧ dir.startsWith scan.directory = true) ↔
      query.Plain ∧ query.startsWith scan.directory = true := by
  constructor
  · rintro ⟨dir, hdir, hbelow⟩
    obtain ⟨hplain, ⟨-, rfl⟩ | ⟨-, hparent⟩⟩ := queryDirectory?_eq_some hdir
    · exact ⟨hplain, hbelow⟩
    · exact ⟨hplain, Path.startsWith_of_parent? hparent hbelow⟩
  · rintro ⟨hplain, hbelow⟩
    rw [queryDirectory?_of_plain hplain]
    cases hsame : query == scan.directory with
    | true => exact ⟨query, rfl, hbelow⟩
    | false => exact Path.parent?_startsWith hD hbelow hsame

theorem resolve_eq_present_iff : scan.resolve query marker = .present d ↔ ∃ dir, scan.queryDirectory? query = some dir ∧
    dir.startsWith scan.directory = true ∧ scan.markers.lookup marker = some (some d) ∧ dir.startsWith d = true := by
  unfold resolve
  cases scan.queryDirectory? query with
  | none => simp
  | some dir =>
    cases hbelow : dir.startsWith scan.directory with
    | false => simp [hbelow]
    | true =>
      rcases hsaid : scan.markers.lookup marker with _ | _ | found
      · simp
      · by_cases hsame : (query == scan.directory) = true
        · simp [hbelow, hsame]
        · simp [hbelow, hsame]
      · by_cases habove : dir.startsWith found = true
        · simp only [hbelow, habove, Bool.not_true, Bool.false_eq_true, if_false, if_true, MarkerAnswer.present.injEq,
            Option.some.injEq, true_and, exists_eq_left']
          constructor
          · rintro rfl
            exact ⟨rfl, habove⟩
          · exact And.left
        · simp only [hbelow, habove, Bool.not_true, Bool.false_eq_true, if_false, reduceCtorEq, Option.some.injEq,
            false_iff, true_and, exists_eq_left']
          rintro ⟨rfl, hd⟩
          exact habove hd

theorem resolve_eq_absent_iff : scan.resolve query marker = .absent ↔ ∃ dir, scan.queryDirectory? query = some dir ∧
    dir.startsWith scan.directory = true ∧ scan.markers.lookup marker = some none ∧
    (query == scan.directory) = true := by
  unfold resolve
  cases scan.queryDirectory? query with
  | none => simp
  | some dir =>
    cases hbelow : dir.startsWith scan.directory with
    | false => simp [hbelow]
    | true =>
      rcases hsaid : scan.markers.lookup marker with _ | _ | found
      · simp
      · by_cases hsame : (query == scan.directory) = true
        · simp [hbelow, hsame]
        · simp [hbelow, hsame]
      · by_cases habove : dir.startsWith found = true
        · simp [hbelow, habove]
        · simp [hbelow, habove]

/-- A scan answers only plain queries at or below its directory, and only for markers that it was asked for. -/
theorem answers_within (hD : scan.directory.isAbsolute = true) (h : scan.resolve query marker ≠ .unknown) :
    query.Plain ∧ query.startsWith scan.directory = true ∧ marker ∈ scan.markers.map (·.1) := by
  have hasked : ∀ {said}, scan.markers.lookup marker = some said → marker ∈ scan.markers.map (·.1) := by
    intro said hsaid
    by_contra hno
    rw [List.lookup_eq_none_iff.2] at hsaid
    · contradiction
    · intro entry hentry
      simpa using fun hsame : marker = entry.1 => hno (hsame ▸ List.mem_map_of_mem hentry)
  cases hanswer : scan.resolve query marker with
  | present d =>
    obtain ⟨dir, hdir, hbelow, hsaid, -⟩ := resolve_eq_present_iff.1 hanswer
    obtain ⟨hplain, hunder⟩ := (begins_below_iff hD).1 ⟨dir, hdir, hbelow⟩
    exact ⟨hplain, hunder, hasked hsaid⟩
  | absent =>
    obtain ⟨dir, hdir, hbelow, hsaid, -⟩ := resolve_eq_absent_iff.1 hanswer
    obtain ⟨hplain, hunder⟩ := (begins_below_iff hD).1 ⟨dir, hdir, hbelow⟩
    exact ⟨hplain, hunder, hasked hsaid⟩
  | unknown => exact absurd hanswer h

/-! ## What the answers mean -/

/-- A truthful scan of an absolute directory answers nothing that is wrong in the tree. A directory that it names holds
the marker, is at or above the query, which is at or below the scanned directory, and no directory between it and the
scanned one holds the marker. When it answers that there is none, no directory at or above the query holds the marker.
It does not answer relative queries, queries with a `..`, queries that are not at or below the scanned directory and
markers that it was not asked for; all others it answers when it has found the marker and names the directory without a
`..`, and when it has not found it and the query is the scanned directory. -/
theorem truthful_scan_never_misleads (hD : scan.directory.isAbsolute = true) (h : scan.Truthful tree) (query : Path)
    (marker : String) :
    (∀ d, scan.resolve query marker = .present d →
      tree d.place marker ∧ query.startsWith d = true ∧ query.startsWith scan.directory = true ∧
        ∀ e, d.place <+: e → e ≠ d.place → e <+: scan.directory.place → ¬ tree e marker) ∧
    (scan.resolve query marker = .absent → ∀ e, e <+: query.place → ¬ tree e marker) ∧
    (query.isAbsolute = false ∨ .up ∈ query.parts ∨ query.startsWith scan.directory = false ∨
      marker ∉ scan.markers.map (·.1) → scan.resolve query marker = .unknown) ∧
    (query.isAbsolute = true → .up ∉ query.parts → query.startsWith scan.directory = true →
      (∀ d, scan.markers.lookup marker = some (some d) → .up ∉ d.parts → scan.resolve query marker = .present d) ∧
      (scan.markers.lookup marker = some none → (query == scan.directory) = true →
        scan.resolve query marker = .absent)) := by
  refine ⟨fun d hpresent => ?_, fun habsent => ?_, fun hout => ?_, fun habs hdown hunder => ?_⟩
  · obtain ⟨dir, hdir, hbelow, hsaid, habove⟩ := resolve_eq_present_iff.1 hpresent
    obtain ⟨-, hnearest⟩ := h.found marker d hsaid
    obtain ⟨-, hunder⟩ := (begins_below_iff hD).1 ⟨dir, hdir, hbelow⟩
    have hqd : query.startsWith d = true := by
      obtain ⟨-, ⟨-, rfl⟩ | ⟨-, hparent⟩⟩ := queryDirectory?_eq_some hdir
      · exact habove
      · exact Path.startsWith_of_parent? hparent habove
    exact ⟨hnearest.holds, hqd, hunder, fun e hde hne heD he => hne (hnearest.nearer e hde heD he)⟩
  · obtain ⟨dir, -, -, hsaid, hsame⟩ := resolve_eq_absent_iff.1 habsent
    have hplace : query.place = scan.directory.place := by
      rw [Path.place, Path.place, Path.beq_iff.1 hsame]
    rw [hplace]
    exact h.missing marker hsaid
  · by_contra hanswer
    obtain ⟨hplain, hunder, hasked⟩ := answers_within hD hanswer
    rcases hout with hrelative | hup | hbeside | hunasked
    · rw [hplain.isAbsolute] at hrelative
      contradiction
    · exact hplain.down hup
    · rw [hunder] at hbeside
      contradiction
    · exact hunasked hasked
  · have hplain : query.Plain := ⟨habs, hdown⟩
    obtain ⟨dir, hdir, hbelow⟩ := (begins_below_iff hD).2 ⟨hplain, hunder⟩
    refine ⟨fun d hsaid hd => ?_, fun hsaid hsame => ?_⟩
    · obtain ⟨hdabs, hnearest⟩ := h.found marker d hsaid
      have hDplain : scan.directory.Plain := hplain.of_startsWith hD hunder
      have hDd : scan.directory.startsWith d = true := (hDplain.startsWith_iff ⟨hdabs, hd⟩).2 hnearest.above
      exact resolve_eq_present_iff.2 ⟨dir, hdir, hbelow, hsaid, Path.startsWith_trans hbelow hDd⟩
    · exact resolve_eq_absent_iff.2 ⟨dir, hdir, hbelow, hsaid, hsame⟩

/-! ## A library below a repository -/

/-- Only `/srv` holds a marker. -/
def serviceTree : MarkerTree := fun place marker => place = ["srv"] ∧ marker = ".git"

/-- A scan of a directory below it, in spellings of its own. -/
def libraryScan : AncestorScan := ⟨⟨"/srv/lib/"⟩, [(".git", some ⟨"/srv//."⟩), (".hg", none)]⟩

theorem libraryScan_truthful : libraryScan.Truthful serviceTree := by
  have hscanned : libraryScan.directory.place = ["srv", "lib"] := by decide +kernel
  have hservice : (Path.mk "/srv//.").place = ["srv"] := by decide +kernel
  have hsaid : ∀ marker said, libraryScan.markers.lookup marker = some said →
      marker = ".git" ∧ said = some ⟨"/srv//."⟩ ∨ marker = ".hg" ∧ said = none := by
    intro marker said h
    simp only [libraryScan, List.lookup_cons, List.lookup_nil] at h
    split at h
    · next hgit => exact Or.inl ⟨beq_iff_eq.1 hgit, (Option.some.inj h).symm⟩
    · split at h
      · next hhg => exact Or.inr ⟨beq_iff_eq.1 hhg, (Option.some.inj h).symm⟩
      · contradiction
  constructor
  · intro marker d h
    obtain ⟨rfl, hd⟩ | ⟨-, hd⟩ := hsaid marker _ h
    · obtain rfl := Option.some.inj hd
      refine ⟨by decide +kernel, ?_, ?_, ?_⟩
      · rw [hscanned, hservice]
        exact ⟨["lib"], rfl⟩
      · exact ⟨hservice, rfl⟩
      · exact fun e _ _ he => he.1.trans hservice.symm
    · contradiction
  · intro marker h e _ he
    obtain ⟨-, hd⟩ | ⟨rfl, -⟩ := hsaid marker _ h
    · contradiction
    · exact absurd he.2 (by decide)

/-- The scan says that the repository holds a file of the library, and that nothing above the library holds the marker
it has not found; it says nothing of a directory whose name only begins like the library's, nor of a path that leads
up. -/
theorem truthful_scan_never_misleads_of_library :
    libraryScan.resolve ⟨"/srv/lib/src/a.c"⟩ ".git" = .present ⟨"/srv//."⟩ ∧
    serviceTree (Path.mk "/srv//.").place ".git" ∧
    libraryScan.resolve ⟨"/srv//lib"⟩ ".hg" = .absent ∧
    (∀ e, e <+: (Path.mk "/srv//lib").place → ¬ serviceTree e ".hg") ∧
    libraryScan.resolve ⟨"/srv/library/a.c"⟩ ".git" = .unknown ∧
    libraryScan.resolve ⟨"/srv/lib/../a.c"⟩ ".git" = .unknown := by
  have hD : libraryScan.directory.isAbsolute = true := by decide +kernel
  obtain ⟨hpresent, -, -, hanswers⟩ := truthful_scan_never_misleads hD libraryScan_truthful ⟨"/srv/lib/src/a.c"⟩ ".git"
  obtain ⟨-, habsent, -, hanswers'⟩ := truthful_scan_never_misleads hD libraryScan_truthful ⟨"/srv//lib"⟩ ".hg"
  obtain ⟨-, -, hbeside, -⟩ := truthful_scan_never_misleads hD libraryScan_truthful ⟨"/srv/library/a.c"⟩ ".git"
  obtain ⟨-, -, hup, -⟩ := truthful_scan_never_misleads hD libraryScan_truthful ⟨"/srv/lib/../a.c"⟩ ".git"
  have hgit := (hanswers (by decide +kernel) (by decide +kernel) (by decide +kernel)).1 ⟨"/srv//."⟩ rfl
    (by decide +kernel)
  have hhg := (hanswers' (by decide +kernel) (by decide +kernel) (by decide +kernel)).2 rfl (by decide +kernel)
  exact ⟨hgit, (hpresent _ hgit).1, hhg, habsent hhg, hbeside (Or.inr (Or.inr (Or.inl (by decide +kernel)))),
    hup (Or.inr (Or.inl (by decide +kernel)))⟩

end AncestorScan

end RemoteFacts
