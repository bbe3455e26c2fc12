import RemoteFacts.Proofs.Coherence.OwnChange

/-!
# A change of the marker itself

A report that a scan's own marker has changed, in whatever directory, is compared with the markers by its last name
only. A marker may be spelled as more than one name, and then the comparison misses it.

* `Path.IsName` : what can be the name of an entry of a directory;
* `Path.fileName?_join_eq_some_iff` : a marker is the last name of a path that leads to it exactly if it is such a name;
* `scan_dropScanFor_eq_none_iff` : a scan is dropped exactly if the change may falsify it;
* `Holding.Scans`, `scan_eq_none_of_shift` : a scan comes only from a prefetch that ends well;
* `marker_change_drops_scan_iff` : when the scan is dropped, and what is answered from then on.
-/

namespace RemoteFacts

/-! ## Names of entries -/

namespace Path

variable {p dir : Path} {s m : String}

/-- An entry of a directory can have this name: `.` and `..` are in every directory, and no name has a slash in it. -/
structure IsName (s : String) : Prop where
  nonempty : s ≠ ""
  oneName : '/' ∉ s.toList
  notHere : s ≠ "."
  notUp : s ≠ ".."

theorem isName_of_ofPiece? {piece : List Char} (hslash : '/' ∉ piece) (h : Part.ofPiece? piece = some (.name s)) :
    IsName s := by
  unfold Part.ofPiece? at h
  split at h
  · contradiction
  · contradiction
  · simp at h
  · next hempty hhere hup =>
    obtain rfl : String.ofList piece = s := by simpa using h
    refine ⟨fun hsame => hempty ?_, by simpa using hslash, fun hsame => hhere ?_, fun hsame => hup ?_⟩
    · simpa using congrArg String.toList hsame
    · simpa using congrArg String.toList hsame
    · simpa using congrArg String.toList hsame

theorem ofPiece?_of_isName (h : IsName s) : Part.ofPiece? s.toList = some (.name s) := by
  unfold Part.ofPiece?
  split
  · next hempty => exact absurd (String.toList_inj.1 hempty) h.nonempty
  · next hhere => exact absurd (String.toList_inj.1 hhere) h.notHere
  · next hup => exact absurd (String.toList_inj.1 hup) h.notUp
  · rw [String.ofList_toList]

/-- Only such names are parts of paths. -/
theorem isName_of_mem_parts (h : .name s ∈ p.parts) : IsName s := by
  have hslash : ∀ piece ∈ p.pieces, '/' ∉ piece := Text.not_mem_of_mem_pieces '/' _
  obtain ⟨first, rest, hp⟩ := List.exists_cons_of_ne_nil (Text.pieces_ne_nil '/' p.text.toList)
  have hpieces : p.pieces = first :: rest := hp
  rw [hpieces, List.forall_mem_cons] at hslash
  rw [parts_eq p hp, List.mem_append] at h
  rcases h with h | h
  · unfold Part.ofFirst at h
    split at h
    · split at h <;> simp at h
    · simp at h
    · exact isName_of_ofPiece? hslash.1 (Option.mem_toList.1 h)
  · obtain ⟨piece, hpiece, hname⟩ := List.mem_filterMap.1 h
    exact isName_of_ofPiece? (hslash.2 piece hpiece) hname

theorem text_ne_nil_of_isAbsolute (h : p.isAbsolute = true) : p.text.toList ≠ [] := by
  intro hnil
  rw [isAbsolute, hnil] at h
  contradiction

theorem isAbsolute_join (hdir : dir.isAbsolute = true) {q : Path} : (dir.join q).isAbsolute = true := by
  cases hq : q.isAbsolute with
  | true => rw [join_of_isAbsolute hq, hq]
  | false =>
    rw [isAbsolute_iff, parts_join (text_ne_nil_of_isAbsolute hdir) hq, List.head?_append, isAbsolute_iff.1 hdir]
    rfl

/-- What is joined to a directory is the last name of the path exactly if an entry can have this name. -/
theorem fileName?_join_eq_some_iff (hdir : dir.isAbsolute = true) (hm : (Path.mk m).isAbsolute = false) :
    (dir.join ⟨m⟩).fileName? = some m ↔ IsName m := by
  rw [fileName?_eq_some_iff]
  constructor
  · intro hlast
    exact isName_of_mem_parts (List.mem_of_getLast? hlast)
  · intro hname
    have hpieces : (Path.mk m).pieces = [m.toList] := Text.pieces_of_not_mem hname.oneName
    rw [parts_join (text_ne_nil_of_isAbsolute hdir) hm, hpieces, Part.ofPieces_cons, ofPiece?_of_isName hname]
    exact List.getLast?_concat

end Path

namespace Session

/-! ## Where a scan goes, and where it comes from -/

variable {now : Nat} {v w : Holding} {e : Event}

/-- A scan that is held is dropped exactly if the change may falsify it. -/
theorem scan_dropScanFor_eq_none_iff {t : Transient} {d : Dated AncestorScan} {p : Path} (hd : t.scan = some d) :
    (t.dropScanFor p).scan = none ↔ d.value.isAffectedBy p = true := by
  show (t.scan.filter fun s => !s.value.isAffectedBy p) = none ↔ _
  rw [hd, Option.filter_some]
  cases d.value.isAffectedBy p with
  | true => exact ⟨fun _ => rfl, fun _ => rfl⟩
  | false => exact ⟨nofun, nofun⟩

/-- Between `v` and `w` a prefetch ends well and leaves a scan. -/
def Holding.Scans (v w : Holding) : Prop := v.Lands w ∧ w.transient.scan ≠ none

/-- Nothing but the end of a prefetch brings in a scan. -/
theorem scan_eq_none_of_shift (hw : Shift now v e w) (hnone : v.transient.scan = none) (hquiet : ¬ v.Scans w) :
    w.transient.scan = none := by
  have hkept : ∀ d, w.transient.scan = some d → v.transient.scan ≠ some d := by
    rw [hnone]
    exact fun _ _ => nofun
  rw [Option.eq_none_iff_forall_ne_some]
  intro d hd
  cases hw with
  | advance he hw =>
    cases hw with
    | rest => exact hkept d hd hd
    | enter id _ _ => exact hkept d hd hd
    | leave id _ _ => exact hkept d hd hd
    | commit id harvest hin =>
      refine hquiet ⟨⟨id, harvest.since, harvest.result, hin, rfl⟩, ?_⟩
      rw [hd]
      exact nofun
  | lose _ hw => exact hkept d hd (hw.scan d hd)
  | apply n _ hw => exact hkept d hd (hw.scan d hd)
  | recordExists _ _ => exact hkept d hd hd
  | recordTruename _ _ => exact hkept d hd hd
  | enterHost _ => exact hkept d hd hd
  | leaveHost _ => exact hkept d hd hd
  | drop n _ => exact hkept d hd hd

end Session

/-! ## Whole histories -/

namespace Client

open Session

variable {i t : Nat} {x y : Site} {history : List (Nat × Event)} {e : Event} {d : Dated AncestorScan} {dir : Path}
  {m : String} {sessions : List Session} {connection : Watch.ConnectionId} {config : Config} {ticks : Nat}

/-- Once no scan is held, none is until a prefetch ends well and leaves one. -/
theorem scan_eq_none_run (hopened : sessions[i]? = some (Session.opened connection config ticks true))
    (hmet : (opened sessions).Met history i t e x) (hnone : (x.step t e).2.session.transient.scan = none)
    (hquiet : ∀ u f z, t < u → (opened sessions).Met history i u f z → ¬ z.holding.Scans (z.step u f).2.holding)
    (hy : ((opened sessions).run history).site? i = some y) : y.session.transient.scan = none := by
  let P : List (Nat × Event) → Site → Prop := fun _ z => z.session.transient.scan = none
  have hown : ∀ before z f, t < ((opened sessions).run before).clock →
      (opened sessions).Met history i ((opened sessions).run before).clock f z →
      ((opened sessions).run before).site? i = some z → P before z →
      P (before ++ [(i, f)]) (z.step ((opened sessions).run before).clock f).2 := by
    intro before z f hlater hmet' hz hP
    obtain ⟨z', hz', hnumbered, -⟩ := opened_run hopened before
    obtain rfl : z' = z := Option.some.inj (hz'.symm.trans hz)
    exact scan_eq_none_of_shift (Site.shift_step hnumbered) hP (hquiet _ f z' hlater hmet')
  obtain ⟨z, hz, hP⟩ := run_after (P := P) hmet (fun _ => hnone) hown (fun _ _ _ _ _ _ _ _ hP => hP)
    (fun _ _ _ _ _ hP => hP) (List.append_nil history).symm hmet.lt_clock
  obtain rfl : z = y := Option.some.inj (hz.symm.trans hy)
  exact hP

/-- Outside of scopes, the report that the marker `m` of a scan has changed in a directory drops the scan exactly if an
entry of a directory can have the name `m`, or if the path of the report ends in the name of another of its markers.
Once it is dropped no query for a marker is answered until a prefetch ends well and leaves a scan; otherwise all answers
stay as they were. -/
theorem marker_change_drops_scan_iff (hopened : sessions[i]? = some (Session.opened connection config ticks true))
    (hmet : (opened sessions).Met history i t (.notify (.ofPath (dir.join ⟨m⟩))) x)
    (hidle : x.session.suppression.active = false) (hd : x.session.transient.scan = some d)
    (hm : m ∈ d.value.markers.map (·.1)) (hrel : (Path.mk m).isAbsolute = false) (hdir : dir.isAbsolute = true) :
    (x.notify (.ofPath (dir.join ⟨m⟩))).1 = .applied 1 ∧
    ((x.notify (.ofPath (dir.join ⟨m⟩))).2.session.transient.scan = none ↔
      Path.IsName m ∨ ∃ other ∈ d.value.markers.map (·.1), other ≠ m ∧ (dir.join ⟨m⟩).fileName? = some other) ∧
    ((x.notify (.ofPath (dir.join ⟨m⟩))).2.session.transient.scan ≠ none →
      (x.notify (.ofPath (dir.join ⟨m⟩))).2.session.transient = x.session.transient) ∧
    ((x.notify (.ofPath (dir.join ⟨m⟩))).2.session.transient.scan = none →
      (∀ u f z, t < u → (opened sessions).Met history i u f z → ¬ z.holding.Scans (z.step u f).2.holding) →
      ∀ y, ((opened sessions).run history).site? i = some y →
        ∀ query marker, y.session.transient.resolve query marker = .unknown) := by
  have hafter : (x.notify (.ofPath (dir.join ⟨m⟩))).2.session.transient =
      x.session.transient.dropScanFor (dir.join ⟨m⟩) := by
    rw [Site.notify_ofPath hidle (Path.isAbsolute_join hdir)]
    rfl
  have hdropped := scan_dropScanFor_eq_none_iff (p := dir.join ⟨m⟩) hd
  rw [hafter, hdropped]
  refine ⟨?_, ?_, ?_, ?_⟩
  · rw [Site.notify_ofPath hidle (Path.isAbsolute_join hdir)]
  · rw [AncestorScan.isAffectedBy_iff]
    constructor
    · rintro ⟨other, hother, hin⟩
      by_cases hsame : other = m
      · subst hsame
        exact Or.inl ((Path.fileName?_join_eq_some_iff hdir hrel).1 hother)
      · exact Or.inr ⟨other, hin, hsame, hother⟩
    · rintro (hname | ⟨other, hin, -, hother⟩)
      · exact ⟨m, (Path.fileName?_join_eq_some_iff hdir hrel).2 hname, hm⟩
      · exact ⟨other, hother, hin⟩
  · intro hkept
    rw [Site.dropScanFor_eq_self_iff]
    intro d' hd'
    obtain rfl : d = d' := Option.some.inj (hd.symm.trans hd')
    exact Bool.eq_false_iff.2 (mt hdropped.2 hkept)
  · intro haffected hquiet y hy query marker
    have hnone : (x.step t (.notify (.ofPath (dir.join ⟨m⟩)))).2.session.transient.scan = none := by
      show (x.notify (.ofPath (dir.join ⟨m⟩))).2.session.transient.scan = none
      rw [hafter]
      exact hdropped.2 haffected
    unfold Transient.resolve
    rw [scan_eq_none_run hopened hmet hnone hquiet hy]

/-! ## A marker in a directory of its own -/

/-- A session that scans for a file below the directory that holds it. -/
def nestedSession : Session :=
  Session.opened 0 { prefetch := { ancestorMarkers := [".git/HEAD"] }, watch := { autoRegister := false } } 1 true

/-- A prefetch that finds the file, and the report that it has changed. -/
def nestedChange : List (Nat × Event) := [
  (0, .launch (.prefetch ⟨"/repo"⟩)),
  (0, .settle 0 0 (.answered (.object ((ProbePlan.build ⟨"/repo"⟩ ".git").commands.map fun command =>
    (command.key, .object [("exit_code", .int 1)]))))),
  (0, .settle 0 0 (.answered (.object [(".git/HEAD", .text "/repo")]))),
  (0, .notify (.ofPath ((Path.mk "/repo").join ⟨".git/HEAD"⟩)))]

/-- The report leaves the scan, and it still answers. -/
theorem marker_change_keeps_scan_of_nested : ∃ x found,
    (opened [nestedSession]).Met nestedChange 0 3 (.notify (.ofPath ((Path.mk "/repo").join ⟨".git/HEAD"⟩))) x ∧
    x.session.suppression.active = false ∧
    (x.notify (.ofPath ((Path.mk "/repo").join ⟨".git/HEAD"⟩))).1 = .applied 1 ∧
    (x.notify (.ofPath ((Path.mk "/repo").join ⟨".git/HEAD"⟩))).2.session.transient.resolve
      ⟨"/repo/src/a.c"⟩ ".git/HEAD" = .present found := by
  have hheld : ∃ x ∈ ((opened [nestedSession]).run (nestedChange.take 3)).site? 0,
      x.session.suppression.active = false ∧ ∃ d ∈ x.session.transient.scan, d.value.markers.map (·.1) = [".git/HEAD"] ∧
        (d.value.resolve ⟨"/repo/src/a.c"⟩ ".git/HEAD").isPresent = true := by
    decide +kernel
  obtain ⟨x, hx, hidle, d, hd, hmarkers, hpresent⟩ := hheld
  obtain ⟨found, hfound⟩ := MarkerAnswer.exists_of_isPresent hpresent
  have hpast : ((opened [nestedSession]).run (nestedChange.take 3)).clock = 3 :=
    clock_run_eq_length (show [nestedSession][0]? = some nestedSession from rfl) (by simp [nestedChange])
  have hmet : (opened [nestedSession]).Met nestedChange 0 3
      (.notify (.ofPath ((Path.mk "/repo").join ⟨".git/HEAD"⟩))) x := ⟨_, _, rfl, hpast, hx⟩
  have hin : ".git/HEAD" ∈ d.value.markers.map (·.1) := by
    rw [hmarkers]
    exact List.mem_singleton_self _
  obtain ⟨hone, hiff, hsame, -⟩ := marker_change_drops_scan_iff
    (show [nestedSession][0]? = some nestedSession from rfl) hmet hidle hd hin (by decide +kernel) (by decide +kernel)
  have hkept : (x.notify (.ofPath ((Path.mk "/repo").join ⟨".git/HEAD"⟩))).2.session.transient.scan ≠ none := by
    rw [ne_eq, hiff, hmarkers]
    rintro (hname | ⟨other, hother, hne, -⟩)
    · exact hname.oneName (by decide +kernel)
    · exact hne (List.mem_singleton.1 hother)
  refine ⟨x, found, hmet, hidle, hone, ?_⟩
  rw [hsame hkept]
  unfold Transient.resolve
  rw [hd]
  exact hfound

end Client

end RemoteFacts
