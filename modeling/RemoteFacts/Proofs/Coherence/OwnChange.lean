import RemoteFacts.Proofs.Coherence.Scan

/-!
# A change of the host's own

The host may tell of a change that it has made itself. Outside of scopes this takes the same facts as a report of the
change from the remote side does; a scan that the change may falsify is taken by the report only.

* `Rpc.Notification.ofPath` : the report that one path has changed;
* `Site.notify_ofPath`, `resolve_dropScanFor` : what such a report leaves, and what is answered after it;
* `reported_change_eq_own_change_iff` : when the two leave the same.
-/

namespace RemoteFacts

namespace Rpc.Notification

/-- The report that one path has changed. -/
def ofPath (p : Path) : Notification := ⟨changes, .object [("paths", .array [.text p.text])]⟩

theorem changedPaths_ofPath {p : Path} (habs : p.isAbsolute = true) : (ofPath p).changedPaths = [p] := by
  have hmethod : ((ofPath p).method == changes) = true := beq_self_eq_true _
  have hread : paths? (ofPath p).params = some [p] := rfl
  have hkept : [p].filter (·.isAbsolute) = [p] := List.filter_cons_of_pos habs
  rw [changedPaths, if_pos hmethod, hread, Option.getD_some, hkept]
  exact List.mergeSort_singleton p

end Rpc.Notification

namespace Session.Site

variable {x : Site} {p q : Path} {marker : String}

/-- A report of one path does what the host's own word does, and drops a scan besides. -/
theorem notify_ofPath (hidle : x.session.suppression.active = false) (habs : p.isAbsolute = true) :
    x.notify (.ofPath p) = (.applied 1, { x.invalidate p with session := { (x.invalidate p).session with
      transient := (x.invalidate p).session.transient.dropScanFor p } }) := by
  unfold notify
  rw [Rpc.Notification.changedPaths_ofPath habs]
  simp only [Suppression.suppress, hidle, Bool.false_eq_true, if_false]
  rfl

theorem dropScanFor_eq_self_iff {t : Transient} :
    t.dropScanFor p = t ↔ ∀ d, t.scan = some d → d.value.isAffectedBy p = false := by
  constructor
  · intro hsame d hd
    rw [← hsame] at hd
    exact (scan_dropScanFor hd).2
  · intro hkept
    have hscan : t.scan.filter (fun d => !d.value.isAffectedBy p) = t.scan := by
      cases hd : t.scan with
      | none => rfl
      | some d => rw [Option.filter_some, hkept d hd, Bool.not_false, if_pos rfl]
    exact congrArg (Transient.mk t.result) hscan

theorem resolve_dropScanFor {t : Transient} : (t.dropScanFor p).resolve q marker =
    if t.scan.any (·.value.isAffectedBy p) then .unknown else t.resolve q marker := by
  unfold Transient.dropScanFor Transient.resolve
  cases t.scan with
  | none => rfl
  | some d =>
    cases haffected : d.value.isAffectedBy p with
    | true =>
      simp only [Option.filter_some, Option.any_some, haffected, Bool.not_true, Bool.false_eq_true, if_false, if_true]
    | false =>
      simp only [Option.filter_some, Option.any_some, haffected, Bool.not_false, Bool.false_eq_true, if_false, if_true]

/-- Outside of scopes, the report of a change and the host's own word for it leave the same facts with the same
counters, the same result of the last prefetch, and all else the same but for the scan: one that the change may falsify
is dropped by the report and kept by the host's word. So they leave the same state exactly if no such scan is held, and
the same answers to every later question for a marker exactly if such a scan has none to give. -/
theorem reported_change_eq_own_change_iff (hidle : x.session.suppression.active = false) (habs : p.isAbsolute = true) :
    (x.notify (.ofPath p)).1 = .applied 1 ∧
    (x.notify (.ofPath p)).2.registry = (x.invalidate p).registry ∧
    (x.notify (.ofPath p)).2.session = { (x.invalidate p).session with
      transient := ⟨x.session.transient.result, x.session.transient.scan.filter fun d => !d.value.isAffectedBy p⟩ } ∧
    ((x.notify (.ofPath p)).2 = x.invalidate p ↔
      ∀ d, x.session.transient.scan = some d → d.value.isAffectedBy p = false) ∧
    ((∀ q marker, (x.notify (.ofPath p)).2.session.transient.resolve q marker =
        (x.invalidate p).session.transient.resolve q marker) ↔
      ∀ d, x.session.transient.scan = some d → d.value.isAffectedBy p = true →
        ∀ q marker, d.value.resolve q marker = .unknown) := by
  rw [notify_ofPath hidle habs]
  refine ⟨rfl, rfl, rfl, ?_, ?_⟩
  · have hheld : (x.invalidate p).session.transient = x.session.transient := rfl
    rw [← hheld, ← dropScanFor_eq_self_iff]
    constructor
    · intro hsame
      exact congrArg (fun y : Site => y.session.transient) hsame
    · intro hsame
      rw [hsame]
  · show (∀ q marker, (x.session.transient.dropScanFor p).resolve q marker = x.session.transient.resolve q marker) ↔ _
    constructor
    · intro hsame d hd haffected q marker
      have hanswer := hsame q marker
      rw [resolve_dropScanFor, hd, Option.any_some, haffected, if_pos rfl] at hanswer
      unfold Transient.resolve at hanswer
      rw [hd] at hanswer
      exact hanswer.symm
    · intro hsilent q marker
      rw [resolve_dropScanFor]
      split
      · next haffected =>
        obtain ⟨d, hd, haffected⟩ := (Option.any_eq_true _ _).1 haffected
        unfold Transient.resolve
        rw [hd]
        exact (hsilent d hd haffected q marker).symm
      · rfl

end Session.Site

namespace Client

open Session

/-- After the change of the directory with the marker's name, the host's own word for it keeps the scan that found it
there, and the scan still answers. -/
theorem own_change_keeps_scan_of_marker : ∃ x found, (scanningClient.run (scannedTwice.take 3)).site? 0 = some x ∧
    x.session.suppression.active = false ∧ (Path.mk "/repo/.git").isAbsolute = true ∧
    (x.invalidate ⟨"/repo/.git"⟩).session.transient.resolve ⟨"/repo/src/a.c"⟩ ".git" = .present found ∧
    ((x.notify (.ofPath ⟨"/repo/.git"⟩)).2 ≠ x.invalidate ⟨"/repo/.git"⟩) ∧
    ¬ ∀ q marker, (x.notify (.ofPath ⟨"/repo/.git"⟩)).2.session.transient.resolve q marker =
        (x.invalidate ⟨"/repo/.git"⟩).session.transient.resolve q marker := by
  have habs : (Path.mk "/repo/.git").isAbsolute = true := by decide +kernel
  have hheld : ∃ x ∈ (scanningClient.run (scannedTwice.take 3)).site? 0, x.session.suppression.active = false ∧
      ∃ d ∈ x.session.transient.scan, d.value.isAffectedBy ⟨"/repo/.git"⟩ = true ∧
        (d.value.resolve ⟨"/repo/src/a.c"⟩ ".git").isPresent = true := by
    decide +kernel
  obtain ⟨x, hx, hidle, d, hd, haffected, hpresent⟩ := hheld
  obtain ⟨found, hfound⟩ := MarkerAnswer.exists_of_isPresent hpresent
  obtain ⟨-, -, -, hstate, hanswers⟩ := Site.reported_change_eq_own_change_iff hidle habs
  have hown : (x.invalidate ⟨"/repo/.git"⟩).session.transient.resolve ⟨"/repo/src/a.c"⟩ ".git" = .present found := by
    show x.session.transient.resolve _ _ = _
    unfold Transient.resolve
    rw [hd]
    exact hfound
  refine ⟨x, found, hx, hidle, habs, hown, fun hsame => ?_, fun hsame => ?_⟩
  · have hkept := hstate.1 hsame d hd
    rw [haffected] at hkept
    contradiction
  · have hsilent := hanswers.1 hsame d hd haffected ⟨"/repo/src/a.c"⟩ ".git"
    rw [hfound] at hsilent
    contradiction

end Client

end RemoteFacts
