import RemoteFacts.Proofs.Coherence.Facts

/-!
# Which scans outlive a change

A notification that is applied takes a scan it may falsify, and so does a prefetch that ends well after one was dropped
in its scope. Nothing else does: the end of a scope flushes the facts only, and a scan from before it stays.

* `Holding.Lands`, `Site.Sheds` : the events that take a scan away (`scan_step`);
* `scan_older_than_change_iff` : when exactly a scan from before a change is still held after it.
-/

namespace RemoteFacts

/-- Whether an answer names a directory. -/
def MarkerAnswer.isPresent : MarkerAnswer → Bool
  | .present _ => true
  | _ => false

theorem MarkerAnswer.exists_of_isPresent {a : MarkerAnswer} (h : a.isPresent = true) :
    ∃ found, a = .present found := by
  cases a with
  | present found => exact ⟨found, rfl⟩
  | absent => exact Bool.noConfusion h
  | unknown => exact Bool.noConfusion h

end RemoteFacts

namespace RemoteFacts.Session

variable {now : Nat} {v w : Holding} {d : Dated AncestorScan} {e : Event} {x : Site}

/-! ## What takes a scan away -/

/-- A prefetch ends well between `v` and `w`: what is left is dated by the scope that was open. -/
def Holding.Lands (v w : Holding) : Prop :=
  ∃ id since r, v.since? id = some since ∧ w.transient.result = some ⟨since, r⟩

/-- The event takes the scan `d` away: the host drops it, a notification that may falsify it is applied, or a prefetch
ends well. -/
def Site.Sheds (now : Nat) (e : Event) (d : Dated AncestorScan) (x : Site) : Prop :=
  match e with
  | .release | .flush => True
  | .close => x.session.closed = false
  | .notify n => x.session.suppression.active = false ∧ ∃ p, n.Names p ∧ d.value.isAffectedBy p = true
  | _ => x.holding.Lands (x.step now e).2.holding

/-- When the answers of the last prefetch stay, none has ended. -/
theorem not_lands (h : Aged now v) (hsame : w.transient = v.transient) : ¬ v.Lands w := by
  rintro ⟨id, since, r, hs, hr⟩
  rw [hsame] at hr
  exact Nat.lt_irrefl _ ((h.result _ hr).2 id since hs)

theorem scan_of_transient_eq (h : Aged now v) (hd : v.transient.scan = some d) (hsame : w.transient = v.transient) :
    w.transient.scan = some d ↔ ¬ v.Lands w := by
  rw [hsame]
  exact ⟨fun _ => not_lands h hsame, fun _ => hd⟩

/-- An operation that goes on takes a scan away only if it is a prefetch that ends well. -/
theorem scan_advance (h : Aged now v) (hd : v.transient.scan = some d) (hw : Advance now v w) :
    w.transient.scan = some d ↔ ¬ v.Lands w := by
  cases hw with
  | rest => exact scan_of_transient_eq h hd rfl
  | enter id _ _ => exact scan_of_transient_eq h hd rfl
  | leave id _ _ => exact scan_of_transient_eq h hd rfl
  | commit id harvest hin =>
    refine ⟨fun hstill => ?_, fun hno => absurd ⟨id, harvest.since, harvest.result, hin, rfl⟩ hno⟩
    obtain ⟨scan, -, rfl⟩ := Option.map_eq_some_iff.1 hstill
    exact absurd ((h.scan _ hd).2 id harvest.since hin) (Nat.lt_irrefl _)

theorem Site.scan_foldl_applyChange (paths : List Path) : (paths.foldl applyChange x).session.transient.scan = some d ↔
    x.session.transient.scan = some d ∧ ∀ p ∈ paths, d.value.isAffectedBy p = false := by
  induction paths generalizing x with
  | nil => simp
  | cons p ps ih =>
    rw [List.foldl_cons, ih]
    show (x.session.transient.scan.filter fun s => !s.value.isAffectedBy p) = some d ∧ _ ↔ _
    rw [Option.filter_eq_some_iff]
    simp [and_assoc]

theorem Site.scan_notify (now : Nat) (n : Rpc.Notification) (hd : x.session.transient.scan = some d) :
    (x.notify n).2.session.transient.scan = some d ↔ ¬ x.Sheds now (.notify n) d := by
  unfold Site.Sheds
  dsimp only
  have hnamed : (∃ p, n.Names p ∧ d.value.isAffectedBy p = true) ↔
      ¬ ∀ p ∈ n.changedPaths, d.value.isAffectedBy p = false := by
    constructor
    · rintro ⟨p, hp, haffected⟩ hnone
      obtain ⟨r, hr, hrp⟩ := Rpc.Notification.exists_mem_changedPaths hp
      rw [← AncestorScan.isAffectedBy_congr hrp, hnone r hr] at haffected
      contradiction
    · intro hsome
      simp only [not_forall, Bool.not_eq_false] at hsome
      obtain ⟨p, hp, haffected⟩ := hsome
      exact ⟨p, Rpc.Notification.names_of_mem_changedPaths hp, haffected⟩
  rw [hnamed]
  unfold notify
  split
  · next hnone => simp [hnone, hd]
  · cases hactive : x.session.suppression.active with
    | true => simp [Suppression.suppress, hactive, hd]
    | false =>
      simp only [Suppression.suppress, hactive, Bool.false_eq_true, if_false, true_and, not_not]
      rw [scan_foldl_applyChange]
      exact ⟨And.right, fun hnone => ⟨hd, hnone⟩⟩

/-- A scan that is held stays, unless the event sheds it. -/
theorem Site.scan_step (hx : x.Numbered) (h : Aged now x.holding) (hd : x.session.transient.scan = some d) :
    (x.step now e).2.session.transient.scan = some d ↔ ¬ x.Sheds now e d := by
  cases e with
  | launch operation => exact scan_advance h hd (advance_launch (hx.stage?_eq_none (Nat.le_refl _)))
  | settle id slot reply => exact scan_advance h hd advance_settle
  | proceed id => exact scan_advance h hd advance_proceed
  | abandon id => exact scan_advance h hd advance_abandon
  | notify n => exact scan_notify now n hd
  | flush => exact ⟨nofun, fun hno => absurd trivial hno⟩
  | release => exact ⟨nofun, fun hno => absurd trivial hno⟩
  | close =>
    show x.close.session.transient.scan = some d ↔ ¬ x.session.closed = false
    unfold close
    cases x.session.closed with
    | true => exact ⟨fun _ => nofun, fun _ => hd⟩
    | false => exact ⟨nofun, fun hno => absurd rfl hno⟩
  | enterScope => exact scan_of_transient_eq (w := x.enterHostScope.2.holding) h hd transient_enterHostScope
  | leaveScope => exact scan_of_transient_eq (w := x.leaveHostScope.2.holding) h hd transient_leaveHostScope
  | askExists path => exact scan_of_transient_eq h hd rfl
  | askTruename path => exact scan_of_transient_eq h hd rfl
  | recordExists path value => exact scan_of_transient_eq h hd rfl
  | recordTruename path target => exact scan_of_transient_eq h hd rfl
  | invalidate path => exact scan_of_transient_eq h hd rfl
  | forgetWatches => exact scan_of_transient_eq h hd rfl

/-- A scan that is new comes from the prefetch that was in the scope, and none of the dropped notifications affects
it. -/
theorem scan_of_shift (hw : Shift now v e w) (hd : w.transient.scan = some d) : v.transient.scan = some d ∨
    (∀ n, e ≠ .notify n) ∧
      ∃ id, v.since? id = some d.asOf ∧ ∀ r ∈ v.suppression.report.paths, d.value.isAffectedBy r = false := by
  cases hw with
  | advance he hw =>
    cases hw with
    | rest => exact Or.inl hd
    | enter id _ _ => exact Or.inl hd
    | leave id _ _ => exact Or.inl hd
    | commit id harvest hin =>
      obtain ⟨scan, hscan, rfl⟩ := Option.map_eq_some_iff.1 hd
      refine Or.inr ⟨he, id, hin, ?_⟩
      simpa using (Option.filter_eq_some_iff.1 hscan).2
  | lose _ hw => exact Or.inl (hw.scan d hd)
  | apply n _ hw => exact Or.inl (hw.scan d hd)
  | recordExists _ _ => exact Or.inl hd
  | recordTruename _ _ => exact Or.inl hd
  | enterHost _ => exact Or.inl hd
  | leaveHost _ => exact Or.inl hd
  | drop n _ => exact Or.inl hd

end RemoteFacts.Session

/-! ## Whole histories -/

namespace RemoteFacts.Client

open Session

variable {c : Client} {i t : Nat} {x y : Site} {history : List (Nat × Event)} {n : Rpc.Notification} {p : Path}
  {d : Dated AncestorScan} {e : Event}

/-- The scan `d` was held in `y` when a scope was open, and nothing has taken it away since `t`. -/
def Outlives (c : Client) (history : List (Nat × Event)) (i t : Nat) (d : Dated AncestorScan) (y : Site) : Prop :=
  y.session.transient.scan = some d ∧ y.session.suppression.active = true ∧
    ∀ u e z, t < u → c.Met history i u e z → ¬ z.Sheds u e d

/-- One more event asks for one thing more. -/
theorem outlives_snoc (hx : (c.run history).site? i = some x) (ht : t < (c.run history).clock) :
    c.Outlives (history ++ [(i, e)]) i t d y ↔ c.Outlives history i t d y ∧ ¬ x.Sheds (c.run history).clock e d := by
  constructor
  · rintro ⟨hd, hactive, hkept⟩
    exact ⟨⟨hd, hactive, fun u e z hu hmet => hkept u e z hu hmet.snoc⟩, hkept _ e x ht (met_last hx)⟩
  · rintro ⟨⟨hd, hactive, hkept⟩, hlast⟩
    refine ⟨hd, hactive, fun u e' z hu hmet => ?_⟩
    rcases hmet.of_snoc with hmet | ⟨-, rfl, rfl, hz⟩
    · exact hkept u e' z hu hmet
    · obtain rfl : x = z := Option.some.inj (hx.symm.trans hz)
      exact hlast

theorem outlives_snoc_of_ne {j : Nat} (hj : j ≠ i) :
    c.Outlives (history ++ [(j, e)]) i t d y ↔ c.Outlives history i t d y := by
  constructor
  · rintro ⟨hd, hactive, hkept⟩
    exact ⟨hd, hactive, fun u e z hu hmet => hkept u e z hu hmet.snoc⟩
  · rintro ⟨hd, hactive, hkept⟩
    refine ⟨hd, hactive, fun u e' z hu hmet => ?_⟩
    rcases hmet.of_snoc with hmet | ⟨hji, -⟩
    · exact hkept u e' z hu hmet
    · exact absurd hji hj

/-- The moment of the change itself: the scan stays if the notification is dropped. -/
theorem outlives_change (h : c.Coherent history i x) (hp : n.Names p) (hd : d.value.isAffectedBy p = true) :
    ((x.notify n).2.session.transient.scan = some d ∧ d.asOf < (c.run history).clock) ↔
      c.Outlives (history ++ [(i, .notify n)]) i (c.run history).clock d x := by
  have hlast : ∀ u e z, (c.run history).clock < u → ¬ c.Met (history ++ [(i, .notify n)]) i u e z := by
    intro u e z hu hmet
    rcases hmet.of_snoc with hmet | ⟨-, -, rfl, -⟩
    · exact absurd hmet.lt_clock (Nat.lt_asymm hu)
    · exact Nat.lt_irrefl _ hu
  have hheld : (x.notify n).2.session.transient.scan = some d → x.session.transient.scan = some d := fun hstill => by
    have hshift : Shift 0 x.holding (.notify n) (x.notify n).2.holding := Site.shift_notify n
    rcases scan_of_shift hshift hstill with hold | ⟨he, -⟩
    · exact hold
    · exact absurd rfl (he n)
  constructor
  · rintro ⟨hstill, hlt⟩
    have hkept := (Site.scan_notify 0 n (hheld hstill)).1 hstill
    refine ⟨hheld hstill, ?_, fun u e z hu hmet => absurd hmet (hlast u e z hu)⟩
    by_contra hidle
    exact hkept ⟨Bool.not_eq_true _ ▸ hidle, p, hp, hd⟩
  · rintro ⟨hold, hactive, -⟩
    refine ⟨(Site.scan_notify 0 n hold).2 ?_, (h.aged.scan d hold).1⟩
    rintro ⟨hidle, -⟩
    rw [hactive] at hidle
    contradiction

/-- Every later moment: a scan that the change affects cannot come in any more with an older date. -/
theorem outlives_own (h : c.Coherent history i x) (hx : (c.run history).site? i = some x)
    (hmet : c.Met history i t (.notify n) y) (hp : n.Names p) (hd : d.value.isAffectedBy p = true)
    (ih : x.session.transient.scan = some d ∧ d.asOf < t ↔ c.Outlives history i t d y) :
    ((x.step (c.run history).clock e).2.session.transient.scan = some d ∧ d.asOf < t) ↔
      c.Outlives (history ++ [(i, e)]) i t d y := by
  rw [outlives_snoc hx hmet.lt_clock, ← ih]
  have hshift : Shift (c.run history).clock x.holding e (x.step (c.run history).clock e).2.holding :=
    Site.shift_step h.numbered
  constructor
  · rintro ⟨hstill, hlt⟩
    have hold : x.session.transient.scan = some d := by
      rcases scan_of_shift hshift hstill with hold | ⟨-, id, hin, hnone⟩
      · exact hold
      -- a scan that has just come in: its scope is younger than the change, or has dropped it and filters the scan
      · rcases h.current.scopes id d.asOf hin t p ⟨n, y, hmet, hp⟩ with hyounger | ⟨-, r, hr, hrp⟩
        · exact absurd hlt (Nat.lt_asymm hyounger)
        · have hnone' := hnone r hr
          rw [AncestorScan.isAffectedBy_congr hrp, hd] at hnone'
          contradiction
    exact ⟨⟨hold, hlt⟩, (Site.scan_step h.numbered h.aged hold).1 hstill⟩
  · rintro ⟨⟨hold, hlt⟩, hkept⟩
    exact ⟨(Site.scan_step h.numbered h.aged hold).2 hkept, hlt⟩

/-- After every history, a scan that a notification may falsify and that is older than it is held exactly if it outlives
the notification. -/
theorem outlives_run {sessions : List Session} {connection : Watch.ConnectionId} {config : Config} {ticks : Nat}
    (hopened : sessions[i]? = some (Session.opened connection config ticks true))
    (hx : ((opened sessions).run history).site? i = some x)
    (hmet : (opened sessions).Met history i t (.notify n) y) (hp : n.Names p) (hd : d.value.isAffectedBy p = true) :
    x.session.transient.scan = some d ∧ d.asOf < t ↔ (opened sessions).Outlives history i t d y := by
  induction history using List.reverseRecOn generalizing x with
  | nil =>
    obtain ⟨before, after, hnil, -⟩ := hmet
    exact absurd hnil.symm (List.append_ne_nil_of_right_ne_nil _ (List.cons_ne_nil _ _))
  | append_singleton history f ih =>
    obtain ⟨j, e⟩ := f
    obtain ⟨z, hz, hcoherent⟩ := coherent_run hopened history
    rw [run_snoc] at hx
    by_cases hj : j = i
    · subst hj
      obtain rfl := Option.some.inj ((site?_step hz).symm.trans hx)
      -- the last event comes after the change, or is the change itself
      rcases hmet.of_snoc with hmet | ⟨-, rfl, rfl, hy⟩
      · exact outlives_own hcoherent hz hmet hp hd (ih hz hmet)
      · obtain rfl : z = y := Option.some.inj (hz.symm.trans hy)
        exact outlives_change hcoherent hp hd
    · obtain ⟨registry, hsame⟩ := site?_step_of_ne (e := e) hz hj
      obtain rfl := Option.some.inj (hsame.symm.trans hx)
      rcases hmet.of_snoc with hmet | ⟨hji, -⟩
      · rw [outlives_snoc_of_ne hj]
        exact ih (x := z) hz hmet
      · exact absurd hji hj

/-- An answer about a marker is that of a scan that is held, dated by the scope of its prefetch. A scan for the marker
`m` from before a change of that name is held exactly if the change was dropped in a scope while the scan was held, and
nothing has taken the scan away since. -/
theorem scan_older_than_change_iff {sessions : List Session} {connection : Watch.ConnectionId} {config : Config}
    {ticks : Nat} {m : String} (hopened : sessions[i]? = some (Session.opened connection config ticks true))
    (hx : ((opened sessions).run history).site? i = some x)
    (hmet : (opened sessions).Met history i t (.notify n) y) (hp : n.Names p) (hm : p.fileName? = some m) :
    (∀ q marker, x.session.transient.resolve q marker ≠ .unknown → ∃ d id, x.session.transient.scan = some d ∧
      d.value.resolve q marker = x.session.transient.resolve q marker ∧ (opened sessions).Entered history i d.asOf id) ∧
    ∀ d : Dated AncestorScan, m ∈ d.value.markers.map (·.1) →
      (x.session.transient.scan = some d ∧ d.asOf < t ↔ (opened sessions).Outlives history i t d y) := by
  obtain ⟨z, hz, hcoherent⟩ := coherent_run hopened history
  obtain rfl : x = z := Option.some.inj (hx.symm.trans hz)
  refine ⟨fun q marker hknown => ?_, fun d hmarker => ?_⟩
  · cases hd : x.session.transient.scan with
    | none =>
      unfold Transient.resolve at hknown
      rw [hd] at hknown
      contradiction
    | some d =>
      obtain ⟨id, hentered⟩ := hcoherent.sourced.scan d hd
      refine ⟨d, id, rfl, ?_, hentered⟩
      unfold Transient.resolve
      rw [hd]
  · exact outlives_run hopened hx hmet hp (AncestorScan.isAffectedBy_iff.2 ⟨m, hm, hmarker⟩)

/-! ## A prefetch that fails after one that has succeeded -/

/-- A session that scans for one marker and registers no watch. -/
def scanningSession : Session :=
  Session.opened 0 { prefetch := { ancestorMarkers := [".git"] }, watch := { autoRegister := false } } 1 true

/-- A client with that session only. -/
def scanningClient : Client := opened [scanningSession]

/-- A prefetch that finds the marker, and the beginning of a second one. -/
def scannedTwice : List (Nat × Event) := [
  (0, .launch (.prefetch ⟨"/repo"⟩)),
  (0, .settle 0 0 (.answered (.object ((ProbePlan.build ⟨"/repo"⟩ ".git").commands.map fun command =>
    (command.key, .object [("exit_code", .int 1)]))))),
  (0, .settle 0 0 (.answered (.object [(".git", .text "/repo")]))),
  (0, .launch (.prefetch ⟨"/repo"⟩))]

/-- A report that the directory with the marker's name has changed. -/
def markerChange : Rpc.Notification := ⟨"fs.changed", .object [("paths", .array [.text "/repo/.git"])]⟩

/-- The second prefetch drops the report and fails. -/
def scannedThenFailed : List (Nat × Event) :=
  scannedTwice ++ (0, .notify markerChange) :: [(0, .settle 1 0 (.failed "down"))]

theorem names_markerChange : markerChange.Names ⟨"/repo/.git"⟩ :=
  ⟨rfl, by decide +kernel, [⟨"/repo/.git"⟩], rfl, List.mem_singleton_self _⟩

/-- What is held in the end. -/
theorem held_scannedThenFailed :
    ∃ x ∈ (scanningClient.run scannedThenFailed).site? 0, x.session.suppression.active = false ∧
    (∃ d ∈ x.session.transient.scan, d.asOf < 4 ∧ ".git" ∈ d.value.markers.map (·.1)) ∧
    (x.session.transient.resolve ⟨"/repo/src/a.c"⟩ ".git").isPresent = true := by
  decide +kernel

/-- The scan of the first prefetch still answers after the scope that has dropped the change is closed. -/
theorem scan_older_than_change_of_failed_prefetch :
    scanningClient.Delivered scannedThenFailed 0 4 ⟨"/repo/.git"⟩ ∧
    ∃ x y d found, (scanningClient.run scannedThenFailed).site? 0 = some x ∧ x.session.suppression.active = false ∧
      x.session.transient.resolve ⟨"/repo/src/a.c"⟩ ".git" = .present found ∧
      x.session.transient.scan = some d ∧ d.asOf < 4 ∧ scanningClient.Outlives scannedThenFailed 0 4 d y := by
  have hopened : [scanningSession][0]? = some scanningSession := rfl
  obtain ⟨y, hy, -⟩ := coherent_run hopened scannedTwice
  have hpast : (scanningClient.run scannedTwice).clock = 4 := clock_run_eq_length hopened (by simp [scannedTwice])
  have hmet : scanningClient.Met scannedThenFailed 0 4 (.notify markerChange) y := ⟨_, _, rfl, hpast, hy⟩
  obtain ⟨x, hx, hidle, ⟨d, hd, hlt, hmarker⟩, hanswer⟩ := held_scannedThenFailed
  obtain ⟨found, hfound⟩ := MarkerAnswer.exists_of_isPresent hanswer
  have houtlives : scanningClient.Outlives scannedThenFailed 0 4 d y :=
    ((scan_older_than_change_iff hopened hx hmet names_markerChange (by decide +kernel)).2 d hmarker).1 ⟨hd, hlt⟩
  exact ⟨⟨markerChange, y, hmet, names_markerChange⟩, x, y, d, found, hx, hidle, hfound, hd, hlt, houtlives⟩

end RemoteFacts.Client
