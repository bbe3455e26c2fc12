import RemoteFacts.Proofs.Prefetch.Batch
import RemoteFacts.Proofs.Prefetch.Provenance
import RemoteFacts.Proofs.Session.Closed

/-!
# The one prefetch behind what is held

What the last prefetch left is kept in two places, a result and a scan, which are not always changed together.

* `Harvest.Level`, `Site.Level` : the result and the scan of a harvest are of one directory;
* `Site.Sealed` : a session that was closed while nothing was in flight begins nothing;
* `Client.Stems` : both are what one prefetch has left, and nothing has dropped or replaced it since;
* `transient_stems_from_one_prefetch` : so it is whenever a scan is held, after every history.
-/

namespace RemoteFacts

namespace PrefetchResult

theorem directory_foldl_sortIn (outputs : List (String × CommandOutput)) (split : PrefetchResult × List (Path × Bool)) :
    (outputs.foldl sortIn split).1.directory = split.1.directory := by
  induction outputs generalizing split with
  | nil => rfl
  | cons e outputs ih =>
    rw [List.foldl_cons, ih]
    unfold sortIn
    cases ProbeKey.parse e.1 with
    | command key => rfl
    | stateFile path => rfl

theorem directory_ofBatch (directory : Path) (outputs : List (String × CommandOutput)) :
    (ofBatch directory outputs).1.directory = directory :=
  directory_foldl_sortIn outputs (empty directory, [])

end PrefetchResult

namespace Session

variable {now : Nat} {x : Site} {id : FlightId} {s : Stage} {h : Harvest} {reply? : Option Rpc.Reply}
  {yp : Site × Progress} {e : Event}

/-! ## Directories -/

/-- What a prefetch has brought in is about its directory. -/
structure Harvest.Level (h : Harvest) : Prop where
  result : h.result.directory = h.directory
  scan : ∀ scan, h.scan = some scan → scan.directory = h.directory

theorem Stage.level_of_brings (hlevel : ∀ h, s.harvest? = some h → h.Level) (hb : s.Brings reply? h) : h.Level := by
  unfold Brings at hb
  split at hb
  · obtain ⟨r, outputs, -, -, rfl⟩ := hb
    refine ⟨PrefetchResult.directory_ofBatch _ outputs, fun scan hscan => ?_⟩
    contradiction
  · obtain ⟨r, -, rfl⟩ := hb
    refine ⟨(hlevel _ rfl).result, fun scan hscan => ?_⟩
    obtain ⟨markers, -, rfl⟩ := Option.map_eq_some_iff.1 hscan
    rfl
  · exact hb ▸ hlevel _ rfl
  · exact hb ▸ hlevel _ rfl
  · contradiction

namespace Site

/-- So is what the prefetches in flight have brought in. -/
def Level (x : Site) : Prop := ∀ id s h, x.stage? id = some s → s.harvest? = some h → h.Level

theorem Level.step (hlevel : x.Level) (hx : x.Numbered) : (x.step now e).2.Level := by
  intro id s' h hs' hh
  have hhost : s'.directory? ≠ none := by
    rw [Stage.directory?_of_harvest? hh]
    exact Option.some_ne_none _
  rcases comes_step hx hs' with hs | ⟨-, hcomes⟩
  · exact hlevel id s' h hs hh
  cases hcomes with
  | stay hs => exact hlevel id s' h hs hh
  | host hnone => exact absurd hnone hhost
  | atGate directory => contradiction
  | batch directory => contradiction
  | carry hs hb hbrought =>
    obtain rfl := Option.some.inj (hbrought.symm.trans hh)
    exact Stage.level_of_brings (fun h₀ => hlevel id _ h₀ hs) hb

theorem Commits.level (hcommits : x.Commits now e id h) (hlevel : x.Level) : h.Level := by
  obtain ⟨f, hf, hb, -⟩ := hcommits.told
  exact Stage.level_of_brings (fun h₀ => hlevel id _ h₀ (stage?_of_find? hf)) hb

/-! ## Closing -/

theorem closed_turn (hturn : Turn now id reply? x yp) : yp.1.session.closed = x.session.closed := by
  cases hturn <;> rfl

theorem closed_foldl_applyChange (paths : List Path) :
    (paths.foldl applyChange x).session.closed = x.session.closed := by
  induction paths generalizing x with
  | nil => rfl
  | cons p ps ih => exact ih (x := x.applyChange p)

theorem closed_notify (n : Rpc.Notification) : (x.notify n).2.session.closed = x.session.closed := by
  unfold notify
  split
  · rfl
  · split
    · rfl
    · exact closed_foldl_applyChange _

/-- Nothing but `close` closes a session. -/
theorem closed_step (hx : x.Numbered) (hclosed : (x.step now e).2.session.closed = true) :
    x.session.closed = true ∨ e = .close := by
  cases e with
  | launch operation =>
    have hstart : Start now operation x (x.launch now operation).2 := start_launch (hx.stage?_eq_none (Nat.le_refl _))
    have hsame : (x.launch now operation).2.1.session.closed = x.session.closed := by
      generalize (x.launch now operation).2 = yp at hstart
      cases hstart with
      | refused _ => rfl
      | @prefetch directory _ _ _ hturn =>
        exact closed_turn (x := x.joined operation (.atGate directory) x.session.suppression x.session.desk) hturn
      | @host stage _ _ _ _ hturn => exact closed_turn (x := (x.enlist operation stage).2) hturn
      | atOnce _ _ _ _ => rfl
    exact Or.inl (hsame.symm.trans hclosed)
  | settle id slot reply =>
    have hturn : Turn now id (heard? slot reply) x (x.settle now id slot reply) := turn_settle
    exact Or.inl ((closed_turn hturn).symm.trans hclosed)
  | proceed id =>
    have hturn : Turn now id none x (x.proceed now id) := turn_proceed
    exact Or.inl ((closed_turn hturn).symm.trans hclosed)
  | abandon id =>
    have hsame : (x.abandon id).session.closed = x.session.closed := by
      unfold abandon
      split
      · rfl
      · split <;> rfl
    exact Or.inl (hsame.symm.trans hclosed)
  | notify n => exact Or.inl ((closed_notify n).symm.trans hclosed)
  | enterScope =>
    have hsame : x.enterHostScope.2.session.closed = x.session.closed := by
      unfold enterHostScope
      split <;> rfl
    exact Or.inl (hsame.symm.trans hclosed)
  | leaveScope =>
    have hsame : x.leaveHostScope.2.session.closed = x.session.closed := by
      unfold leaveHostScope
      split <;> rfl
    exact Or.inl (hsame.symm.trans hclosed)
  | close => exact Or.inr rfl
  | _ => exact Or.inl hclosed

theorem flights_eq_nil_iff : x.session.flights = [] ↔ ∀ id, x.stage? id = none := by
  constructor
  · intro hnone id
    rw [stage?, flight?, hnone]
    rfl
  · intro hnone
    refine List.eq_nil_iff_forall_not_mem.2 fun f hf => ?_
    have hsome : (x.flight? f.id).isSome = true := List.find?_isSome.2 ⟨f, hf, beq_self_eq_true _⟩
    have hnone := hnone f.id
    rw [stage?, Option.map_eq_none_iff] at hnone
    rw [hnone] at hsome
    contradiction

/-- Nothing is in flight if the session is closed. -/
def Sealed (x : Site) : Prop := x.session.closed = true → x.session.flights = []

/-- A session that is closed only when nothing is in flight has nothing in flight ever after. -/
theorem Sealed.step (hsealed : x.Sealed) (hx : x.Numbered) (hrest : e = .close → x.session.flights = []) :
    (x.step now e).2.Sealed := by
  intro hclosed
  rcases closed_step hx hclosed with hclosed | rfl
  · have hnone := flights_eq_nil_iff.1 (hsealed hclosed)
    refine flights_eq_nil_iff.2 fun id => ?_
    by_contra hsome
    have hthere := stage?_of_closed hx hclosed (Option.isSome_iff_ne_none.2 hsome)
    rw [hnone id] at hthere
    contradiction
  · exact sameTable_close.flights.trans (hrest rfl)

end Site

end Session

/-! ## Histories -/

namespace Client

open Session

variable {c : Client} {i t : Nat} {id : FlightId} {h : Harvest} {e : Event} {x y : Site} {held : Transient}
  {history : List (Nat × Event)}

/-- What is held was left by the prefetch `id`, which at the moment `t` has met `e` in `y` and ended well with the
harvest `h`. Since then nothing has dropped it, no prefetch has ended well, and if the session is closed it was closed
before. -/
structure Stems (c : Client) (history : List (Nat × Event)) (i t : Nat) (e : Event) (y : Site) (id : FlightId)
    (h : Harvest) (held : Transient) : Prop where
  met : c.Met history i t e y
  commits : y.Commits t e id h
  result : held.result = some ⟨h.since, h.result⟩
  scan : ∀ d, held.scan = some d → d.asOf = h.since ∧ h.scan = some d.value
  level : h.Level
  asked : ∃ f, y.flight? id = some f ∧ f.operation.directory? = some h.directory
  since : ∀ u e' z, t < u → c.Met history i u e' z →
    ¬ z.Clears e' ∧ (∀ id' h', ¬ z.Commits u e' id' h') ∧ (z.session.closed = true → y.session.closed = true)

/-- Nothing is held, or it stems from one prefetch. -/
def Held (c : Client) (history : List (Nat × Event)) (i : Nat) (x : Site) : Prop :=
  (x.session.transient.result = none ∧ x.session.transient.scan = none) ∨ ∃ t e y id h,
    c.Stems history i t e y id h x.session.transient ∧ (x.session.closed = true → y.session.closed = true)

theorem Stems.other {j : Nat} (hj : j ≠ i) (hstems : c.Stems history i t e y id h held) (e' : Event) :
    c.Stems (history ++ [(j, e')]) i t e y id h held := by
  refine ⟨hstems.met.snoc, hstems.commits, hstems.result, hstems.scan, hstems.level, hstems.asked,
    fun u e'' z hu hmet => ?_⟩
  rcases hmet.of_snoc with hmet | ⟨hji, -⟩
  · exact hstems.since u e'' z hu hmet
  · exact absurd hji hj

/-- What is left now has been left by nothing else. -/
theorem stems_of_commits (hx : (c.run history).site? i = some x) (hcommits : x.Commits (c.run history).clock e id h)
    (hlevel : x.Level) (hassigned : x.Assigned) :
    c.Stems (history ++ [(i, e)]) i (c.run history).clock e x id h (x.holding.left h) := by
  refine ⟨met_last hx, hcommits, rfl, fun d hd => ?_, hcommits.level hlevel, ?_, fun u e' z hu hmet => ?_⟩
  · obtain ⟨scan, hscan, rfl⟩ := Option.map_eq_some_iff.1 hd
    exact ⟨rfl, (Option.filter_eq_some_iff.1 hscan).1⟩
  · obtain ⟨f, hf, hb, -⟩ := hcommits.told
    exact ⟨f, hf, (hassigned id f hf).trans (Stage.directory?_of_brings hb)⟩
  · rcases hmet.of_snoc with hmet | ⟨-, -, rfl, -⟩
    · exact absurd hmet.lt_clock (Nat.lt_asymm hu)
    · exact absurd hu (Nat.lt_irrefl _)

/-- What an event keeps stems from where it did. -/
theorem Stems.keep (hstems : c.Stems history i t e y id h x.session.transient) (horder : c.InOrder history x)
    (hx : (c.run history).site? i = some x) (hsealed : x.session.closed = true → y.session.closed = true) {e' : Event}
    (hno : ¬ x.Clears e')
    (hresult : (x.step (c.run history).clock e').2.session.transient.result = x.session.transient.result)
    (hscan : ∀ d, (x.step (c.run history).clock e').2.session.transient.scan = some d →
      x.session.transient.scan = some d) :
    c.Stems (history ++ [(i, e')]) i t e y id h (x.step (c.run history).clock e').2.session.transient := by
  -- a prefetch that ends well would leave a result that is younger than the one that is held
  have hnone : ∀ id' h', ¬ x.Commits (c.run history).clock e' id' h' := by
    intro id' h' hcommits
    have hnew := congrArg Transient.result hcommits.left
    exact absurd ((horder.aged.result _ (hresult.symm.trans hnew)).2 id' h'.since hcommits.since?) (Nat.lt_irrefl _)
  refine ⟨hstems.met.snoc, hstems.commits, hresult.trans hstems.result, fun d hd => hstems.scan d (hscan d hd),
    hstems.level, hstems.asked, fun u e'' z hu hmet => ?_⟩
  rcases hmet.of_snoc with hmet | ⟨-, rfl, rfl, hz⟩
  · exact hstems.since u e'' z hu hmet
  · obtain rfl : x = z := Option.some.inj (hx.symm.trans hz)
    exact ⟨hno, hnone, hsealed⟩

/-- Every event keeps it so. -/
theorem Held.step (hheld : c.Held history i x) (hprovided : c.Provided history i x) (hlevel : x.Level)
    (hx : (c.run history).site? i = some x) :
    c.Held (history ++ [(i, e)]) i (x.step (c.run history).clock e).2 := by
  have hclosed : ¬ x.Clears e → (x.step (c.run history).clock e).2.session.closed = true → x.session.closed = true := by
    intro hno hclosed
    rcases Site.closed_step hprovided.numbered hclosed with hclosed | rfl
    · exact hclosed
    · exact Bool.not_eq_false _ ▸ hno
  have hleaves : Site.Leaves (c.run history).clock e x (x.step (c.run history).clock e).2.session.transient :=
    Site.leaves_step hprovided.numbered
  generalize hleft : (x.step (c.run history).clock e).2.session.transient = left at hleaves
  unfold Held
  rw [hleft]
  cases hleaves with
  | keep hno hresult hscan =>
    rcases hheld with ⟨hnoResult, hnoScan⟩ | ⟨t, e', y, id, h, hstems, hsealed⟩
    · refine Or.inl ⟨hresult.trans hnoResult, Option.eq_none_iff_forall_ne_some.2 fun d hd => ?_⟩
      have hold := hscan d hd
      rw [hnoScan] at hold
      contradiction
    · refine Or.inr ⟨t, e', y, id, h, ?_, fun h => hsealed (hclosed hno h)⟩
      subst hleft
      exact hstems.keep hprovided.toInOrder hx hsealed hno hresult hscan
  | clear _ => exact Or.inl ⟨rfl, rfl⟩
  | commit hcommits =>
    refine Or.inr ⟨_, _, _, _, _, stems_of_commits hx hcommits hlevel hprovided.assigned, hclosed fun hclears => ?_⟩
    cases e with
    | settle id slot reply => exact hclears
    | proceed id => exact hclears
    | launch operation => exact hclears
    | abandon id => exact hclears
    | _ =>
      have hmover := hcommits.mover
      contradiction

variable {sessions : List Session} {connection : Watch.ConnectionId} {config : Config} {ticks : Nat}
    {flushesOnLeave : Bool}

theorem held_run (hopened : sessions[i]? = some (Session.opened connection config ticks flushesOnLeave))
    (history : List (Nat × Event)) :
    ∃ x, ((opened sessions).run history).site? i = some x ∧ x.Level ∧ (opened sessions).Held history i x := by
  have hstart : (opened sessions).site? i = some ⟨Session.opened connection config ticks flushesOnLeave, .empty⟩ := by
    rw [site?, opened, hopened]
    rfl
  let P : List (Nat × Event) → Site → Prop := fun history x => x.Level ∧ (opened sessions).Held history i x
  have hinit : P [] ⟨Session.opened connection config ticks flushesOnLeave, .empty⟩ := by
    refine ⟨fun id s h hs _ => ?_, Or.inl ⟨rfl, rfl⟩⟩
    contradiction
  have hown : ∀ history x e, ((opened sessions).run history).site? i = some x → P history x →
      P (history ++ [(i, e)]) (x.step ((opened sessions).run history).clock e).2 := by
    rintro history x e hx ⟨hlevel, hheld⟩
    obtain ⟨z, hz, hprovided⟩ := provided_run hopened history
    obtain rfl : x = z := Option.some.inj (hx.symm.trans hz)
    exact ⟨hlevel.step hprovided.numbered, hheld.step hprovided hlevel hx⟩
  have hother : ∀ history x j e registry, j ≠ i → P history x → P (history ++ [(j, e)]) { x with registry } := by
    rintro history x j e registry hj ⟨hlevel, hheld⟩
    refine ⟨hlevel, hheld.imp_right ?_⟩
    rintro ⟨t, e', y, id, h, hstems, hsealed⟩
    exact ⟨t, e', y, id, h, hstems.other hj e, hsealed⟩
  exact run_invariant (P := P) hstart hinit hown hother

/-- If the host closes the session only when nothing is in flight, nothing is in flight once it is closed. -/
theorem sealed_run (hopened : sessions[i]? = some (Session.opened connection config ticks flushesOnLeave))
    (hrest : ∀ u z, (opened sessions).Met history i u .close z → z.session.flights = []) :
    ∃ x, ((opened sessions).run history).site? i = some x ∧ x.Sealed := by
  have hstart : (opened sessions).site? i = some ⟨Session.opened connection config ticks flushesOnLeave, .empty⟩ := by
    rw [site?, opened, hopened]
    rfl
  let P : List (Nat × Event) → Site → Prop := fun history x =>
    (∀ u z, (opened sessions).Met history i u .close z → z.session.flights = []) → x.Sealed
  have hown : ∀ history x e, ((opened sessions).run history).site? i = some x → P history x →
      P (history ++ [(i, e)]) (x.step ((opened sessions).run history).clock e).2 := by
    intro history x e hx hsealed hrest
    obtain ⟨z, hz, hnumbered, -⟩ := opened_run hopened history
    obtain rfl : x = z := Option.some.inj (hx.symm.trans hz)
    refine (hsealed fun u z hmet => hrest u z hmet.snoc).step hnumbered ?_
    rintro rfl
    exact hrest _ x (met_last hx)
  have hother : ∀ history x j e registry, j ≠ i → P history x → P (history ++ [(j, e)]) { x with registry } :=
    fun history x j e registry _ hsealed hrest => hsealed fun u z hmet => hrest u z hmet.snoc
  obtain ⟨x, hx, hsealed⟩ := run_invariant (P := P) hstart (fun _ _ => rfl) hown hother
  exact ⟨x, hx, hsealed hrest⟩

/-- A prefetch that ends well in a session that is closed only when nothing is in flight ends before it is closed. -/
theorem Stems.open_of_rest (hopened : sessions[i]? = some (Session.opened connection config ticks flushesOnLeave))
    (hstems : (opened sessions).Stems history i t e y id h held)
    (hrest : ∀ u z, (opened sessions).Met history i u .close z → z.session.flights = []) :
    y.session.closed = false := by
  obtain ⟨before, after, rfl, -, hy⟩ := hstems.met
  have hrestBefore : ∀ u z, (opened sessions).Met before i u .close z → z.session.flights = [] :=
    fun u z hmet => hrest u z (hmet.append _)
  obtain ⟨z, hz, hsealed⟩ := sealed_run hopened hrestBefore
  obtain rfl : y = z := Option.some.inj (hy.symm.trans hz)
  obtain ⟨f, hf, -⟩ := hstems.commits.told
  by_contra hclosed
  have hnone := Site.flights_eq_nil_iff.1 (hsealed (Bool.not_eq_false _ ▸ hclosed)) id
  rw [Site.stage?_of_find? hf] at hnone
  contradiction

/-- Whenever a scan is held, after whatever history, a result is held too: both were left by one prefetch, which ended
well, and are of its directory. Since then no other prefetch has ended well, nothing has been released or flushed, and
what closing there was has met a session that was closed already. If the host closes a session only when nothing is in
flight, as it does when it takes one operation at a time, then there was none. -/
theorem transient_stems_from_one_prefetch
    (hopened : sessions[i]? = some (Session.opened connection config ticks flushesOnLeave))
    (hx : ((opened sessions).run history).site? i = some x) {d : Dated AncestorScan}
    (hscan : x.session.transient.scan = some d) :
    ∃ t e y id h, (opened sessions).Met history i t e y ∧ y.Commits t e id h ∧
      (∃ f, y.flight? id = some f ∧ f.operation.directory? = some h.directory) ∧
      x.session.transient.result = some ⟨h.since, h.result⟩ ∧ d.asOf = h.since ∧ h.scan = some d.value ∧
      h.result.directory = h.directory ∧ d.value.directory = h.directory ∧
      (∀ u e' z, t < u → (opened sessions).Met history i u e' z → (∀ id' h', ¬ z.Commits u e' id' h') ∧
        e' ≠ .release ∧ e' ≠ .flush ∧ (e' = .close → z.session.closed = true)) ∧
      ((∀ u z, (opened sessions).Met history i u .close z → z.session.flights = []) →
        ∀ u z, t < u → ¬ (opened sessions).Met history i u .close z) := by
  obtain ⟨z, hz, -, hheld⟩ := held_run hopened history
  obtain rfl : x = z := Option.some.inj (hx.symm.trans hz)
  rcases hheld with ⟨-, hnone⟩ | ⟨t, e, y, id, h, hstems, -⟩
  · rw [hscan] at hnone
    contradiction
  obtain ⟨hasOf, hvalue⟩ := hstems.scan d hscan
  have hclosed : ∀ u z, t < u → (opened sessions).Met history i u .close z → z.session.closed = true :=
    fun u z hu hmet => Bool.not_eq_false _ ▸ (hstems.since u .close z hu hmet).1
  refine ⟨t, e, y, id, h, hstems.met, hstems.commits, hstems.asked, hstems.result, hasOf, hvalue, hstems.level.result,
    hstems.level.scan _ hvalue, fun u e' z hu hmet => ⟨(hstems.since u e' z hu hmet).2.1, ?_, ?_, ?_⟩, ?_⟩
  · rintro rfl
    exact (hstems.since u .release z hu hmet).1 trivial
  · rintro rfl
    exact (hstems.since u .flush z hu hmet).1 trivial
  · rintro rfl
    exact hclosed u z hu hmet
  · intro hrest u z hu hmet
    have hopen := hstems.open_of_rest hopened hrest
    rw [(hstems.since u .close z hu hmet).2.2 (hclosed u z hu hmet)] at hopen
    contradiction

/-- After a prefetch that has found a marker and a second one that has failed, with no closing at all. -/
theorem transient_stems_from_one_prefetch_of_two :
    ∃ x d, (scanningClient.run scannedThenFailed).site? 0 = some x ∧ x.session.transient.scan = some d ∧
      ∃ t e y id h, scanningClient.Met scannedThenFailed 0 t e y ∧ y.Commits t e id h ∧
        x.session.transient.result = some ⟨h.since, h.result⟩ ∧ d.value.directory = h.result.directory ∧
        ∀ u z, t < u → ¬ scanningClient.Met scannedThenFailed 0 u .close z := by
  have hopened : [scanningSession][0]? = some scanningSession := rfl
  obtain ⟨x, hx, -, ⟨d, hd, -⟩, -⟩ := held_scannedThenFailed
  obtain ⟨t, e, y, id, h, hmet, hcommits, -, hresult, -, -, hasked, hscanned, -, hrest⟩ :=
    transient_stems_from_one_prefetch hopened hx hd
  refine ⟨x, d, hx, hd, t, e, y, id, h, hmet, hcommits, hresult, hscanned.trans hasked.symm, hrest fun u z hclose => ?_⟩
  have hnever : (0, Event.close) ∉ scannedThenFailed := by simp [scannedThenFailed, scannedTwice]
  exact absurd hclose.mem hnever

end Client

end RemoteFacts
