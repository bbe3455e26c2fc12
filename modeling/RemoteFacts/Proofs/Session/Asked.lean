import RemoteFacts.Proofs.Session.Table
import RemoteFacts.Proofs.Watch.Belief

/-!
# What operations ask for, and what the answers do to the watches

* `Stage.asked?`, `Site.asked?` : the calls that an operation waits for;
* `Site.Fits` : a request agrees with what is believed of the watches;
* `Goes` : an operation that goes on waits for just what it has sent, has sent what fits, and leaves the watches alone
  (`goes_proceed`, `goes_launch`, …);
* `Settles`, `settles_settle` : so it does when a call of its has ended, but for what the end of this call does to the
  registry.
-/

namespace RemoteFacts.Session

/-- The call in a slot of an operation that waits here. -/
def Stage.asked? (config : Config) : Stage → Nat → Option Rpc.Request
  | batch _ _ commands, 0 => some (.runParallel commands)
  | scan h, 0 =>
    some (.scanAncestors h.directory config.prefetch.ancestorMarkers config.prefetch.ancestorMaxDepth)
  | adding path _, 0 => some (.watchAdd path config.watch.recursive)
  | removing path, 0 => some (.watchRemove path)
  | removingAll calls, slot =>
    match calls[slot]? with
    | some (path, none) => some (.watchRemove path)
    | _ => none
  | listing, 0 => some .watchList
  | _, _ => none

namespace Site

variable {x y : Site} {now slot : Nat} {id : FlightId} {stage : Stage} {path : Path} {purpose : Purpose} {h : Harvest}
  {reply : Rpc.Reply} {yp : Site × Progress}

/-- The call in a slot of the operation `id`. -/
def asked? (id : FlightId) (x : Site) (slot : Nat) : Option Rpc.Request :=
  (x.stage? id).bind fun stage => stage.asked? x.session.config slot

theorem asked?_of_stage? (hs : x.stage? id = some stage) : x.asked? id slot = stage.asked? x.session.config slot := by
  rw [asked?, hs]
  rfl

theorem asked?_of_none (hs : x.stage? id = none) : x.asked? id slot = none := by
  rw [asked?, hs]
  rfl

theorem asked?_wait (hs : (x.stage? id).isSome = true) :
    (x.wait id stage).asked? id slot = stage.asked? x.session.config slot :=
  asked?_of_stage? (stage?_wait_self hs)

/-- The request is for a watch that is not believed to be there, or for the end of one that is. -/
def Fits (x : Site) : Rpc.Request → Prop
  | .watchAdd path _ => path.parts ∉ x.registry.believed x.session.id
  | .watchRemove path => path.parts ∈ x.registry.believed x.session.id
  | _ => True

theorem fits_nil : ∀ call ∈ ([] : List (Nat × Rpc.Request)), x.Fits call.2 := by
  simp

/-! ## Going on -/

/-- From `x` the operation `id` has come to wait for just what it has sent. All of that fits, and it has left the
watches as they were. -/
structure Goes (id : FlightId) (x : Site) (yp : Site × Progress) : Prop where
  asked? : ∀ slot, yp.1.asked? id slot = yp.2.sent.lookup slot
  registry : yp.1.registry = x.registry
  fits : ∀ call ∈ yp.2.sent, x.Fits call.2

/-- Where an operation starts from does not matter but for the watches. -/
theorem Goes.of_same (h : Goes id y yp) (hregistry : y.registry = x.registry) (hid : y.session.id = x.session.id) :
    Goes id x yp where
  asked? := h.asked?
  registry := h.registry.trans hregistry
  fits call hcall := by
    have hfits := h.fits call hcall
    unfold Fits at hfits ⊢
    rwa [hregistry, hid] at hfits

theorem goes_finish {outcome : Outcome} : Goes id x (x.finish id outcome) where
  asked? slot := asked?_of_none (by rw [finish, stage?_remove, if_pos rfl])
  registry := rfl
  fits := fits_nil

theorem goes_giveUp {e : Error} : Goes id x (x.giveUp id e) := goes_finish.of_same rfl rfl

theorem goes_commit : Goes id x (x.commit now id h) := goes_finish.of_same rfl rfl

/-- An operation asks for one thing and waits for that. -/
theorem goes_asking {request : Rpc.Request} (hs : (x.stage? id).isSome = true)
    (hask : stage.asked? x.session.config 0 = some request) (honly : ∀ n, stage.asked? x.session.config (n + 1) = none)
    (hfits : x.Fits request) : Goes id x (x.wait id stage, .asking request) where
  asked? slot := by
    rw [asked?_wait hs]
    cases slot with
    | zero => exact hask
    | succ n => exact honly n
  registry := rfl
  fits call hcall := by
    rw [List.mem_singleton.1 hcall]
    exact hfits

theorem goes_leaveDesk {result : Except Error Bool} : Goes id x (x.leaveDesk now id purpose result) := by
  cases purpose with
  | host => exact goes_finish.of_same rfl rfl
  | root h => exact goes_commit.of_same rfl rfl

theorem sent_leaveDesk {result : Except Error Bool} : (x.leaveDesk now id purpose result).2.sent = [] := by
  cases purpose with
  | host => rfl
  | root h => rfl

theorem goes_requestWatch (hs : (x.stage? id).isSome = true) : Goes id x (x.requestWatch now id path purpose) := by
  unfold requestWatch
  split
  · exact goes_leaveDesk
  · next hnew =>
    refine goes_asking hs rfl (fun _ => rfl) ?_
    rwa [Watch.Registry.isWatched_iff] at hnew

theorem goes_openBatch {directory : Path} (hs : (x.stage? id).isSome = true) :
    Goes id x (x.openBatch now id directory) := by
  unfold openBatch
  split
  · exact goes_finish
  · refine Goes.of_same (goes_asking ?_ rfl (fun _ => rfl) trivial) rfl rfl
    exact hs

theorem goes_proceed (hnone : ∀ slot, x.asked? id slot = none) : Goes id x (x.proceed now id) := by
  have hrest : Goes id x (x, .waiting) := ⟨hnone, rfl, fits_nil⟩
  unfold proceed
  split
  · next hs =>
    split
    · exact goes_openBatch (Option.isSome_of_eq_some hs)
    · exact hrest
  · next hs =>
    split
    · exact goes_requestWatch (Option.isSome_of_eq_some hs)
    · exact hrest
  · next hs =>
    split
    · exact goes_asking (Option.isSome_of_eq_some hs) rfl (fun _ => rfl) trivial
    · exact hrest
  · exact hrest

/-- Only operations that wait in a queue, and so for no call, take a turn. -/
theorem proceed_eq_or_asked? (now : Nat) (id : FlightId) (x : Site) :
    x.proceed now id = (x, .waiting) ∨ ∀ slot, x.asked? id slot = none := by
  unfold proceed
  split
  · next hs => exact Or.inr fun _ => asked?_of_stage? hs
  · next hs => exact Or.inr fun _ => asked?_of_stage? hs
  · next hs => exact Or.inr fun _ => asked?_of_stage? hs
  · exact Or.inl rfl

/-- An operation that looks whether its turn has come waits for what it did and for what it has sent. -/
theorem asked?_proceed (slot : Nat) : (x.proceed now id).1.asked? id slot =
    ((x.proceed now id).2.sent.lookup slot).or (x.asked? id slot) := by
  rcases proceed_eq_or_asked? now id x with hstay | hnone
  · rw [hstay]
    rfl
  · rw [hnone, Option.or_none]
    exact (goes_proceed hnone).asked? slot

theorem registry_proceed : (x.proceed now id).1.registry = x.registry := by
  rcases proceed_eq_or_asked? now id x with hstay | hnone
  · rw [hstay]
  · exact (goes_proceed hnone).registry

theorem fits_proceed : ∀ call ∈ (x.proceed now id).2.sent, x.Fits call.2 := by
  rcases proceed_eq_or_asked? now id x with hstay | hnone
  · rw [hstay]
    exact fits_nil
  · exact (goes_proceed hnone).fits

theorem goes_queueAtDesk (hs : (x.stage? id).isSome = true)
    (hqueued : ∀ slot, stage.asked? x.session.config slot = none) : Goes id x (x.queueAtDesk now id stage) := by
  unfold queueAtDesk
  refine Goes.of_same (goes_proceed fun slot => ?_) rfl rfl
  have hstage : (x.wait id stage).asked? id slot = none := (asked?_wait hs).trans (hqueued slot)
  exact hstage

theorem goes_seekRoot (hs : (x.stage? id).isSome = true) : Goes id x (x.seekRoot now id h) := by
  unfold seekRoot
  split
  · split
    · exact goes_queueAtDesk hs fun _ => rfl
    · exact goes_commit
  · exact goes_commit

theorem goes_takeOutputs {directory : Path} {since : Nat} {outputs : List (String × CommandOutput)}
    (hs : (x.stage? id).isSome = true) : Goes id x (x.takeOutputs now id directory since outputs) := by
  unfold takeOutputs
  dsimp only
  split
  · exact goes_seekRoot hs
  · next hmarkers => exact goes_asking hs rfl (fun _ => rfl) trivial

/-! ## The end of a call -/

/-- From `x`, when the call in `slot` of the operation `id` has ended with `reply`, the operation has come to wait for
the others and for what it has sent. All of that fits, and of the registry has become what the end of the call makes of
it. -/
structure Settles (now : Nat) (id : FlightId) (slot : Nat) (reply : Rpc.Reply) (x : Site) (yp : Site × Progress) :
    Prop where
  asked? : ∀ other,
    yp.1.asked? id other = (yp.2.sent.lookup other).or (if other = slot then none else x.asked? id other)
  registry : yp.1.registry = match x.asked? id slot with
    | some request => x.registry.heed x.session.id now request reply
    | none => x.registry
  fits : ∀ call ∈ yp.2.sent, x.Fits call.2

/-- Where there is no such call, nothing happens. -/
theorem settles_of_none (hnone : x.asked? id slot = none) : Settles now id slot reply x (x, .waiting) where
  asked? other := by
    show _ = (if other = slot then none else x.asked? id other)
    split
    · next hsame => rw [hsame, hnone]
    · rfl
  registry := by rw [hnone]
  fits := fits_nil

/-- After its only call an operation goes on from a site with the registry that the end of the call has made. -/
theorem settles_of_goes {request : Rpc.Request} (hs : x.stage? id = some stage)
    (hask : stage.asked? x.session.config 0 = some request) (honly : ∀ n, stage.asked? x.session.config (n + 1) = none)
    (hregistry : y.registry = x.registry.heed x.session.id now request reply) (hgoes : Goes id y yp)
    (hfits : ∀ call ∈ yp.2.sent, x.Fits call.2) : Settles now id 0 reply x yp where
  asked? other := by
    have hothers : (if other = 0 then none else x.asked? id other) = none := by
      cases other with
      | zero => rfl
      | succ n => rw [if_neg (Nat.succ_ne_zero n), asked?_of_stage? hs, honly]
    rw [hothers, Option.or_none, hgoes.asked?]
  registry := by
    rw [asked?_of_stage? hs, hask, hgoes.registry]
    exact hregistry
  fits := hfits

theorem asked?_removingAll_set {calls : List (Path × Option Bool)} {config : Config} {answer : Bool} (other : Nat) :
    (Stage.removingAll (calls.set slot (path, some answer))).asked? config other =
      if other = slot then none else (Stage.removingAll calls).asked? config other := by
  simp only [Stage.asked?, List.getElem?_set]
  by_cases hsame : slot = other
  · subst hsame
    by_cases hlt : slot < calls.length
    · simp [hlt]
    · simp [hlt]
  · rw [if_neg hsame, if_neg (Ne.symm hsame)]

theorem asked?_removingAll_of_all {calls : List (Path × Option Bool)} {config : Config}
    (hall : calls.all (·.2.isSome) = true) (other : Nat) : (Stage.removingAll calls).asked? config other = none := by
  simp only [Stage.asked?]
  split
  · next path hcall =>
    have hanswered := List.all_eq_true.1 hall _ (List.mem_of_getElem? hcall)
    contradiction
  · rfl

/-- A watch is dropped by heeding the end of the call that asked for it. -/
theorem dropWatch_eq_heed (now : Nat) (path : Path) (reply : Rpc.Reply) (x : Site) :
    (if (reply.flag (Rpc.Request.watchRemove path).method).isOk then x.dropWatch path else x) =
      { x with registry := x.registry.heed x.session.id now (.watchRemove path) reply } := by
  unfold Watch.Registry.heed
  dsimp only
  split
  · rfl
  · rfl

theorem settles_takeRemoval {calls : List (Path × Option Bool)} (hs : x.stage? id = some (.removingAll calls)) :
    Settles now id slot reply x (x.takeRemoval id calls slot reply) := by
  unfold takeRemoval
  split
  · next path hcall =>
    have hasked : x.asked? id slot = some (.watchRemove path) := by rw [asked?_of_stage? hs, Stage.asked?, hcall]
    dsimp only
    rw [dropWatch_eq_heed now path reply x]
    split
    · next hall =>
      refine ⟨fun other => ?_, by rw [hasked]; rfl, fits_nil⟩
      rw [goes_finish.asked?, asked?_of_stage? hs, ← asked?_removingAll_set, asked?_removingAll_of_all hall]
      rfl
    · refine ⟨fun other => ?_, by rw [hasked]; rfl, fits_nil⟩
      refine (asked?_wait (Option.isSome_of_eq_some hs)).trans ?_
      rw [asked?_removingAll_set, asked?_of_stage? hs]
      rfl
  · next hnone =>
    refine settles_of_none ?_
    rw [asked?_of_stage? hs, Stage.asked?]
    split
    · next path hcall => exact absurd hcall (hnone path)
    · rfl

theorem settles_settle : Settles now id slot reply x (x.settle now id slot reply) := by
  unfold settle
  split
  · next hs => exact settles_takeRemoval hs
  · next directory since commands hs =>
    have hkeep : x.registry = x.registry.heed x.session.id now (.runParallel commands) reply := rfl
    split
    · exact settles_of_goes hs rfl (fun _ => rfl) hkeep goes_giveUp fits_nil
    · next outputs _ =>
      have hgoes : Goes id x (x.takeOutputs now id directory since outputs) :=
        goes_takeOutputs (Option.isSome_of_eq_some hs)
      exact settles_of_goes hs rfl (fun _ => rfl) hkeep hgoes hgoes.fits
  · next h hs =>
    have hgoes :
        Goes id x (x.seekRoot now id { h with scan := reply.markers.toOption.map (AncestorScan.mk h.directory) }) :=
      goes_seekRoot (Option.isSome_of_eq_some hs)
    exact settles_of_goes hs rfl (fun _ => rfl) rfl hgoes hgoes.fits
  · next path purpose hs =>
    refine settles_of_goes hs rfl (fun _ => rfl) ?_ goes_leaveDesk ?_
    · simp only [Watch.Registry.heed]
      generalize reply.flag (Rpc.Request.watchAdd path true).method = result
      cases result with
      | error e => rfl
      | ok accepted =>
        cases accepted with
        | true => rfl
        | false => rfl
    · rw [sent_leaveDesk]
      exact fits_nil
  · next path hs =>
    split
    · next he =>
      refine settles_of_goes hs rfl (fun _ => rfl) ?_ goes_finish fits_nil
      simp only [Watch.Registry.heed, he]
      rfl
    · next hr =>
      refine settles_of_goes hs rfl (fun _ => rfl) ?_ goes_finish fits_nil
      simp only [Watch.Registry.heed, hr]
      rfl
  · next hs =>
    split
    · next he =>
      refine settles_of_goes hs rfl (fun _ => rfl) ?_ goes_finish fits_nil
      simp only [Watch.Registry.heed, he]
    · next hr =>
      refine settles_of_goes hs rfl (fun _ => rfl) ?_ goes_finish fits_nil
      simp only [Watch.Registry.heed, hr]
  · next hall hbatch hscan hadding hremoving hlisting =>
    refine settles_of_none ?_
    cases hs : x.stage? id with
    | none => exact asked?_of_none hs
    | some stage =>
      rw [asked?_of_stage? hs]
      unfold Stage.asked?
      split
      · exact (hbatch _ _ _ hs rfl).elim
      · exact (hscan _ hs rfl).elim
      · exact (hadding _ _ hs rfl).elim
      · exact (hremoving _ hs rfl).elim
      · exact (hall _ hs).elim
      · exact (hlisting hs rfl).elim
      · rfl

/-! ## Beginning -/

/-- An operation has been refused or has nothing to do. -/
theorem goes_nowhere {outcome? : Option Outcome} (hnew : x.stage? x.session.next = none) :
    Goes x.session.next x (x, ⟨[], outcome?⟩) where
  asked? _ := asked?_of_none hnew
  registry := rfl
  fits := fits_nil

/-- An operation begins by sending something. -/
theorem goes_enlist {operation : Operation} {sent : List (Nat × Rpc.Request)} (hnew : x.stage? x.session.next = none)
    (hask : ∀ slot, stage.asked? x.session.config slot = sent.lookup slot) (hfits : ∀ call ∈ sent, x.Fits call.2) :
    Goes x.session.next x ((x.enlist operation stage).2, ⟨sent, none⟩) where
  asked? slot := by
    have hs : (x.enlist operation stage).2.stage? x.session.next = some stage := by rw [stage?_enlist hnew, if_pos rfl]
    rw [asked?_of_stage? hs]
    exact hask slot
  registry := rfl
  fits := hfits

theorem goes_enlist_queued {operation : Operation} (hnew : x.stage? x.session.next = none)
    (hqueued : ∀ slot, stage.asked? x.session.config slot = none) :
    Goes x.session.next x ((x.enlist operation stage).2.queueAtDesk now x.session.next stage) := by
  refine Goes.of_same (goes_queueAtDesk ?_ hqueued) rfl rfl
  rw [stage?_enlist hnew, if_pos rfl]
  rfl

theorem goes_launchPrefetch {operation : Operation} {directory : Path} (hnew : x.stage? x.session.next = none) :
    Goes x.session.next x (x.launchPrefetch now operation directory).2 := by
  refine Goes.of_same (goes_proceed fun slot => ?_) rfl rfl
  have hs : (x.enlist operation (.atGate directory)).2.stage? x.session.next = some (.atGate directory) := by
    rw [stage?_enlist hnew, if_pos rfl]
  exact asked?_of_stage? hs

/-- Each of several ends of watches is asked for in a slot of its own. -/
theorem lookup_zipIdx_map (paths : List Path) (first slot : Nat) :
    ((paths.zipIdx first).map fun (path, slot) => (slot, Rpc.Request.watchRemove path)).lookup (first + slot) =
      paths[slot]?.map .watchRemove := by
  induction paths generalizing first slot with
  | nil => rfl
  | cons path paths ih =>
    cases slot with
    | zero => simp
    | succ slot =>
      have hlater : (first + (slot + 1) == first) = false := by simp
      have hnext : first + (slot + 1) = first + 1 + slot := by omega
      rw [List.zipIdx_cons, List.map_cons, List.lookup_cons, hlater, List.getElem?_cons_succ, hnext]
      exact ih (first + 1) slot

theorem isWatched_of_mem_watched (h : path ∈ x.watched) : path.parts ∈ x.registry.believed x.session.id :=
  List.mem_toFinset.2 (List.mem_map_of_mem h)

theorem goes_launch {operation : Operation} (hnew : x.stage? x.session.next = none) :
    Goes x.session.next x (x.launch now operation).2 := by
  unfold launch
  dsimp only
  split
  · exact goes_nowhere hnew
  · split
    · split
      · exact goes_launchPrefetch hnew
      · exact goes_nowhere hnew
    · split
      · exact goes_launchPrefetch hnew
      · exact goes_nowhere hnew
    · exact goes_enlist_queued hnew fun _ => rfl
    · split
      · next hwatched =>
        refine goes_enlist hnew (fun slot => ?_) fun call hcall => ?_
        · cases slot with
          | zero => rfl
          | succ n => rfl
        · rw [List.mem_singleton.1 hcall]
          exact Watch.Registry.isWatched_iff.1 hwatched
      · exact goes_nowhere hnew
    · split
      · exact goes_nowhere hnew
      · refine goes_enlist hnew (fun slot => ?_) fun call hcall => ?_
        · have hlookup := lookup_zipIdx_map x.watched 0 slot
          rw [Nat.zero_add] at hlookup
          rw [hlookup, Stage.asked?, List.getElem?_map]
          cases x.watched[slot]? with
          | none => rfl
          | some path => rfl
        · obtain ⟨⟨path, slot⟩, hmem, rfl⟩ := List.mem_map.1 hcall
          exact isWatched_of_mem_watched (List.fst_mem_of_mem_zipIdx hmem)
    · exact goes_enlist_queued hnew fun _ => rfl

end Site

end RemoteFacts.Session
