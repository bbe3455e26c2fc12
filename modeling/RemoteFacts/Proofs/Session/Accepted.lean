import RemoteFacts.Proofs.Session.Calls
import RemoteFacts.Proofs.Session.Closed
import RemoteFacts.Proofs.Session.Desk

/-!
# One accepted watch a registration

Between looking whether a path is watched and asking for a watch of it, and between the answer to that and the
registration, nobody else registers anything. So the remote side accepts a watch of a path only while the path is not
registered.

* `Errands` : an operation that is to register a watch for the host is at the desk for just that path, and stays there
  (`Errands.step`);
* `accepted_of_granted` : the host is told that there is a new watch only when the remote side has accepted it;
* `Client.tally` : how many events of a history are of a kind (`accepts`, `grants`, `departs`);
* `tally_accepts_add_held_le` : what has been accepted is registered, or has left the registry again;
* `one_accepted_a_registration` : so a watch is accepted at most once more than it has left, whatever the schedule.
-/

namespace RemoteFacts

namespace Session

/-- The path that an operation is to register a watch of for the host. -/
def Operation.errand? : Operation → Option Path
  | watch path _ => some path
  | _ => none

/-- The path that an operation that waits here registers a watch of for the host. -/
def Stage.errand? : Stage → Option Path
  | atDesk path .host => some path
  | adding path .host => some path
  | _ => none

/-- No request is told that it has brought in a watch when it has not. -/
theorem Operation.report_eq_granted {operation : Operation} {outcome : Outcome}
    (hreport : operation.report outcome = .flag (.ok true)) : outcome = .flag (.ok true) := by
  unfold report at hreport
  split at hreport
  · contradiction
  · cases hreport
  · cases hreport
  · exact hreport

namespace Site

variable {x y : Site} {now slot : Nat} {id : FlightId} {s stage : Stage} {path : Path} {purpose : Purpose} {h : Harvest}
  {reply : Rpc.Reply} {operation : Operation} {e : Event} {p : Progress} {strict : Bool}

/-- What the host has asked for and where the operation waits agree on whether it is to register a watch, and of
what. -/
def Errands (x : Site) : Prop := ∀ id f, x.flight? id = some f → f.operation.errand? = f.stage.errand?

namespace Errands

theorem of_flights (hsame : y.session.flights = x.session.flights) (hx : x.Errands) : y.Errands := by
  intro id f hf
  rw [flight?, hsame] at hf
  exact hx id f hf

theorem wait (hs : x.stage? id = some s) (hsame : stage.errand? = s.errand?) (hx : x.Errands) :
    (x.wait id stage).Errands := by
  intro j f hf
  rw [flight?_wait] at hf
  split at hf
  · obtain ⟨g, hg, rfl⟩ := Option.map_eq_some_iff.1 hf
    have hstage : g.stage = s := Option.some.inj ((stage?_of_find? hg).symm.trans hs)
    show g.operation.errand? = stage.errand?
    rw [hx id g hg, hstage, hsame]
  · exact hx j f hf

theorem remove (id : FlightId) (hx : x.Errands) : (x.remove id).Errands := by
  intro j f hf
  rw [flight?_remove] at hf
  split at hf
  · contradiction
  · exact hx j f hf

theorem enlist (hnew : x.stage? x.session.next = none) (hsame : operation.errand? = stage.errand?) (hx : x.Errands) :
    (x.enlist operation stage).2.Errands := by
  intro j f hf
  rw [flight?_enlist hnew] at hf
  split at hf
  · cases hf
    exact hsame
  · exact hx j f hf

theorem commit (hx : x.Errands) : (x.commit now id h).1.Errands :=
  remove (x := x.landing now h) id (hx.of_flights rfl)

theorem leaveDesk {result : Except Error Bool} (hx : x.Errands) : (x.leaveDesk now id purpose result).1.Errands := by
  cases purpose with
  | host => exact remove (x := { x with session := { x.session with desk := x.session.desk.erase id } }) id hx
  | root h => exact commit (x := { x with session := { x.session with desk := x.session.desk.erase id } }) hx

theorem requestWatch (hs : x.stage? id = some (.atDesk path purpose)) (hx : x.Errands) :
    (x.requestWatch now id path purpose).1.Errands := by
  unfold Site.requestWatch
  split
  · exact hx.leaveDesk
  · refine hx.wait hs ?_
    cases purpose <;> rfl

theorem openBatch {directory : Path} (hs : x.stage? id = some (.atGate directory)) (hx : x.Errands) :
    (x.openBatch now id directory).1.Errands := by
  unfold Site.openBatch
  split
  · exact hx.remove id
  · next suppression _ => exact wait (x := { x with session := { x.session with suppression } }) hs rfl hx

theorem proceed (hx : x.Errands) : (x.proceed now id).1.Errands := by
  unfold Site.proceed
  split
  · next hs =>
    split
    · exact hx.openBatch hs
    · exact hx
  · next hs =>
    split
    · exact hx.requestWatch hs
    · exact hx
  · next hs =>
    split
    · exact hx.wait hs rfl
    · exact hx
  · exact hx

theorem queueAtDesk (hs : x.stage? id = some s) (hsame : stage.errand? = s.errand?) (hx : x.Errands) :
    (x.queueAtDesk now id stage).1.Errands :=
  proceed ((hx.wait hs hsame).of_flights rfl)

theorem seekRoot (hs : x.stage? id = some s) (hnone : s.errand? = none) (hx : x.Errands) :
    (x.seekRoot now id h).1.Errands := by
  unfold Site.seekRoot
  split
  · split
    · exact hx.queueAtDesk hs hnone.symm
    · exact hx.commit
  · exact hx.commit

theorem takeOutputs {directory : Path} {since : Nat} {outputs : List (String × CommandOutput)}
    (hs : x.stage? id = some s) (hnone : s.errand? = none) (hx : x.Errands) :
    (x.takeOutputs now id directory since outputs).1.Errands := by
  unfold Site.takeOutputs
  dsimp only
  split
  · exact hx.seekRoot hs hnone
  · exact hx.wait hs hnone.symm

theorem takeRemoval {calls : List (Path × Option Bool)} (hs : x.stage? id = some (.removingAll calls))
    (hx : x.Errands) : (x.takeRemoval id calls slot reply).1.Errands := by
  unfold Site.takeRemoval
  split
  · next path _ =>
    dsimp only
    rw [dropWatch_eq_heed 0 path reply x]
    split
    · exact remove (x := { x with registry := _ }) id hx
    · exact wait (x := { x with registry := _ }) hs rfl hx
  · exact hx

theorem settle (hx : x.Errands) : (x.settle now id slot reply).1.Errands := by
  unfold Site.settle
  split
  · next hs => exact hx.takeRemoval hs
  · next hs =>
    split
    · exact remove (x := x.leaveScope.2) id hx
    · exact hx.takeOutputs hs rfl
  · next hs => exact hx.seekRoot hs rfl
  · dsimp only
    refine Errands.leaveDesk (hx.of_flights ?_)
    split
    · rfl
    · rfl
  · split
    · exact hx.remove id
    · exact remove (x := { x with registry := _ }) id hx
  · split
    · exact hx.remove id
    · exact remove (x := { x with registry := _ }) id hx
  · exact hx

theorem launch (hnew : x.stage? x.session.next = none) (hx : x.Errands) : (x.launch now operation).2.1.Errands := by
  have hprefetch : ∀ operation directory, operation.errand? = none →
      (x.launchPrefetch now operation directory).2.1.Errands := by
    intro operation directory hnone
    have hwaits : (x.enlist operation (.atGate directory)).2.Errands := hx.enlist hnew hnone
    exact proceed (hwaits.of_flights rfl)
  have hqueued : ∀ operation stage, operation.errand? = stage.errand? →
      ((x.enlist operation stage).2.queueAtDesk now x.session.next stage).1.Errands := fun operation stage hsame =>
    queueAtDesk ((stage?_enlist hnew).trans (if_pos rfl)) rfl (hx.enlist hnew hsame)
  unfold Site.launch
  dsimp only
  split
  · exact hx
  · split
    · split
      · exact hprefetch _ _ rfl
      · exact hx
    · split
      · exact hprefetch _ _ rfl
      · exact hx
    · exact hqueued _ _ rfl
    · split
      · exact hx.enlist hnew rfl
      · exact hx
    · split
      · exact hx
      · exact hx.enlist hnew rfl
    · exact hqueued _ _ rfl

theorem step (hnumbered : x.Numbered) (hx : x.Errands) : (x.step now e).2.Errands := by
  cases he : x.mover? e with
  | none =>
    have hmoves : Moves now x e (x.step now e) := moves_step hnumbered
    generalize x.step now e = ay at hmoves
    cases hmoves with
    | stay _ _ h => exact hx.of_flights h.flights
    | _ => contradiction
  | some id =>
    cases e with
    | launch operation => exact hx.launch (hnumbered.stage?_eq_none (Nat.le_refl _))
    | settle id slot reply => exact hx.settle
    | proceed id => exact hx.proceed
    | abandon id =>
      show (x.abandon id).Errands
      unfold Site.abandon
      split
      · exact hx
      · split
        · exact remove (x := x.leaveScope.2) id hx
        · exact hx.remove id
    | _ => contradiction

end Errands

/-! ## What the host is told -/

theorem finish_eq_granted {outcome : Outcome} (hout : (x.finish id outcome).2.outcome = some (.flag (.ok true))) :
    outcome = .flag (.ok true) := by
  have htold := Option.some.inj hout
  split at htold
  · exact Operation.report_eq_granted htold
  · exact htold

/-- Whose turn has come is told nothing, or that the path is watched already. -/
theorem proceed_ne_granted (hs : x.stage? id = some s) (herrand : s.errand? = some path) :
    (x.proceed now id).2.outcome ≠ some (.flag (.ok true)) := by
  intro hout
  unfold proceed at hout
  rw [hs] at hout
  cases s with
  | atDesk path' purpose =>
    cases purpose with
    | root h => contradiction
    | host =>
      dsimp only at hout
      split at hout
      · unfold requestWatch at hout
        split at hout
        · cases finish_eq_granted hout
        · contradiction
      · contradiction
  | adding path' purpose => contradiction
  | _ => contradiction

theorem settle_eq_granted (hs : x.stage? id = some s) (herrand : s.errand? = some path)
    (hout : (x.settle now id slot reply).2.outcome = some (.flag (.ok true))) :
    reply = .answered (.bool true) ∧ x.asked? id slot = some (.watchAdd path x.session.config.watch.recursive) := by
  unfold settle at hout
  rw [hs] at hout
  cases s with
  | atDesk path' purpose => contradiction
  | adding path' purpose =>
    cases purpose with
    | root h => contradiction
    | host =>
      obtain rfl : path' = path := Option.some.inj herrand
      cases slot with
      | succ n => contradiction
      | zero =>
        have hresult := finish_eq_granted hout
        exact ⟨Rpc.Reply.flag_eq_ok_iff.1 (Outcome.flag.inj hresult), asked?_of_stage? hs⟩
  | _ => contradiction

theorem launch_ne_granted (hnew : x.stage? x.session.next = none) :
    (x.launch now (.watch path strict)).2.2.outcome ≠ some (.flag (.ok true)) := by
  unfold launch
  split
  · exact nofun
  · have hs :
        (x.enlist (.watch path strict) (.atDesk path .host)).2.stage? x.session.next = some (.atDesk path .host) :=
      (stage?_enlist hnew).trans (if_pos rfl)
    have hqueued :
        (((x.enlist (.watch path strict) (.atDesk path .host)).2.wait x.session.next (.atDesk path .host)).placed
          (x.session.desk ++ [x.session.next]) x.registry).stage? x.session.next = some (.atDesk path .host) :=
      stage?_wait_self (Option.isSome_of_eq_some hs)
    exact proceed_ne_granted hqueued rfl

/-- The host is told that there is a new watch only when the remote side has accepted the one that was asked for. -/
theorem accepted_of_granted (hnumbered : x.Numbered) (hx : x.Errands)
    (hrequest : x.request? e = some (.watch path strict))
    (hprogress : (x.step now e).1.progress? = some (id, p)) (hout : p.outcome = some (.flag (.ok true))) :
    ∃ slot recursive, e = .settle id slot (.answered (.bool true)) ∧
      x.asked? id slot = some (.watchAdd path recursive) := by
  have hstage : ∀ id, (x.flight? id).map Flight.operation = some (.watch path strict) →
      ∃ s, x.stage? id = some s ∧ s.errand? = some path := by
    intro id hflight
    obtain ⟨f, hf, hoperation⟩ := Option.map_eq_some_iff.1 hflight
    refine ⟨f.stage, stage?_of_find? hf, ?_⟩
    rw [← hx id f hf, hoperation]
    rfl
  cases e with
  | launch operation =>
    obtain rfl : operation = .watch path strict := Option.some.inj hrequest
    obtain ⟨-, rfl⟩ := Prod.mk.inj (Option.some.inj hprogress)
    exact absurd hout (launch_ne_granted (hnumbered.stage?_eq_none (Nat.le_refl _)))
  | settle id slot reply =>
    obtain ⟨rfl, rfl⟩ := Prod.mk.inj (Option.some.inj hprogress)
    obtain ⟨s, hs, herrand⟩ := hstage _ hrequest
    obtain ⟨rfl, hask⟩ := settle_eq_granted hs herrand hout
    exact ⟨slot, _, rfl, hask⟩
  | proceed id =>
    obtain ⟨rfl, rfl⟩ := Prod.mk.inj (Option.some.inj hprogress)
    obtain ⟨s, hs, herrand⟩ := hstage _ hrequest
    exact absurd hout (proceed_ne_granted hs herrand)
  | _ => contradiction

end Site

end Session

/-! ## Counts -/

namespace Client

open Session

variable {c : Client} {i j : Nat} {e : Event} {x : Site} {history before stretch : List (Nat × Event)} {ps : List Part}
  {connection : Watch.ConnectionId} {q q' : Client → Nat → Event → Bool}

/-- How many events of a history are of a kind, each judged where it happens. -/
def tally (q : Client → Nat → Event → Bool) : Client → List (Nat × Event) → Nat
  | _, [] => 0
  | c, (i, e) :: history => (q c i e).toNat + tally q (c.step i e).2 history

theorem run_run (c : Client) (before stretch : List (Nat × Event)) :
    (c.run before).run stretch = c.run (before ++ stretch) := by
  rw [run, run, run, List.foldl_append]

theorem tally_snoc : c.tally q (history ++ [(i, e)]) = c.tally q history + (q (c.run history) i e).toNat := by
  induction history generalizing c with
  | nil => exact Nat.add_comm _ _
  | cons f history ih =>
    rw [List.cons_append, tally, tally, ih, Nat.add_assoc]
    rfl

/-- The remote side accepts the watch of `ps` that a call of the session with number `i` has asked for. -/
def accepts (i : Nat) (ps : List Part) (c : Client) (j : Nat) (e : Event) : Bool :=
  j == i && match c.site? i, e with
    | some x, .settle flight slot (.answered (.bool true)) =>
      match x.asked? flight slot with
      | some (.watchAdd path _) => path.parts == ps
      | _ => false
    | _, _ => false

/-- The host of the session with number `i` is told that its request has brought in a watch of `ps`. -/
def grants (i : Nat) (ps : List Part) (c : Client) (j : Nat) (e : Event) : Bool :=
  j == i && match c.site? i with
    | some x =>
      match x.request? e, (x.step c.clock e).1.progress? with
      | some (.watch path _), some (_, ⟨_, some (.flag (.ok true))⟩) => path.parts == ps
      | _, _ => false
    | none => false

/-- Whether `ps` is registered for a connection. -/
def held (connection : Watch.ConnectionId) (ps : List Part) (c : Client) : Bool :=
  decide (ps ∈ c.registry.believed connection)

/-- What is registered of `ps` for a connection leaves the registry. -/
def departs (connection : Watch.ConnectionId) (ps : List Part) (c : Client) (j : Nat) (e : Event) : Bool :=
  c.held connection ps && !(c.step j e).2.held connection ps

theorem exists_of_accepts (haccepts : accepts i ps c j e = true) : j = i ∧ ∃ x flight slot path recursive,
    c.site? i = some x ∧ e = .settle flight slot (.answered (.bool true)) ∧
      x.asked? flight slot = some (.watchAdd path recursive) ∧ path.parts = ps := by
  obtain ⟨hj, haccepts⟩ := Bool.and_eq_true_iff.1 haccepts
  refine ⟨beq_iff_eq.1 hj, ?_⟩
  split at haccepts
  · next x flight slot hx _ =>
    split at haccepts
    · next path recursive hask => exact ⟨x, flight, slot, path, recursive, hx, rfl, hask, beq_iff_eq.1 haccepts⟩
    · contradiction
  · contradiction

theorem exists_of_grants (hgrants : grants i ps c j e = true) : j = i ∧ ∃ x path strict flight p,
    c.site? i = some x ∧ x.request? e = some (.watch path strict) ∧
      (x.step c.clock e).1.progress? = some (flight, p) ∧ p.outcome = some (.flag (.ok true)) ∧ path.parts = ps := by
  obtain ⟨hj, hgrants⟩ := Bool.and_eq_true_iff.1 hgrants
  refine ⟨beq_iff_eq.1 hj, ?_⟩
  split at hgrants
  · next x hx =>
    split at hgrants
    · next path strict flight sent hrequest hprogress =>
      exact ⟨x, path, strict, flight, _, hx, hrequest, hprogress, rfl, beq_iff_eq.1 hgrants⟩
    · contradiction
  · contradiction

/-! ## One event -/

/-- The session with number `i` of a connection is in good order. -/
structure Served (i : Nat) (connection : Watch.ConnectionId) (c : Client) (x : Site) : Prop where
  site : c.site? i = some x
  id : x.session.id = connection
  numbered : x.Numbered
  attended : x.Attended
  errands : x.Errands

/-- What the remote side accepts is not registered before, and is afterwards. -/
theorem Served.held_of_accepts (hc : c.Served i connection x) (haccepts : accepts i ps c j e = true) :
    c.held connection ps = false ∧ (c.step j e).2.held connection ps = true := by
  obtain ⟨rfl, y, flight, slot, path, recursive, hy, rfl, hask, rfl⟩ := exists_of_accepts haccepts
  obtain rfl : x = y := Option.some.inj (hc.site.symm.trans hy)
  have hbefore : c.registry = x.registry := (sessions_of_site? hy).2
  have hafter : (c.step j (.settle flight slot (.answered (.bool true)))).2.registry.believed connection =
      insert path.parts (x.registry.believed connection) := by
    rw [step_of_site? hy]
    show (x.step c.clock _).2.registry.believed connection = _
    rw [Site.believed_step hc.numbered, if_pos hc.id.symm, Event.news, hask]
    rfl
  refine ⟨?_, ?_⟩
  · rw [held, hbefore, decide_eq_false_iff_not, ← hc.id]
    exact hc.attended.missing flight slot path recursive hask
  · rw [held, hafter, decide_eq_true_iff]
    exact Finset.mem_insert_self _ _

/-- With one event, what is accepted or was registered is registered, or leaves the registry. -/
theorem Served.accepts_add_held_le (hc : c.Served i connection x) (ps : List Part) (j : Nat) (e : Event) :
    (accepts i ps c j e).toNat + (c.held connection ps).toNat ≤
    (departs connection ps c j e).toNat + ((c.step j e).2.held connection ps).toNat := by
  cases haccepts : accepts i ps c j e with
  | true =>
    obtain ⟨hbefore, hafter⟩ := hc.held_of_accepts haccepts
    rw [hbefore, hafter]
    simp
  | false =>
    unfold departs
    cases c.held connection ps <;> cases (c.step j e).2.held connection ps <;> decide

theorem Served.accepts_of_grants (hc : c.Served i connection x) (hgrants : grants i ps c j e = true) :
    accepts i ps c j e = true := by
  obtain ⟨rfl, y, path, strict, flight, p, hy, hrequest, hprogress, hout, hpath⟩ := exists_of_grants hgrants
  obtain rfl : x = y := Option.some.inj (hc.site.symm.trans hy)
  obtain ⟨slot, recursive, rfl, hask⟩ := Site.accepted_of_granted hc.numbered hc.errands hrequest hprogress hout
  unfold accepts
  rw [hy]
  simp only [hask, hpath, beq_self_eq_true, Bool.and_self]

/-! ## Whole histories -/

section Runs

variable {sessions : List Session} {config : Config} {ticks : Nat} {flushesOnLeave : Bool}

/-- After every history the session is in good order. -/
theorem served_run (hopened : sessions[i]? = some (Session.opened connection config ticks flushesOnLeave))
    (hothers : Apart sessions i connection) (history : List (Nat × Event)) :
    ∃ x, ((opened sessions).run history).Served i connection x := by
  have hstart : (opened sessions).site? i = some ⟨Session.opened connection config ticks flushesOnLeave, .empty⟩ := by
    rw [site?, opened, hopened]
    rfl
  let P : List (Nat × Event) → Site → Prop := fun _ x => x.Attended ∧ x.Errands
  have hown : ∀ history x e, ((opened sessions).run history).site? i = some x → P history x →
      P (history ++ [(i, e)]) (x.step ((opened sessions).run history).clock e).2 := by
    rintro history x e hx ⟨hattended, herrands⟩
    obtain ⟨z, hz, hnumbered, -⟩ := opened_run hopened history
    obtain rfl : x = z := Option.some.inj (hx.symm.trans hz)
    exact ⟨hattended.step hnumbered, herrands.step hnumbered⟩
  have hother : ∀ history x y j e, j ≠ i → ((opened sessions).run history).site? i = some x →
      ((opened sessions).run history).site? j = some y → P history x →
      P (history ++ [(j, e)]) { x with registry := (y.step ((opened sessions).run history).clock e).2.registry } := by
    rintro history x y j e hj hx hy ⟨hattended, herrands⟩
    refine ⟨hattended.other ?_, herrands⟩
    obtain ⟨z, hz, -, hid, -⟩ := opened_run hopened history
    obtain rfl : x = z := Option.some.inj (hx.symm.trans hz)
    obtain ⟨s, hs⟩ := Option.isSome_iff_exists.1 (sessions_isSome_of_site? hy)
    obtain ⟨other, config', ticks', flushesOnLeave', hne, rfl⟩ := hothers j s hj hs
    obtain ⟨y', hy', hnumbered, hid', -⟩ := opened_run hs history
    obtain rfl : y = y' := Option.some.inj (hy.symm.trans hy')
    have hshared : y.registry = x.registry := (sessions_of_site? hy).2.symm.trans (sessions_of_site? hx).2
    rw [Site.believed_step hnumbered, if_neg (by rw [hid, hid']; exact hne.symm), hshared]
  have hinit : P [] ⟨Session.opened connection config ticks flushesOnLeave, .empty⟩ :=
    ⟨Site.Attended.opened connection config ticks flushesOnLeave .empty, fun id f hf => by contradiction⟩
  obtain ⟨x, hx, hattended, herrands⟩ : ∃ x, ((opened sessions).run history).site? i = some x ∧ P history x :=
    run_invariant_shared hstart hinit hown hother fun _ _ _ _ _ hP => hP
  obtain ⟨z, hz, hnumbered, hid, -⟩ := opened_run hopened history
  obtain rfl : x = z := Option.some.inj (hx.symm.trans hz)
  exact ⟨x, hx, hid, hnumbered, hattended, herrands⟩

/-- In every stretch of a history, what is accepted or was registered before is registered afterwards, or has left. -/
theorem tally_accepts_add_held_le
    (hopened : sessions[i]? = some (Session.opened connection config ticks flushesOnLeave))
    (hothers : Apart sessions i connection) (before stretch : List (Nat × Event)) (ps : List Part) :
    ((opened sessions).run before).tally (accepts i ps) stretch +
        (((opened sessions).run before).held connection ps).toNat ≤
      ((opened sessions).run before).tally (departs connection ps) stretch +
        (((opened sessions).run (before ++ stretch)).held connection ps).toNat := by
  induction stretch using List.reverseRecOn with
  | nil => rw [List.append_nil]; rfl
  | append_singleton stretch f ih =>
    obtain ⟨j, e⟩ := f
    obtain ⟨x, hserved⟩ := served_run hopened hothers (before ++ stretch)
    have hevent := hserved.accepts_add_held_le ps j e
    rw [tally_snoc, tally_snoc, run_run, ← List.append_assoc, run_snoc]
    omega

theorem tally_grants_le (hopened : sessions[i]? = some (Session.opened connection config ticks flushesOnLeave))
    (hothers : Apart sessions i connection) (before stretch : List (Nat × Event)) (ps : List Part) :
    ((opened sessions).run before).tally (grants i ps) stretch ≤
      ((opened sessions).run before).tally (accepts i ps) stretch := by
  induction stretch using List.reverseRecOn with
  | nil => exact Nat.le_refl _
  | append_singleton stretch f ih =>
    obtain ⟨j, e⟩ := f
    obtain ⟨x, hserved⟩ := served_run hopened hothers (before ++ stretch)
    have hevent : (grants i ps ((opened sessions).run (before ++ stretch)) j e).toNat ≤
        (accepts i ps ((opened sessions).run (before ++ stretch)) j e).toNat :=
      Bool.toNat_le_toNat hserved.accepts_of_grants
    rw [tally_snoc, tally_snoc, run_run]
    exact Nat.add_le_add ih hevent

/-- All sessions have been opened, the one and the others. -/
theorem Apart.opened (hopened : sessions[i]? = some (Session.opened connection config ticks flushesOnLeave))
    (hothers : Apart sessions i connection) : ∀ s ∈ sessions, ∃ connection config ticks flushesOnLeave,
      s = Session.opened connection config ticks flushesOnLeave := by
  intro s hs
  obtain ⟨j, hj⟩ := List.mem_iff_getElem?.1 hs
  by_cases hsame : j = i
  · subst hsame
    exact ⟨connection, config, ticks, flushesOnLeave, Option.some.inj (hj.symm.trans hopened)⟩
  · obtain ⟨other, config', ticks', flushesOnLeave', -, hother⟩ := hothers j s hsame hj
    exact ⟨other, config', ticks', flushesOnLeave', hother⟩

theorem Apart.singleton (s : Session) (connection : Watch.ConnectionId) : Apart [s] 0 connection := by
  intro j t hj ht
  rw [List.getElem?_singleton, if_neg hj] at ht
  contradiction

/-- One accepted watch a registration. In every stretch of every history, whatever is launched, ends, is dropped or
closed in whatever order, the remote side accepts a watch of a path at most once more than the path leaves the registry
for the connection; where it does not leave, at most one request of the host is told of a new watch. And in every state
at most one call of the session for a watch is out. -/
theorem one_accepted_a_registration
    (hopened : sessions[i]? = some (Session.opened connection config ticks flushesOnLeave))
    (hothers : Apart sessions i connection) (before : List (Nat × Event)) :
    (∀ stretch ps,
      ((opened sessions).run before).tally (accepts i ps) stretch ≤
          ((opened sessions).run before).tally (departs connection ps) stretch + 1 ∧
        (((opened sessions).run before).tally (departs connection ps) stretch = 0 →
          ((opened sessions).run before).tally (grants i ps) stretch ≤ 1)) ∧
    ∀ flight slot path recursive flight' slot' path' recursive',
      ((opened sessions).journal before).out i flight slot = some (.watchAdd path recursive) →
      ((opened sessions).journal before).out i flight' slot' = some (.watchAdd path' recursive') →
      flight = flight' ∧ slot = slot' := by
  refine ⟨fun stretch ps => ?_, fun flight slot path recursive flight' slot' path' recursive' hout hout' => ?_⟩
  · have haccepts := tally_accepts_add_held_le hopened hothers before stretch ps
    have hgrants := tally_grants_le hopened hothers before stretch ps
    have honce := Bool.toNat_le (((opened sessions).run (before ++ stretch)).held connection ps)
    have hmost : ((opened sessions).run before).tally (accepts i ps) stretch ≤
        ((opened sessions).run before).tally (departs connection ps) stretch + 1 := by
      omega
    exact ⟨hmost, fun hstays => by omega⟩
  · obtain ⟨x, hserved⟩ := served_run hopened hothers before
    have hkept := kept_run (hothers.opened hopened) before
    rw [hkept.out i x hserved.site] at hout hout'
    exact hserved.attended.only hout rfl hout' rfl

/-- Two requests for one path at once, under two spellings, and a third one when the first watch has been ended: the
remote side is asked once, and once more. -/
theorem one_accepted_a_registration_of_two :
    let client := opened [Session.opened 4 {} 1 true]
    let both : List (Nat × Event) := [(0, .launch (.watch ⟨"/a"⟩ true)), (0, .launch (.watch ⟨"//a"⟩ true)),
      (0, .settle 0 0 (.answered (.bool true))), (0, .proceed 1)]
    let again := both ++ [(0, .launch (.unwatch ⟨"/a/"⟩ true)), (0, .settle 2 0 (.answered (.bool true))),
      (0, .launch (.watch ⟨"/a/."⟩ true)), (0, .settle 3 0 (.answered (.bool true)))]
    let ps := (⟨"/a"⟩ : Path).parts
    (client.tally (departs 4 ps) both = 0 ∧ client.tally (grants 0 ps) both = 1) ∧
      (client.tally (departs 4 ps) again = 1 ∧ client.tally (accepts 0 ps) again = 2) := by
  intro client both again ps
  have hopened : [Session.opened 4 {} 1 true][0]? = some (Session.opened 4 {} 1 true) := rfl
  obtain ⟨hcounts, -⟩ := one_accepted_a_registration hopened (Apart.singleton _ 4) []
  have hstays : client.tally (departs 4 ps) both = 0 := by decide +kernel
  have hleaves : client.tally (departs 4 ps) again = 1 := by decide +kernel
  have hone : 1 ≤ client.tally (grants 0 ps) both := by decide +kernel
  have htwo : 2 ≤ client.tally (accepts 0 ps) again := by decide +kernel
  have hmost : client.tally (grants 0 ps) both ≤ 1 := (hcounts both ps).2 hstays
  have hmost' : client.tally (accepts 0 ps) again ≤ client.tally (departs 4 ps) again + 1 := (hcounts again ps).1
  exact ⟨⟨hstays, by omega⟩, hleaves, by omega⟩

end Runs

end Client

end RemoteFacts
