import RemoteFacts.Proofs.Session.Told

/-!
# The desk

Who registers a watch or asks for the list of watches is first at the desk until the answer has come. So of all these
calls one at most is out, and nothing is registered meanwhile but what it asks for.

* `Request.fromDesk` : which calls are made from the desk;
* `InLine` : an operation that goes on passes nobody at the desk, and calls from there only when it is first
  (`inLine_proceed`, `inLine_settle`, `inLine_launch` : so do all);
* `Attended` : whoever waits for such a call is first at the desk, and what it asks to watch is not believed to be
  watched (`Attended.only` : there is one such call; `Attended.step`, `Attended.other` : so it is after every event).
-/

namespace RemoteFacts

/-- The calls that are made from the desk. -/
def Rpc.Request.fromDesk : Rpc.Request → Bool
  | watchAdd .. => true
  | watchList => true
  | _ => false

/-- The end of a call from elsewhere adds nothing to what is believed. -/
theorem Watch.Registry.believed_heed_subset {c d : ConnectionId} {now : Nat} {r : Registry} {request : Rpc.Request}
    {reply : Rpc.Reply} (hdesk : request.fromDesk = false) :
    (r.heed c now request reply).believed d ⊆ r.believed d := by
  rw [believed_heed]
  split
  · cases request with
    | watchAdd path recursive => contradiction
    | watchList => contradiction
    | watchRemove path =>
      by_cases hended : ∃ b, reply = .answered (.bool b)
      · obtain ⟨b, rfl⟩ := hended
        exact Finset.erase_subset _ _
      · rw [learn_watchRemove fun b hreply => hended ⟨b, hreply⟩]
    | runParallel commands => exact Finset.Subset.refl _
    | scanAncestors directory markers depth => exact Finset.Subset.refl _
  · exact Finset.Subset.refl _

namespace Session

/-- From the desk an operation makes one call at a time. -/
theorem Stage.slot_of_fromDesk {config : Config} {stage : Stage} {slot : Nat} {request : Rpc.Request}
    (hask : stage.asked? config slot = some request) (hdesk : request.fromDesk = true) :
    slot = 0 ∧ ∀ n, stage.asked? config (n + 1) = none := by
  unfold asked? at hask
  split at hask
  · cases hask
    contradiction
  · cases hask
    contradiction
  · exact ⟨rfl, fun _ => rfl⟩
  · cases hask
    contradiction
  · split at hask
    · cases hask
      contradiction
    · contradiction
  · exact ⟨rfl, fun _ => rfl⟩
  · contradiction

/-- So it does as the operation `id` of a site. -/
theorem Site.slot_of_fromDesk {x : Site} {id : FlightId} {slot : Nat} {request : Rpc.Request}
    (hask : x.asked? id slot = some request) (hdesk : request.fromDesk = true) :
    slot = 0 ∧ ∀ n, x.asked? id (n + 1) = none := by
  obtain ⟨stage, hs, hask⟩ := Option.bind_eq_some_iff.1 hask
  obtain ⟨hslot, hothers⟩ := Stage.slot_of_fromDesk hask hdesk
  exact ⟨hslot, fun n => (asked?_of_stage? hs).trans (hothers n)⟩

theorem head?_erase_of_ne {desk : List FlightId} {id j : FlightId} (hfirst : desk.head? = some j) (hne : j ≠ id) :
    (desk.erase id).head? = some j := by
  obtain ⟨rest, rfl⟩ := List.head?_eq_some_iff.1 hfirst
  rw [List.erase_cons_tail (by simpa using hne)]
  rfl

namespace Site

variable {x y : Site} {now slot : Nat} {id j : FlightId} {stage : Stage} {path : Path} {purpose : Purpose} {h : Harvest}
  {reply : Rpc.Reply} {request : Rpc.Request} {yp : Site × Progress} {e : Event} {p : Progress}

/-! ## Going on -/

/-- From `x` the operation `id` has passed nobody at the desk. It calls from there only when it is first, and has left
the watches alone if it has called at all. -/
structure InLine (id : FlightId) (x : Site) (yp : Site × Progress) : Prop where
  first : ∀ j, j ≠ id → x.session.desk.head? = some j → yp.1.session.desk.head? = some j
  calls : ∀ call ∈ yp.2.sent, call.2.fromDesk = true → yp.1.session.desk.head? = some id
  registry : yp.2.sent = [] ∨ yp.1.registry = x.registry

/-- Where an operation starts from does not matter but for those before it. -/
theorem InLine.of_desk (hy : InLine id y yp)
    (hdesk : ∀ j, j ≠ id → x.session.desk.head? = some j → y.session.desk.head? = some j)
    (hregistry : yp.2.sent = [] ∨ y.registry = x.registry) : InLine id x yp where
  first j hj hfirst := hy.first j hj (hdesk j hj hfirst)
  calls := hy.calls
  registry := by
    rcases hregistry with hquiet | hsame
    · exact Or.inl hquiet
    · exact hy.registry.imp_right fun hkept => hkept.trans hsame

/-- Where nothing of the desk has changed. -/
theorem InLine.of_same (hy : InLine id y yp) (hdesk : y.session.desk = x.session.desk)
    (hregistry : y.registry = x.registry) : InLine id x yp :=
  hy.of_desk (fun _ _ hfirst => hdesk ▸ hfirst) (Or.inr hregistry)

theorem inLine_rest : InLine id x (x, .waiting) := ⟨fun _ _ hfirst => hfirst, nofun, Or.inl rfl⟩

theorem inLine_finish {outcome : Outcome} : InLine id x (x.finish id outcome) where
  first _ hj hfirst := head?_erase_of_ne hfirst hj
  calls := nofun
  registry := Or.inl rfl

theorem inLine_giveUp {e : Error} : InLine id x (x.giveUp id e) := inLine_finish.of_same rfl rfl

theorem inLine_commit : InLine id x (x.commit now id h) := inLine_finish.of_same rfl rfl

theorem inLine_asking (hfirst : request.fromDesk = true → x.session.desk.head? = some id) :
    InLine id x (x.wait id stage, .asking request) where
  first _ _ hother := hother
  calls call hcall hdesk := by
    rw [List.mem_singleton.1 hcall] at hdesk
    exact hfirst hdesk
  registry := Or.inr rfl

/-- Whoever leaves the desk was there. -/
theorem inLine_leaveDesk {result : Except Error Bool} : InLine id x (x.leaveDesk now id purpose result) := by
  have hleft : ∀ j, j ≠ id → x.session.desk.head? = some j → (x.session.desk.erase id).head? = some j :=
    fun j hj hfirst => head?_erase_of_ne hfirst hj
  cases purpose with
  | host => exact inLine_finish.of_desk hleft (Or.inl rfl)
  | root h => exact inLine_commit.of_desk hleft (Or.inl rfl)

theorem inLine_requestWatch (hfirst : x.session.desk.head? = some id) :
    InLine id x (x.requestWatch now id path purpose) := by
  unfold requestWatch
  split
  · exact inLine_leaveDesk
  · exact inLine_asking fun _ => hfirst

theorem inLine_openBatch {directory : Path} : InLine id x (x.openBatch now id directory) := by
  unfold openBatch
  split
  · exact inLine_finish
  · refine InLine.of_same (inLine_asking ?_) rfl rfl
    exact nofun

theorem inLine_proceed : InLine id x (x.proceed now id) := by
  unfold proceed
  split
  · split
    · exact inLine_openBatch
    · exact inLine_rest
  · split
    · next hfirst => exact inLine_requestWatch (beq_iff_eq.1 hfirst)
    · exact inLine_rest
  · split
    · next hfirst => exact inLine_asking fun _ => beq_iff_eq.1 hfirst
    · exact inLine_rest
  · exact inLine_rest

/-- Whoever comes to the desk comes last. -/
theorem inLine_queueAtDesk : InLine id x (x.queueAtDesk now id stage) := by
  unfold queueAtDesk
  refine inLine_proceed.of_desk (fun j _ hfirst => ?_) (Or.inr rfl)
  show (x.session.desk ++ [id]).head? = some j
  rw [List.head?_append, hfirst]
  rfl

theorem inLine_seekRoot : InLine id x (x.seekRoot now id h) := by
  unfold seekRoot
  split
  · split
    · exact inLine_queueAtDesk
    · exact inLine_commit
  · exact inLine_commit

theorem inLine_takeOutputs {directory : Path} {since : Nat} {outputs : List (String × CommandOutput)} :
    InLine id x (x.takeOutputs now id directory since outputs) := by
  unfold takeOutputs
  dsimp only
  split
  · exact inLine_seekRoot
  · exact inLine_asking nofun

theorem inLine_takeRemoval {calls : List (Path × Option Bool)} : InLine id x (x.takeRemoval id calls slot reply) := by
  unfold takeRemoval
  split
  · next path _ =>
    dsimp only
    rw [dropWatch_eq_heed 0 path reply x]
    split
    · exact inLine_finish.of_desk (fun _ _ hfirst => hfirst) (Or.inl rfl)
    · exact ⟨fun _ _ hfirst => hfirst, nofun, Or.inl rfl⟩
  · exact inLine_rest

/-- The end of a call takes an operation on from where it stands at the desk. -/
theorem inLine_settle : InLine id x (x.settle now id slot reply) := by
  have hsame : ∀ j, j ≠ id → x.session.desk.head? = some j → x.session.desk.head? = some j := fun _ _ hfirst => hfirst
  unfold settle
  split
  · exact inLine_takeRemoval
  · split
    · exact inLine_giveUp
    · exact inLine_takeOutputs
  · exact inLine_seekRoot
  · dsimp only
    refine inLine_leaveDesk.of_desk (fun j _ hfirst => ?_) (Or.inl sent_leaveDesk)
    split
    · exact hfirst
    · exact hfirst
  · split
    · exact inLine_finish
    · exact inLine_finish.of_desk hsame (Or.inl rfl)
  · split
    · exact inLine_finish
    · exact inLine_finish.of_desk hsame (Or.inl rfl)
  · exact inLine_rest

theorem inLine_launch {operation : Operation} :
    InLine x.session.next x (x.launch now operation).2 := by
  have hrefused : ∀ outcome, InLine x.session.next x (x, ⟨[], some outcome⟩) := fun _ =>
    ⟨fun _ _ hfirst => hfirst, nofun, Or.inl rfl⟩
  have hprefetch : ∀ operation directory, InLine x.session.next x (x.launchPrefetch now operation directory).2 :=
    fun _ _ => inLine_proceed.of_same rfl rfl
  have hqueued : ∀ operation stage,
      InLine x.session.next x ((x.enlist operation stage).2.queueAtDesk now x.session.next stage) :=
    fun operation stage => (inLine_queueAtDesk (x := (x.enlist operation stage).2)).of_same rfl rfl
  unfold launch
  dsimp only
  split
  · exact hrefused _
  · split
    · split
      · exact hprefetch _ _
      · exact hrefused _
    · split
      · exact hprefetch _ _
      · exact hrefused _
    · exact hqueued _ _
    · split
      · refine ⟨fun _ _ hfirst => hfirst, fun call hcall hdesk => ?_, Or.inr rfl⟩
        rw [List.mem_singleton.1 hcall] at hdesk
        contradiction
      · exact hrefused _
    · split
      · exact hrefused _
      · refine ⟨fun _ _ hfirst => hfirst, fun call hcall hdesk => ?_, Or.inr rfl⟩
        obtain ⟨_, -, rfl⟩ := List.mem_map.1 hcall
        contradiction
    · exact hqueued _ _

theorem inLine_step (hprogress : (x.step now e).1.progress? = some (id, p)) : InLine id x ((x.step now e).2, p) := by
  cases e with
  | launch operation =>
    obtain ⟨rfl, rfl⟩ := Prod.mk.inj (Option.some.inj hprogress)
    have hname : (x.launch now operation).1 = x.session.next := launch_fst
    have hlaunch : InLine x.session.next x (x.launch now operation).2 := inLine_launch
    rwa [← hname] at hlaunch
  | settle i slot reply =>
    obtain ⟨rfl, rfl⟩ := Prod.mk.inj (Option.some.inj hprogress)
    exact inLine_settle
  | proceed i =>
    obtain ⟨rfl, rfl⟩ := Prod.mk.inj (Option.some.inj hprogress)
    exact inLine_proceed
  | _ => contradiction

/-! ## Calls that stay out -/

/-- Where no call is out, none ends. -/
theorem settle_of_none (hnone : x.asked? id slot = none) : x.settle now id slot reply = (x, .waiting) := by
  have hasked : ∀ stage, x.stage? id = some stage → stage.asked? x.session.config slot = none := fun stage hs =>
    (asked?_of_stage? hs).symm.trans hnone
  unfold settle
  split
  · next calls slot hs =>
    have hcall := hasked _ hs
    unfold takeRemoval
    split
    · next path hfound => simp [Stage.asked?, hfound] at hcall
    · rfl
  · next hs => exact absurd (hasked _ hs) (Option.some_ne_none _)
  · next hs => exact absurd (hasked _ hs) (Option.some_ne_none _)
  · next hs => exact absurd (hasked _ hs) (Option.some_ne_none _)
  · next hs => exact absurd (hasked _ hs) (Option.some_ne_none _)
  · next hs => exact absurd (hasked _ hs) (Option.some_ne_none _)
  · rfl

/-- A call that is out has just been sent, or was out before and has not ended. -/
theorem sent_or_asked? (hx : x.Numbered) (hask : (x.step now e).2.asked? j slot = some request) :
    (∃ p, (x.step now e).1.progress? = some (j, p) ∧ (slot, request) ∈ p.sent) ∨
      e.leaves (fun id => x.asked? id) j slot = some request := by
  rw [out_step hx] at hask
  unfold Event.outAfter at hask
  cases hprogress : (x.step now e).1.progress? with
  | none =>
    rw [hprogress] at hask
    exact Or.inr hask
  | some moved =>
    obtain ⟨id, p⟩ := moved
    rw [hprogress] at hask
    dsimp only at hask
    by_cases hj : j = id
    · subst hj
      rw [Function.update_self] at hask
      rcases Option.or_eq_some_iff.1 hask with hsent | ⟨-, hold⟩
      · obtain ⟨before, after, hsplit, -⟩ := List.lookup_eq_some_iff.1 hsent
        exact Or.inl ⟨p, rfl, hsplit ▸ List.mem_append_right before List.mem_cons_self⟩
      · exact Or.inr hold
    · rw [Function.update_of_ne hj] at hask
      exact Or.inr hask

/-- A call that stays out is none that ends with the event, and its operation is not dropped. -/
theorem leaves_eq_some {out : FlightId → Nat → Option Rpc.Request} (hstays : e.leaves out j slot = some request) :
    out j slot = some request ∧ (∀ reply, e ≠ .settle j slot reply) ∧ e ≠ .abandon j := by
  cases e with
  | settle id slot' reply =>
    have hother : ¬ (id = j ∧ slot' = slot) := by
      rintro ⟨rfl, rfl⟩
      rw [Event.leaves, Function.update_self, Function.update_self] at hstays
      contradiction
    refine ⟨?_, fun _ hsame => hother ⟨(Event.settle.inj hsame).1, (Event.settle.inj hsame).2.1⟩, nofun⟩
    rw [Event.leaves, Function.update_apply] at hstays
    split at hstays
    · next hj =>
      subst hj
      rwa [Function.update_of_ne fun hslot => hother ⟨rfl, hslot.symm⟩] at hstays
    · exact hstays
  | abandon id =>
    rw [Event.leaves, Function.update_apply] at hstays
    split at hstays
    · contradiction
    · next hj => exact ⟨hstays, nofun, fun hsame => hj (Event.abandon.inj hsame).symm⟩
  | _ => exact ⟨hstays, nofun, nofun⟩

/-- Whoever is first at the desk stays so while it is left alone. -/
theorem head?_step_of_ne (hx : x.Numbered) (hmover : x.mover? e ≠ some j) (hfirst : x.session.desk.head? = some j) :
    (x.step now e).2.session.desk.head? = some j := by
  have hline : ∀ id p, (x.step now e).1.progress? = some (id, p) → id ≠ j →
      (x.step now e).2.session.desk.head? = some j := fun id p hprogress hne =>
    (inLine_step hprogress).first j (Ne.symm hne) hfirst
  have hmoves : Moves now x e (x.step now e) := moves_step hx
  generalize x.step now e = ay at hmoves hline
  have hne : ∀ {id}, x.mover? e = some id → id ≠ j := fun hid hsame => hmover (hsame ▸ hid)
  cases hmoves with
  | launch _ => exact hline _ _ rfl (hne rfl)
  | settle _ => exact hline _ _ rfl (hne rfl)
  | proceed _ => exact hline _ _ rfl (hne rfl)
  | dropInside _ => exact head?_erase_of_ne hfirst (hne rfl).symm
  | dropOutside _ _ => exact head?_erase_of_ne hfirst (hne rfl).symm
  | dropNone _ => exact hfirst
  | stay _ _ h => exact h.desk ▸ hfirst

/-- An operation with a call out that ends with no call and is not dropped rests. -/
theorem rests_of_asked? (hx : x.Numbered) (hask : x.asked? j slot = some request) (hdesk : request.fromDesk = true)
    (hstays : ∀ reply, e ≠ .settle j slot reply) (hkept : e ≠ .abandon j) (hmover : x.mover? e = some j) :
    (x.step now e).2 = x := by
  cases e with
  | launch operation =>
    have hnew := hx.stage?_eq_none (Nat.le_refl x.session.next)
    rw [Option.some.inj hmover] at hnew
    rw [asked?_of_none hnew] at hask
    contradiction
  | settle id slot' reply =>
    obtain rfl : id = j := Option.some.inj hmover
    have hnone : x.asked? id slot' = none := by
      obtain ⟨rfl, hothers⟩ := slot_of_fromDesk hask hdesk
      cases slot' with
      | zero => exact absurd rfl (hstays reply)
      | succ n => exact hothers n
    have hrest : x.settle now id slot' reply = (x, .waiting) := settle_of_none hnone
    exact congrArg Prod.fst hrest
  | proceed id =>
    obtain rfl : id = j := Option.some.inj hmover
    rcases proceed_eq_or_asked? now id x with hrest | hnone
    · exact congrArg Prod.fst hrest
    · rw [hnone] at hask
      contradiction
  | abandon id => exact absurd (congrArg Event.abandon (Option.some.inj hmover)) hkept
  | _ => contradiction

/-! ## Who is served -/

/-- Whoever waits for a call from the desk is first there, and what it asks to watch is not believed to be watched. -/
structure Attended (x : Site) : Prop where
  first : ∀ id slot request, x.asked? id slot = some request → request.fromDesk = true → x.session.desk.head? = some id
  missing : ∀ id slot path recursive, x.asked? id slot = some (.watchAdd path recursive) →
    path.parts ∉ x.registry.believed x.session.id

namespace Attended

/-- Of the calls from the desk one at most is out. -/
theorem only (hx : x.Attended) {slot' : Nat} {request' : Rpc.Request} (hask : x.asked? id slot = some request)
    (hdesk : request.fromDesk = true) (hask' : x.asked? j slot' = some request') (hdesk' : request'.fromDesk = true) :
    id = j ∧ slot = slot' := by
  have hfirst := hx.first id slot request hask hdesk
  have hfirst' := hx.first j slot' request' hask' hdesk'
  exact ⟨Option.some.inj (hfirst.symm.trans hfirst'),
    (slot_of_fromDesk hask hdesk).1.trans (slot_of_fromDesk hask' hdesk').1.symm⟩

/-- Where nothing more is believed to be watched. -/
theorem other {registry : Watch.Registry} (hx : x.Attended)
    (hless : registry.believed x.session.id ⊆ x.registry.believed x.session.id) : Attended { x with registry } where
  first := hx.first
  missing id slot path recursive hask hwatched := hx.missing id slot path recursive hask (hless hwatched)

theorem opened (connection : Watch.ConnectionId) (config : Config) (ticks : Nat) (flushesOnLeave : Bool)
    (registry : Watch.Registry) : Attended ⟨Session.opened connection config ticks flushesOnLeave, registry⟩ :=
  ⟨nofun, nofun⟩

/-- While a call from the desk stays out nothing more is believed to be watched. -/
theorem believed_step_subset (hx : x.Attended) (hnumbered : x.Numbered)
    (hstays : e.leaves (fun id => x.asked? id) j slot = some request) (hdesk : request.fromDesk = true)
    (connection : Watch.ConnectionId) :
    (x.step now e).2.registry.believed connection ⊆ x.registry.believed connection := by
  obtain ⟨hask, hends, -⟩ := leaves_eq_some hstays
  have hclear : (x.registry.clearFor x.session.id).2.believed connection ⊆ x.registry.believed connection := by
    rw [Watch.Registry.believed_clearFor]
    split
    · exact Finset.empty_subset _
    · exact Finset.Subset.refl _
  rw [registry_step hnumbered]
  cases e with
  | settle id slot' reply =>
    dsimp only
    split
    · next request' hask' =>
      refine Watch.Registry.believed_heed_subset (Bool.eq_false_iff.2 fun hdesk' => ?_)
      obtain ⟨rfl, rfl⟩ := hx.only hask hdesk hask' hdesk'
      exact hends reply rfl
    · exact Finset.Subset.refl _
  | forgetWatches => exact hclear
  | close =>
    dsimp only
    split
    · exact Finset.Subset.refl _
    · exact hclear
  | _ => exact Finset.Subset.refl _

theorem step (hnumbered : x.Numbered) (hx : x.Attended) : (x.step now e).2.Attended := by
  have hid : (x.step now e).2.session.id = x.session.id := (later_step hnumbered).id
  refine ⟨fun j slot request hask hdesk => ?_, fun j slot path recursive hask => ?_⟩
  · rcases sent_or_asked? hnumbered hask with ⟨p, hprogress, hsent⟩ | hstays
    · exact (inLine_step hprogress).calls (slot, request) hsent hdesk
    · obtain ⟨hold, hends, hkept⟩ := leaves_eq_some hstays
      have hfirst := hx.first j slot request hold hdesk
      by_cases hmover : x.mover? e = some j
      · rw [rests_of_asked? hnumbered hold hdesk hends hkept hmover]
        exact hfirst
      · exact head?_step_of_ne hnumbered hmover hfirst
  · rw [hid]
    rcases sent_or_asked? hnumbered hask with ⟨p, hprogress, hsent⟩ | hstays
    · have hcall : (slot, Rpc.Request.watchAdd path recursive) ∈ (x.step now e).1.sent := by
        rw [Answer.sent, hprogress]
        exact hsent
      rcases (inLine_step hprogress).registry with hquiet | hsame
      · rw [hquiet] at hsent
        contradiction
      · rw [show (x.step now e).2.registry = x.registry from hsame]
        exact (asksByBelief hnumbered).fits now e _ hcall
    · intro hwatched
      exact hx.missing j slot path recursive (leaves_eq_some hstays).1
        (hx.believed_step_subset hnumbered hstays rfl _ hwatched)

end Attended

end Site

end Session

end RemoteFacts
