import RemoteFacts.Proofs.Coherence.Facts
import RemoteFacts.Proofs.Watch.Entries

/-!
# What is left of a closed session

A session that is closed forgets what it holds and begins no operation any more. Those that were in flight go on, and
what one of them gains then is kept as if the session were open.

* `Stage.Subscribes`, `Site.Gains` : an operation in flight brings in watches, or is a prefetch that ends well;
* `mem_registry_step`, `stage?_of_closed` : nothing else adds a watch, and no operation is added at all;
* `Client.Final` : nothing is held but what the host has told since the end (`final_close`, `Final.own`, `Final.other`,
  `not_final_of_gains`);
* `closed_is_final_iff` : so it is for ever, exactly if nothing in flight gains anything.
-/

namespace RemoteFacts

namespace Session

/-- The reply lets the operation that waits here put something into the registry. -/
def Stage.Subscribes (r : Rpc.Reply) : Stage → Prop
  | adding _ _ => r.flag (Rpc.Request.watchAdd ⟨""⟩ true).method = .ok true
  | listing => ∃ watches, r.watches = .ok watches ∧ watches ≠ []
  | _ => False

namespace Site

variable {now : Nat} {x y : Site} {id j : FlightId} {s : Stage} {reply? : Option Rpc.Reply} {yp : Site × Progress}
  {e : Event}
  {a : Watch.Entry} {registry : Watch.Registry} {r : Rpc.Reply}

/-- With this event a prefetch ends well and keeps its harvest, or an operation in flight brings in watches. -/
def Gains (now : Nat) (e : Event) (x : Site) : Prop :=
  (∃ id h, x.since? id = some h.since ∧ (x.step now e).2.holding = x.holding.commit now id h) ∨
    ∃ id r s, e = .settle id 0 r ∧ x.stage? id = some s ∧ s.Subscribes r

/-- The operation that gains something is in flight. -/
theorem mover?_of_gains (hx : x.Numbered) (hgains : x.Gains now e) :
    ∃ id, x.mover? e = some id ∧ (x.stage? id).isSome = true := by
  rcases hgains with ⟨id, h, hin, hcommit⟩ | ⟨id, r, s, rfl, hs, -⟩
  · refine ⟨id, ?_, ?_⟩
    · by_contra hother
      have hout : (x.step now e).2.holding.since? id = none := by
        rw [hcommit]
        exact Function.update_self ..
      have hstill : (x.step now e).2.since? id = some h.since := (since?_step_of_ne hx hother).trans hin
      rw [show (x.step now e).2.since? id = none from hout] at hstill
      contradiction
    · cases hs : x.stage? id with
      | none =>
        rw [since?, hs] at hin
        contradiction
      | some s => rfl
  · exact ⟨id, rfl, Option.isSome_of_eq_some hs⟩

/-! ## Watches -/

theorem mem_of_posts (hposts : Posts now reply? x s registry) (ha : a ∈ registry.entries) :
    a ∈ x.registry.entries ∨ a.connection = x.session.id ∧ ∃ r, reply? = some r ∧ s.Subscribes r := by
  cases hposts with
  | keep _ => exact Or.inl ha
  | register hreply hr =>
    rcases Watch.Registry.mem_register ha with ha | rfl
    · exact Or.inl ha
    · exact Or.inr ⟨rfl, _, hreply, hr⟩
  | unregister _ path => exact Or.inl (Watch.Registry.mem_unregister.1 ha).1
  | replace hreply hr =>
    rcases Watch.Registry.mem_replaceFor ha with ⟨ha, -⟩ | ⟨hconnection, hpath⟩
    · exact Or.inl ha
    · refine Or.inr ⟨hconnection, _, hreply, _, hr, ?_⟩
      rintro rfl
      contradiction

theorem mem_registry_turn (hturn : Turn now id reply? x yp) (ha : a ∈ yp.1.registry.entries) :
    a ∈ x.registry.entries ∨
      a.connection = x.session.id ∧ ∃ s r, x.stage? id = some s ∧ reply? = some r ∧ s.Subscribes r := by
  have hposted : ∀ {s : Stage} {registry : Watch.Registry}, x.stage? id = some s → Posts now reply? x s registry →
      a ∈ registry.entries → a ∈ x.registry.entries ∨
        a.connection = x.session.id ∧ ∃ s r, x.stage? id = some s ∧ reply? = some r ∧ s.Subscribes r := by
    intro s registry hs hposts ha
    refine (mem_of_posts hposts ha).imp_right fun ⟨hconnection, r, hreply, hsubscribes⟩ => ?_
    exact ⟨hconnection, s, r, hs, hreply, hsubscribes⟩
  cases hturn with
  | rest => exact Or.inl ha
  | enter _ _ _ => exact Or.inl ha
  | refuse _ _ _ => exact Or.inl ha
  | giveUp _ _ _ => exact Or.inl ha
  | carry _ _ _ _ _ _ => exact Or.inl ha
  | commit desk registry hs _ _ hposts => exact hposted hs hposts ha
  | goOn desk registry _ hs _ _ _ hposts => exact hposted hs hposts ha
  | ended desk registry hs _ _ _ hposts => exact hposted hs hposts ha

theorem registry_start {operation : Operation} (hstart : Start now operation x yp) (ha : a ∈ yp.1.registry.entries) :
    a ∈ x.registry.entries := by
  have hturn : ∀ z : Site, Turn now x.session.next none z yp → z.registry = x.registry → a ∈ x.registry.entries := by
    intro z hturn hz
    rcases mem_registry_turn hturn ha with ha | ⟨-, s, r, -, hreply, -⟩
    · exact hz ▸ ha
    · contradiction
  cases hstart with
  | refused _ => exact ha
  | prefetch _ _ h => exact hturn _ h rfl
  | host _ _ _ h => exact hturn _ h rfl
  | atOnce _ _ _ _ => exact ha

/-- A watch that is new after an event has been brought in by an operation of the session, for its connection. -/
theorem mem_registry_step (hx : x.Numbered) (ha : a ∈ (x.step now e).2.registry.entries) :
    a ∈ x.registry.entries ∨ a.connection = x.session.id ∧ x.Gains now e := by
  have hbrought : a ∈ x.registry.entries ∨ a.connection = x.session.id ∧
      ∃ id r s, e = .settle id 0 r ∧ x.stage? id = some s ∧ s.Subscribes r := by
    have hmoves : Moves now x e (x.step now e) := moves_step hx
    generalize x.step now e = ay at hmoves ha
    cases hmoves with
    | launch hstart => exact Or.inl (registry_start hstart ha)
    | settle hturn =>
      refine (mem_registry_turn hturn ha).imp_right fun ⟨hconnection, s, r, hs, hreply, hsubscribes⟩ => ?_
      obtain ⟨rfl, rfl⟩ := heard?_eq_some hreply
      exact ⟨hconnection, _, _, s, rfl, hs, hsubscribes⟩
    | proceed hturn =>
      rcases mem_registry_turn hturn ha with hold | ⟨-, s, r, -, hreply, -⟩
      · exact Or.inl hold
      · contradiction
    | dropInside _ => exact Or.inl ha
    | dropOutside _ _ => exact Or.inl ha
    | dropNone _ => exact Or.inl ha
    | stay _ _ h => exact Or.inl (h.watches a ha)
  exact hbrought.imp_right fun ⟨hconnection, hsubscribes⟩ => ⟨hconnection, Or.inr hsubscribes⟩

theorem registry_leaveDesk {purpose : Purpose} {result : Except Error Bool} :
    (x.leaveDesk now id purpose result).1.registry = x.registry := by
  cases purpose <;> rfl

/-- Whoever gains watches has some. -/
theorem exists_watch_of_subscribes (hs : x.stage? id = some s) (hsubscribes : s.Subscribes r) :
    ∃ a ∈ (x.settle now id 0 r).1.registry.entries, a.connection = x.session.id := by
  cases s with
  | adding path purpose =>
    have haccepted : r.flag (Rpc.Request.watchAdd path true).method = .ok true := hsubscribes
    unfold settle
    rw [hs]
    simp only [haccepted]
    rw [registry_leaveDesk]
    exact Watch.Registry.exists_mem_register
  | listing =>
    obtain ⟨watches, hwatches, hsome⟩ := hsubscribes
    obtain ⟨w, hw⟩ := List.exists_mem_of_ne_nil _ hsome
    unfold settle
    rw [hs]
    simp only [hwatches]
    exact Watch.Registry.exists_mem_replaceFor (List.mem_map_of_mem hw)
  | _ => exact hsubscribes.elim

/-! ## Operations -/

theorem stage?_of_remove (hj : ((x.remove id).stage? j).isSome = true) : (x.stage? j).isSome = true := by
  rw [stage?_remove] at hj
  split at hj
  · contradiction
  · exact hj

theorem stage?_of_turn (hturn : Turn now id reply? x yp) (hj : (yp.1.stage? j).isSome = true) :
    (x.stage? j).isSome = true := by
  by_cases hid : j = id
  · subst hid
    cases hturn with
    | rest => exact hj
    | enter hs _ _ => exact Option.isSome_of_eq_some hs
    | refuse hs _ _ => exact Option.isSome_of_eq_some hs
    | giveUp hs _ _ => exact Option.isSome_of_eq_some hs
    | carry _ _ hs _ _ _ => exact Option.isSome_of_eq_some hs
    | commit _ _ hs _ _ _ => exact Option.isSome_of_eq_some hs
    | goOn _ _ _ hs _ _ _ _ => exact Option.isSome_of_eq_some hs
    | ended _ _ hs _ _ _ _ => exact Option.isSome_of_eq_some hs
  · rw [stage?, flight?_turn_of_ne hturn hid] at hj
    exact hj

/-- A closed session begins no operation. -/
theorem stage?_of_closed (hx : x.Numbered) (hclosed : x.session.closed = true)
    (hj : ((x.step now e).2.stage? j).isSome = true) : (x.stage? j).isSome = true := by
  have hnotOpen : x.session.closed = false → False := fun hopen => by
    rw [hclosed] at hopen
    contradiction
  have hmoves : Moves now x e (x.step now e) := moves_step hx
  generalize x.step now e = ay at hmoves hj
  cases hmoves with
  | launch h =>
    cases h with
    | refused _ => exact hj
    | prefetch hopen _ _ => exact (hnotOpen hopen).elim
    | host hopen _ _ _ => exact (hnotOpen hopen).elim
    | atOnce _ hopen _ _ => exact (hnotOpen hopen).elim
  | settle h => exact stage?_of_turn h hj
  | proceed h => exact stage?_of_turn h hj
  | dropInside _ => exact stage?_of_remove (x := x.leaveScope.2) hj
  | dropOutside _ _ => exact stage?_of_remove hj
  | dropNone _ => exact hj
  | stay _ _ h => exact h.stage? ▸ hj

end Site

end Session

namespace Client

open Session

variable {c : Client} {i j t now : Nat} {e e' : Event} {x y : Site} {v w : Holding} {history : List (Nat × Event)}

/-! ## What is held -/

/-- Of the remote side nothing is held but what the host has told since `t`. -/
structure OnlyTold (c : Client) (history : List (Nat × Event)) (i t : Nat) (v : Holding) : Prop where
  transient : v.transient = .empty
  existence : ∀ f ∈ v.store.existence.entries,
    t < f.insertedAt ∧ c.ToldExists history i f.insertedAt f.key f.value.value
  truename : ∀ f ∈ v.store.truename.entries,
    t < f.insertedAt ∧ c.ToldTruename history i f.insertedAt f.key f.value.value

namespace OnlyTold

theorem snoc {f : Nat × Event} (h : c.OnlyTold history i t v) : c.OnlyTold (history ++ [f]) i t v where
  transient := h.transient
  existence g hg := ⟨(h.existence g hg).1, (h.existence g hg).2.snoc⟩
  truename g hg := ⟨(h.truename g hg).1, (h.truename g hg).2.snoc⟩

theorem loses (h : c.OnlyTold history i t v) (hw : Loses v w) : c.OnlyTold history i t w where
  transient := by
    have hresult : w.transient.result = none := by
      cases hr : w.transient.result with
      | none => rfl
      | some r =>
        have hheld := hw.result r hr
        rw [h.transient] at hheld
        contradiction
    have hscan : w.transient.scan = none := by
      cases hd : w.transient.scan with
      | none => rfl
      | some d =>
        have hheld := hw.scan d hd
        rw [h.transient] at hheld
        contradiction
    exact congrArg₂ Transient.mk hresult hscan
  existence f hf := h.existence f (hw.existence f hf)
  truename f hf := h.truename f (hw.truename f hf)

theorem leave (h : c.OnlyTold history i t v) : c.OnlyTold history i t v.leave where
  transient := h.transient
  existence f hf := h.existence f (Sourced.mem_leave hf)
  truename f hf := h.truename f (Sourced.mem_truename_leave hf)

/-- Unless a prefetch ends well, an event adds nothing but a word of the host. -/
theorem shift (h : c.OnlyTold history i t v) (hw : Shift now v e w) (hmet : c.Met (history ++ [(i, e)]) i now e x)
    (hpast : t < now) (hno : ¬ ∃ id h, v.since? id = some h.since ∧ w = v.commit now id h) :
    c.OnlyTold (history ++ [(i, e)]) i t w := by
  have hstill : c.OnlyTold (history ++ [(i, e)]) i t v := h.snoc
  cases hw with
  | advance _ hw =>
    cases hw with
    | rest => exact hstill
    | enter id _ _ => exact ⟨hstill.transient, hstill.existence, hstill.truename⟩
    | leave id _ _ => exact ⟨hstill.leave.transient, hstill.leave.existence, hstill.leave.truename⟩
    | commit id harvest hin => exact absurd ⟨id, harvest, hin, rfl⟩ hno
  | lose _ hw => exact hstill.loses hw
  | apply n _ hw => exact hstill.loses hw
  | enterHost _ => exact ⟨hstill.transient, hstill.existence, hstill.truename⟩
  | leaveHost _ => exact hstill.leave
  | drop n _ => exact ⟨hstill.transient, hstill.existence, hstill.truename⟩
  | recordExists path value =>
    refine ⟨hstill.transient, fun f hf => ?_, hstill.truename⟩
    rcases Cache.mem_put hf with hold | ⟨hkey, hinserted, hvalue⟩
    · exact hstill.existence f hold
    · rw [hinserted, hvalue]
      exact ⟨hpast, path, x, hmet, BEq.symm hkey⟩
  | recordTruename path target =>
    refine ⟨hstill.transient, hstill.existence, fun f hf => ?_⟩
    rcases Cache.mem_put hf with hold | ⟨hkey, hinserted, hvalue⟩
    · exact hstill.truename f hold
    · rw [hinserted, hvalue]
      exact ⟨hpast, path, x, hmet, BEq.symm hkey⟩

end OnlyTold

/-- Nothing is held for the connection but what the host has told since `t`. -/
structure Final (c : Client) (history : List (Nat × Event)) (i t : Nat) (x : Site) : Prop where
  watches : ∀ a ∈ x.registry.entries, a.connection ≠ x.session.id
  held : c.OnlyTold history i t x.holding

theorem final_close (hopen : x.session.closed = false) : c.Final history i t x.close := by
  have hclosed : x.close = (Site.forgetWatches { x with session := { x.session with closed := true } }).2.flush := by
    unfold Site.close
    rw [hopen]
    rfl
  rw [hclosed]
  exact ⟨fun a ha => (Watch.Registry.mem_clearFor.1 ha).2, ⟨rfl, nofun, nofun⟩⟩

theorem Final.own (h : c.Final history i t x) (hx : (c.run history).site? i = some x) (hnumbered : x.Numbered)
    (hpast : t < (c.run history).clock) (hno : ¬ x.Gains (c.run history).clock e) :
    c.Final (history ++ [(i, e)]) i t (x.step (c.run history).clock e).2 := by
  refine ⟨fun a ha => ?_, ?_⟩
  · rw [(Site.later_step hnumbered).id]
    rcases Site.mem_registry_step hnumbered ha with hold | ⟨-, hgains⟩
    · exact h.watches a hold
    · exact absurd hgains hno
  · exact h.held.shift (Site.shift_step hnumbered) (met_last hx) hpast fun hkept => hno (Or.inl hkept)

/-- An operation of another connection adds no watch to this one. -/
theorem Final.other (h : c.Final history i t x) (hy : y.Numbered) (hshared : y.registry = x.registry)
    (hids : y.session.id ≠ x.session.id) :
    c.Final (history ++ [(j, e)]) i t { x with registry := (y.step now e).2.registry } := by
  refine ⟨fun a ha => ?_, h.held.snoc⟩
  rcases Site.mem_registry_step hy ha with hold | ⟨hconnection, -⟩
  · exact h.watches a (hshared ▸ hold)
  · rw [hconnection]
    exact hids

/-- What is gained is held. -/
theorem not_final_of_gains (hnumbered : x.Numbered) (hgains : x.Gains now e) :
    ¬ c.Final history i t (x.step now e).2 := by
  intro hfinal
  rcases hgains with ⟨id, h, -, hcommit⟩ | ⟨id, r, s, rfl, hs, hsubscribes⟩
  · have hempty := hfinal.held.transient
    rw [hcommit] at hempty
    have hnone : some (⟨h.since, h.result⟩ : Dated PrefetchResult) = none := congrArg Transient.result hempty
    contradiction
  · obtain ⟨a, ha, hconnection⟩ := Site.exists_watch_of_subscribes hs hsubscribes
    exact hfinal.watches a ha (hconnection.trans (Site.later_step hnumbered).id.symm)

/-! ## Whole histories -/

section Runs

variable {sessions : List Session} {connection : Watch.ConnectionId} {config : Config} {ticks : Nat}
  {flushesOnLeave : Bool} {before rest : List (Nat × Event)}

/-- From the moment on at which a session is closed, only operations wait that have waited then. -/
theorem waiting_of_closed (hopened : sessions[i]? = some (Session.opened connection config ticks flushesOnLeave))
    (hmet : (opened sessions).Met history i t .close y) (hhistory : history = before ++ rest)
    (hlater : t < ((opened sessions).run before).clock) : ∃ x, ((opened sessions).run before).site? i = some x ∧
      x.session.closed = true ∧ ∀ id, (x.stage? id).isSome = true → (y.stage? id).isSome = true := by
  let P : List (Nat × Event) → Site → Prop := fun _ x =>
    x.session.closed = true ∧ ∀ id, (x.stage? id).isSome = true → (y.stage? id).isSome = true
  have hclosed : y.close.session.closed = true := by
    unfold Site.close
    split
    · assumption
    · rfl
  have hinit : ∀ before, P (before ++ [(i, .close)]) y.close := fun _ => by
    refine ⟨hclosed, fun id hid => ?_⟩
    rw [Site.sameTable_close.stage?] at hid
    exact hid
  refine run_after (P := P) hmet hinit (fun before x e' _ _ hx hP => ?_) (fun _ _ _ _ _ _ _ _ hP => hP)
    (fun _ _ _ _ _ hP => hP) hhistory hlater
  obtain ⟨z, hz, hnumbered, -⟩ := opened_run hopened before
  obtain rfl : x = z := Option.some.inj (hx.symm.trans hz)
  exact ⟨(Site.later_step hnumbered).closed hP.1, fun id hid => hP.2 id (Site.stage?_of_closed hnumbered hP.1 hid)⟩

/-- Every other session was opened for another connection. -/
def Apart (sessions : List Session) (i : Nat) (connection : Watch.ConnectionId) : Prop :=
  ∀ j s, j ≠ i → sessions[j]? = some s → ∃ other config ticks flushesOnLeave, other ≠ connection ∧
    s = Session.opened other config ticks flushesOnLeave

theorem sessions_isSome_of_site? {x : Site} (hx : (c.run history).site? j = some x) :
    (c.sessions[j]?).isSome = true := by
  have hlength : (c.run history).sessions.length = c.sessions.length := by
    clear hx
    induction history using List.reverseRecOn with
    | nil => rfl
    | append_singleton history f ih =>
      rw [run_snoc, ← ih]
      cases hy : (c.run history).site? f.1 with
      | none => rw [step_of_none hy]
      | some y => rw [step_of_site? hy, List.length_set]
  have hlt : j < (c.run history).sessions.length := (List.getElem?_eq_some_iff.1 (sessions_of_site? hx).1).1
  rw [List.getElem?_eq_getElem (hlength ▸ hlt)]
  rfl

/-- When nothing in flight gains anything, the end is final. -/
theorem final_run (hopened : sessions[i]? = some (Session.opened connection config ticks flushesOnLeave))
    (hothers : Apart sessions i connection) (hmet : (opened sessions).Met history i t .close y)
    (hfirst : y.session.closed = false)
    (hno : ∀ u e z, t < u → (opened sessions).Met history i u e z → ¬ z.Gains u e) (hhistory : history = before ++ rest)
    (hlater : t < ((opened sessions).run before).clock) :
    ∃ x, ((opened sessions).run before).site? i = some x ∧ (opened sessions).Final before i t x := by
  let P : List (Nat × Event) → Site → Prop := fun before x => (opened sessions).Final before i t x
  refine run_after (P := P) hmet (fun _ => final_close hfirst) (fun before x e' hpast hmet' hx hP => ?_)
    (fun before x z j e' hj hx hz hP => ?_) (fun _ _ _ _ _ hP => ⟨hP.watches, hP.held.snoc⟩) hhistory hlater
  · obtain ⟨z, hz, hnumbered, -⟩ := opened_run hopened before
    obtain rfl : x = z := Option.some.inj (hx.symm.trans hz)
    exact Final.own hP hx hnumbered hpast (hno _ e' x hpast hmet')
  · obtain ⟨x', hx', -, hid, -⟩ := opened_run hopened before
    obtain rfl : x = x' := Option.some.inj (hx.symm.trans hx')
    obtain ⟨s, hs⟩ := Option.isSome_iff_exists.1 (sessions_isSome_of_site? hz)
    obtain ⟨other, config', ticks', flushesOnLeave', hother, rfl⟩ := hothers j s hj hs
    obtain ⟨z', hz', hnumbered, hid', -⟩ := opened_run hs before
    obtain rfl : z = z' := Option.some.inj (hz.symm.trans hz')
    have hshared : z.registry = x.registry := (sessions_of_site? hz).2.symm.trans (sessions_of_site? hx).2
    exact Final.other hP hnumbered hshared (by rw [hid, hid']; exact hother)

/-- After a session has been closed for the first time nothing is held for its connection but what the host has told
since, exactly as long as no operation gains anything that was in flight then. -/
theorem closed_is_final_iff (hopened : sessions[i]? = some (Session.opened connection config ticks flushesOnLeave))
    (hothers : Apart sessions i connection) (hmet : (opened sessions).Met history i t .close y)
    (hfirst : y.session.closed = false) :
    ((∀ before rest x, history = before ++ rest → t < ((opened sessions).run before).clock →
        ((opened sessions).run before).site? i = some x → (opened sessions).Final before i t x) ↔
      ∀ u e z, t < u → (opened sessions).Met history i u e z → ¬ z.Gains u e) ∧
    ∀ u e z, t < u → (opened sessions).Met history i u e z → z.Gains u e →
      ∃ id, z.mover? e = some id ∧ (y.stage? id).isSome = true := by
  refine ⟨⟨fun hfinal u e z hu hmet' hgains => ?_, fun hno before rest x hhistory hlater hx => ?_⟩,
    fun u e z hu hmet' hgains => ?_⟩
  · obtain ⟨before, after, hhistory, rfl, hz⟩ := hmet'
    obtain ⟨z', hz', hnumbered, -⟩ := opened_run hopened before
    obtain rfl : z = z' := Option.some.inj (hz.symm.trans hz')
    have hclock : ((opened sessions).run (before ++ [(i, e)])).clock = ((opened sessions).run before).clock + 1 := by
      rw [run_snoc, clock_step hz]
    have hthen := hfinal (before ++ [(i, e)]) after _ (by rw [hhistory, List.append_assoc, List.singleton_append])
      (hclock ▸ Nat.lt_succ_of_lt hu) (run_snoc ▸ site?_step hz)
    exact not_final_of_gains hnumbered hgains hthen
  · obtain ⟨x', hx', hfinal⟩ := final_run hopened hothers hmet hfirst hno hhistory hlater
    obtain rfl : x = x' := Option.some.inj (hx.symm.trans hx')
    exact hfinal
  · obtain ⟨before, after, hhistory, rfl, hz⟩ := hmet'
    obtain ⟨z', hz', hnumbered, -⟩ := opened_run hopened before
    obtain rfl : z = z' := Option.some.inj (hz.symm.trans hz')
    obtain ⟨z'', hz'', -, hwaiting⟩ := waiting_of_closed hopened hmet hhistory hu
    obtain rfl : z = z'' := Option.some.inj (hz.symm.trans hz'')
    obtain ⟨id, hmover, hin⟩ := Site.mover?_of_gains hnumbered hgains
    exact ⟨id, hmover, hwaiting id hin⟩

end Runs

/-- A watch is accepted after the connection is gone: the closed session has it for good. -/
theorem closed_is_not_final_of_watch :
    let client := opened [Session.opened 0 {} 1 true]
    let history : List (Nat × Event) := [(0, .launch (.watch ⟨"/r"⟩ true)), (0, .close),
      (0, .settle 0 0 (.answered (.bool true)))]
    ∃ x y, client.Met history 0 1 .close y ∧ y.session.closed = false ∧ (y.stage? 0).isSome = true ∧
      (client.run history).site? 0 = some x ∧ x.session.closed = true ∧ x.watched.map Path.text = ["/r"] ∧
      ¬ (∀ before rest x, history = before ++ rest → 1 < (client.run before).clock →
        (client.run before).site? 0 = some x → client.Final before 0 1 x) := by
  intro client history
  have hopened : [Session.opened 0 {} 1 true][0]? = some (Session.opened 0 {} 1 true) := rfl
  have hothers : Apart [Session.opened 0 {} 1 true] 0 0 := by
    intro j s hj hs
    rw [List.getElem?_singleton, if_neg hj] at hs
    contradiction
  obtain ⟨y, hy, -⟩ := opened_run hopened (history.take 1)
  have hmet : client.Met history 0 1 .close y := ⟨history.take 1, history.drop 2, rfl, rfl, hy⟩
  have hfirst : ((client.run (history.take 1)).site? 0).map (·.session.closed) = some false := rfl
  rw [show (client.run (history.take 1)).site? 0 = some y from hy] at hfirst
  -- the watch is accepted while the operation that was in flight at the end waits for it
  obtain ⟨z, hz, -⟩ := opened_run hopened (history.take 2)
  have hmet' : client.Met history 0 2 (.settle 0 0 (.answered (.bool true))) z :=
    ⟨history.take 2, history.drop 3, rfl, rfl, hz⟩
  have hwaits : ((client.run (history.take 2)).site? 0).bind (Site.stage? 0) = some (.adding ⟨"/r"⟩ .host) := rfl
  rw [show (client.run (history.take 2)).site? 0 = some z from hz] at hwaits
  have hgains : z.Gains 2 (.settle 0 0 (.answered (.bool true))) := Or.inr ⟨0, _, _, rfl, hwaits, rfl⟩
  obtain ⟨hiff, hinFlight⟩ := closed_is_final_iff hopened hothers hmet (Option.some.inj hfirst)
  obtain ⟨id, hmover, hin⟩ := hinFlight 2 _ z (by decide) hmet' hgains
  cases hmover
  obtain ⟨x, hx, -⟩ := opened_run hopened history
  have hleft : ((client.run history).site? 0).map (fun x => (x.session.closed, x.watched.map Path.text)) =
      some (true, ["/r"]) := by decide +kernel
  rw [show (client.run history).site? 0 = some x from hx] at hleft
  obtain ⟨hclosed, hwatched⟩ := Prod.mk.inj (Option.some.inj hleft)
  exact ⟨x, y, hmet, Option.some.inj hfirst, hin, hx, hclosed, hwatched,
    fun hfinal => hiff.1 hfinal 2 _ z (by decide) hmet' hgains⟩

end Client

end RemoteFacts
