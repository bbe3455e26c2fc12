import RemoteFacts.Proofs.Session.Turn
import RemoteFacts.Proofs.Watch.Entries

/-!
# The table of operations and the two queues

* `Later` : what no event changes (`later_step`);
* `SameTable` : what a site holds changes, and nothing of its operations and queues;
* `Numbered` : every operation in the table and in the queues has an older name than the next one
  (`numbered_opened`, `Numbered.step`), so that a new operation is nowhere yet (`Numbered.stage?_eq_none`);
* `mover?`, `Moves` : an event takes one operation on, drops it or begins it, or leaves them all where they are
  (`moves_step` : so does every event; `flight?_step_of_ne` : it touches no operation but its own).
-/

namespace RemoteFacts.Session

/-- The operation that has gone on or begun, and what it has done. -/
def Answer.progress? : Answer → Option (FlightId × Progress)
  | progress id p => some (id, p)
  | _ => none

namespace Site

variable {now : Nat} {x y : Site} {id : FlightId} {s : Stage} {reply? : Option Rpc.Reply} {yp : Site × Progress}
    {e : Event}

/-! ## Events that no operation has a part in -/

/-- `y` is of the same session as `x`, later on. -/
structure Later (x y : Site) : Prop where
  id : y.session.id = x.session.id
  config : y.session.config = x.session.config
  closed : x.session.closed = true → y.session.closed = true

/-- `y` has the operations and queues of `x`, and no watch more; what is held may differ. -/
structure SameTable (x y : Site) : Prop extends Later x y where
  flights : y.session.flights = x.session.flights
  gate : y.session.gate = x.session.gate
  desk : y.session.desk = x.session.desk
  next : y.session.next = x.session.next
  watches : ∀ a ∈ y.registry.entries, a ∈ x.registry.entries

theorem SameTable.trans {z : Site} (h : SameTable x y) (k : SameTable y z) : SameTable x z where
  id := k.id.trans h.id
  config := k.config.trans h.config
  closed hclosed := k.closed (h.closed hclosed)
  flights := k.flights.trans h.flights
  gate := k.gate.trans h.gate
  desk := k.desk.trans h.desk
  next := k.next.trans h.next
  watches a ha := h.watches a (k.watches a ha)

theorem sameTable_held (store : FactStore) (transient : Transient) (suppression : Suppression) (hostScope : Bool) :
    SameTable x { x with session := { x.session with store, transient, suppression, hostScope } } :=
  ⟨⟨rfl, rfl, fun hclosed => hclosed⟩, rfl, rfl, rfl, rfl, fun _ ha => ha⟩

theorem SameTable.refl (x : Site) : SameTable x x := sameTable_held ..

theorem sameTable_forgetWatches : SameTable x x.forgetWatches.2 :=
  ⟨⟨rfl, rfl, fun hclosed => hclosed⟩, rfl, rfl, rfl, rfl, fun _ ha => (Watch.Registry.mem_clearFor.1 ha).1⟩

theorem sameTable_foldl_applyChange (paths : List Path) : SameTable x (paths.foldl applyChange x) := by
  induction paths generalizing x with
  | nil => exact SameTable.refl x
  | cons p ps ih => exact SameTable.trans (y := x.applyChange p) (sameTable_held ..) ih

theorem sameTable_notify (n : Rpc.Notification) : SameTable x (x.notify n).2 := by
  unfold notify
  split
  · exact SameTable.refl x
  · split
    · exact sameTable_held ..
    · exact sameTable_foldl_applyChange _

theorem sameTable_close : SameTable x x.close := by
  unfold close
  split
  · exact SameTable.refl x
  · exact ⟨⟨rfl, rfl, fun _ => rfl⟩, rfl, rfl, rfl, rfl, sameTable_forgetWatches.watches⟩

theorem sameTable_enterHostScope : SameTable x x.enterHostScope.2 := by
  unfold enterHostScope
  split
  · exact SameTable.refl x
  · exact sameTable_held ..

theorem sameTable_leaveHostScope : SameTable x x.leaveHostScope.2 := by
  unfold leaveHostScope
  split
  · exact sameTable_held ..
  · exact SameTable.refl x

theorem SameTable.flight? (h : SameTable x y) : y.flight? id = x.flight? id := by
  unfold Site.flight?
  rw [h.flights]

theorem SameTable.stage? (h : SameTable x y) : y.stage? id = x.stage? id := by
  unfold Site.stage?
  rw [h.flight?]

/-! ## Names -/

/-- Every operation in the table and in the queues has an older name than the next one. -/
structure Numbered (x : Site) : Prop where
  flights : ∀ f ∈ x.session.flights, f.id < x.session.next
  gate : ∀ i ∈ x.session.gate, i < x.session.next
  desk : ∀ i ∈ x.session.desk, i < x.session.next

namespace Numbered

/-- The next name is that of no operation yet. -/
theorem stage?_eq_none (hx : x.Numbered) (hid : x.session.next ≤ id) : x.stage? id = none := by
  rw [Site.stage?, Site.flight?, List.find?_eq_none.2]
  · rfl
  · intro f hf hid'
    have heq : f.id = id := by simpa using hid'
    exact absurd (heq ▸ hx.flights f hf) (Nat.not_lt.2 hid)

theorem lt_of_stage? (hx : x.Numbered) (hs : (x.stage? id).isSome = true) : id < x.session.next := by
  apply Nat.lt_of_not_le
  intro hle
  rw [hx.stage?_eq_none hle] at hs
  contradiction

theorem sameTable (hx : x.Numbered) (h : SameTable x y) : y.Numbered := by
  constructor
  · rw [h.flights, h.next]; exact hx.flights
  · rw [h.gate, h.next]; exact hx.gate
  · rw [h.desk, h.next]; exact hx.desk

theorem wait (id : FlightId) (stage : Stage) (hx : x.Numbered) : (x.wait id stage).Numbered := by
  refine ⟨fun f hf => ?_, hx.gate, hx.desk⟩
  obtain ⟨g, hg, rfl⟩ := List.mem_map.1 hf
  split
  · exact hx.flights g hg
  · exact hx.flights g hg

theorem remove (id : FlightId) (hx : x.Numbered) : (x.remove id).Numbered :=
  ⟨fun f hf => hx.flights f (List.mem_filter.1 hf).1, fun i hi => hx.gate i (List.mem_of_mem_erase hi),
    fun i hi => hx.desk i (List.mem_of_mem_erase hi)⟩

/-- Whoever is new at the desk is in the table. -/
theorem placed {desk : List FlightId} (registry : Watch.Registry) (hs : x.stage? id = some s)
    (hdesk : ∀ j ∈ desk, j ∈ x.session.desk ∨ j = id) (hx : x.Numbered) : (x.placed desk registry).Numbered := by
  refine ⟨hx.flights, hx.gate, fun j hj => ?_⟩
  rcases hdesk j hj with hj | rfl
  · exact hx.desk j hj
  · exact hx.lt_of_stage? (Option.isSome_of_eq_some hs)

theorem enlist {operation : Operation} {stage : Stage} (hx : x.Numbered) : (x.enlist operation stage).2.Numbered := by
  refine ⟨fun f hf => ?_, fun i hi => Nat.lt_succ_of_lt (hx.gate i hi), fun i hi => Nat.lt_succ_of_lt (hx.desk i hi)⟩
  rcases List.mem_append.1 hf with hf | hf
  · exact Nat.lt_succ_of_lt (hx.flights f hf)
  · rw [List.mem_singleton.1 hf]
    exact Nat.lt_succ_self _

theorem joined {operation : Operation} {stage : Stage} (hx : x.Numbered) :
    (x.joined operation stage x.session.suppression x.session.desk).Numbered := by
  have hlisted : (x.enlist operation stage).2.Numbered := hx.enlist
  refine ⟨hlisted.flights, fun i hi => ?_, hlisted.desk⟩
  rcases List.mem_append.1 hi with hi | hi
  · exact hlisted.gate i hi
  · rw [List.mem_singleton.1 hi]
    exact Nat.lt_succ_self _

theorem turn (hturn : Turn now id reply? x yp) (hx : x.Numbered) : yp.1.Numbered := by
  cases hturn with
  | rest => exact hx
  | enter _ _ _ => exact wait id _ (hx.sameTable (sameTable_held ..))
  | refuse _ _ _ => exact hx.remove id
  | giveUp _ _ _ => exact remove id (x := x.leaveScope.2) (hx.sameTable (sameTable_held ..))
  | carry desk _ hs _ _ hdesk => exact wait id _ (hx.placed x.registry hs hdesk)
  | @commit _ h desk registry hs _ hdesk =>
    have hlanding : SameTable (x.placed desk registry) ((x.placed desk registry).landing now h) := sameTable_held ..
    exact remove id ((hx.placed registry hs hdesk).sameTable hlanding)
  | goOn desk registry _ hs _ _ hdesk => exact wait id _ (hx.placed registry hs hdesk)
  | ended desk registry hs _ _ hdesk => exact remove id (hx.placed registry hs hdesk)

theorem start {operation : Operation} (hstart : Start now operation x yp) (hx : x.Numbered) : yp.1.Numbered := by
  cases hstart with
  | refused _ => exact hx
  | prefetch _ _ hturn => exact hx.joined.turn hturn
  | host _ _ _ hturn => exact hx.enlist.turn hturn
  | atOnce _ _ _ _ => exact hx.enlist

end Numbered

/-! ## Events -/

/-- The operation that an event takes on, drops or begins. -/
def mover? (x : Site) : Event → Option FlightId
  | .launch _ => some x.session.next
  | .settle id _ _ => some id
  | .proceed id => some id
  | .abandon id => some id
  | _ => none

/-- What an event at `now` answers and does with the operations. -/
inductive Moves (now : Nat) (x : Site) : Event → Answer × Site → Prop where
  | launch {operation : Operation} {y : Site} {p : Progress} (h : Start now operation x (y, p)) :
      Moves now x (.launch operation) (.progress x.session.next p, y)
  | settle {id : FlightId} {slot : Nat} {reply : Rpc.Reply} {y : Site} {p : Progress}
      (h : Turn now id (heard? slot reply) x (y, p)) : Moves now x (.settle id slot reply) (.progress id p, y)
  | proceed {id : FlightId} {y : Site} {p : Progress} (h : Turn now id none x (y, p)) :
      Moves now x (.proceed id) (.progress id p, y)
  | dropInside {id : FlightId} {since : Nat} (hin : x.since? id = some since) :
      Moves now x (.abandon id) (.nothing, x.leaveScope.2.remove id)
  | dropOutside {id : FlightId} {s : Stage} (hs : x.stage? id = some s) (hout : x.since? id = none) :
      Moves now x (.abandon id) (.nothing, x.remove id)
  | dropNone {id : FlightId} (hnone : x.stage? id = none) : Moves now x (.abandon id) (.nothing, x)
  | stay {e : Event} {a : Answer} {y : Site} (he : x.mover? e = none) (hquiet : a.progress? = none)
      (h : SameTable x y) : Moves now x e (a, y)

theorem moves_abandon : Moves now x (.abandon id) (.nothing, x.abandon id) := by
  unfold abandon
  cases hf : x.flight? id with
  | none => exact Moves.dropNone (by rw [stage?, hf]; rfl)
  | some f =>
    have hs : x.stage? id = some f.stage := stage?_of_find? hf
    dsimp only
    split
    · next hin =>
      rw [← Stage.isSome_since?] at hin
      obtain ⟨since, hst⟩ := Option.isSome_iff_exists.1 hin
      exact Moves.dropInside ((since?_of_stage? hs).trans hst)
    · next hin =>
      rw [← Stage.isSome_since?, Option.not_isSome_iff_eq_none] at hin
      exact Moves.dropOutside hs ((since?_of_stage? hs).trans hin)

/-- Each event is one of these. -/
theorem moves_step (hx : x.Numbered) : Moves now x e (x.step now e) := by
  cases e with
  | launch operation =>
    have hstart : Start now operation x (x.launch now operation).2 := start_launch (hx.stage?_eq_none (Nat.le_refl _))
    have hmoves := Moves.launch (y := (x.launch now operation).2.1) (p := (x.launch now operation).2.2) hstart
    have hname : (x.launch now operation).1 = x.session.next := launch_fst
    rw [← hname] at hmoves
    exact hmoves
  | settle id slot reply => exact Moves.settle turn_settle
  | proceed id => exact Moves.proceed turn_proceed
  | abandon id => exact moves_abandon
  | notify n => exact Moves.stay rfl rfl (sameTable_notify n)
  | close => exact Moves.stay rfl rfl sameTable_close
  | enterScope => exact Moves.stay rfl rfl sameTable_enterHostScope
  | leaveScope => exact Moves.stay rfl rfl sameTable_leaveHostScope
  | forgetWatches => exact Moves.stay rfl rfl sameTable_forgetWatches
  | _ => exact Moves.stay rfl rfl (sameTable_held ..)

/-- No event gives away a name again. -/
theorem Numbered.step (hx : x.Numbered) : (x.step now e).2.Numbered := by
  have hmoves : Moves now x e (x.step now e) := moves_step hx
  generalize x.step now e = ay at hmoves
  cases hmoves with
  | launch h => exact hx.start h
  | settle h => exact hx.turn h
  | proceed h => exact hx.turn h
  | dropInside _ => exact remove _ (x := x.leaveScope.2) (hx.sameTable (sameTable_held ..))
  | dropOutside _ _ => exact hx.remove _
  | dropNone _ => exact hx
  | stay _ _ h => exact hx.sameTable h

theorem numbered_opened (id : Watch.ConnectionId) (config : Config) (ticks : Nat) (flushesOnLeave : Bool)
    (registry : Watch.Registry) : Numbered ⟨Session.opened id config ticks flushesOnLeave, registry⟩ := by
  constructor
  · intro f hf
    contradiction
  · intro i hi
    contradiction
  · intro i hi
    contradiction

/-! ## The operations that an event leaves alone -/

theorem flight?_turn_of_ne {j : FlightId} (hturn : Turn now id reply? x yp) (hj : j ≠ id) :
    yp.1.flight? j = x.flight? j := by
  have hwait : ∀ (z : Site) (stage : Stage), (z.wait id stage).flight? j = z.flight? j := fun z stage => by
    rw [flight?_wait, if_neg hj]
  have hremove : ∀ z : Site, (z.remove id).flight? j = z.flight? j := fun z => by rw [flight?_remove, if_neg hj]
  cases hturn with
  | rest => rfl
  | enter _ _ _ => exact hwait _ _
  | refuse _ _ _ => exact hremove _
  | giveUp _ _ _ => exact hremove _
  | carry desk _ _ _ _ _ => exact hwait (x.placed desk x.registry) _
  | commit _ _ _ _ _ => exact hremove _
  | goOn desk registry _ _ _ _ _ => exact hwait (x.placed desk registry) _
  | ended desk registry _ _ _ _ => exact hremove (x.placed desk registry)

theorem flight?_joined_of_ne {operation : Operation} {stage : Stage} {suppression : Suppression} {desk : List FlightId}
    {j : FlightId} (hj : j ≠ x.session.next) : (x.joined operation stage suppression desk).flight? j = x.flight? j := by
  simp [flight?, joined, List.find?_append, Ne.symm hj]

theorem flight?_enlist_of_ne {operation : Operation} {stage : Stage} {j : FlightId} (hj : j ≠ x.session.next) :
    (x.enlist operation stage).2.flight? j = x.flight? j := by
  simp [flight?, enlist, List.find?_append, Ne.symm hj]

theorem flight?_start_of_ne {operation : Operation} {j : FlightId} (hstart : Start now operation x yp)
    (hj : j ≠ x.session.next) : yp.1.flight? j = x.flight? j := by
  cases hstart with
  | refused _ => rfl
  | prefetch _ _ hturn => rw [flight?_turn_of_ne hturn hj, flight?_joined_of_ne hj]
  | host _ _ _ hturn => rw [flight?_turn_of_ne hturn hj, flight?_enlist_of_ne hj]
  | atOnce _ _ _ _ => exact flight?_enlist_of_ne hj

/-- An event touches no operation but its own. -/
theorem flight?_step_of_ne {j : FlightId} (hx : x.Numbered) (hj : x.mover? e ≠ some j) :
    (x.step now e).2.flight? j = x.flight? j := by
  have hmoves : Moves now x e (x.step now e) := moves_step hx
  generalize x.step now e = ay at hmoves
  cases hmoves with
  | launch h => exact flight?_start_of_ne h fun hnext => hj (congrArg some hnext.symm)
  | settle h => exact flight?_turn_of_ne h fun hid => hj (congrArg some hid.symm)
  | proceed h => exact flight?_turn_of_ne h fun hid => hj (congrArg some hid.symm)
  | dropInside _ => rw [flight?_remove, if_neg fun hid => hj (congrArg some hid.symm)]; rfl
  | dropOutside _ _ => rw [flight?_remove, if_neg fun hid => hj (congrArg some hid.symm)]
  | dropNone _ => rfl
  | stay _ _ h => exact h.flight?

theorem since?_step_of_ne {j : FlightId} (hx : x.Numbered) (hj : x.mover? e ≠ some j) :
    (x.step now e).2.since? j = x.since? j := by
  rw [since?, stage?, flight?_step_of_ne hx hj]
  rfl

/-! ## What no event changes -/

theorem later_turn (hturn : Turn now id reply? x yp) : Later x yp.1 := by
  cases hturn <;> exact ⟨rfl, rfl, fun hclosed => hclosed⟩

theorem later_start {operation : Operation} (hstart : Start now operation x yp) : Later x yp.1 := by
  cases hstart with
  | refused _ => exact ⟨rfl, rfl, fun hclosed => hclosed⟩
  | prefetch _ _ hturn => exact ⟨(later_turn hturn).id, (later_turn hturn).config, (later_turn hturn).closed⟩
  | host _ _ _ hturn => exact ⟨(later_turn hturn).id, (later_turn hturn).config, (later_turn hturn).closed⟩
  | atOnce _ _ _ _ => exact ⟨rfl, rfl, fun hclosed => hclosed⟩

/-- No event changes whose session it is or how it is set up, and none opens it again. -/
theorem later_step (hx : x.Numbered) : Later x (x.step now e).2 := by
  have hmoves : Moves now x e (x.step now e) := moves_step hx
  generalize x.step now e = ay at hmoves
  cases hmoves with
  | launch h => exact later_start h
  | settle h => exact later_turn h
  | proceed h => exact later_turn h
  | dropInside _ => exact ⟨rfl, rfl, fun hclosed => hclosed⟩
  | dropOutside _ _ => exact ⟨rfl, rfl, fun hclosed => hclosed⟩
  | dropNone _ => exact ⟨rfl, rfl, fun hclosed => hclosed⟩
  | stay _ _ h => exact h.toLater

end Site

end RemoteFacts.Session
