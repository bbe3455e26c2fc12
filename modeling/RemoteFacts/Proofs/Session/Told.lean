import RemoteFacts.Proofs.Session.Asked
import RemoteFacts.Proofs.Session.History

/-!
# What connections have told

The registry is to hold just what the remote sides have said. What they have said is read off what can be seen from
outside: the calls that events send, and how these calls end.

* `Event.outAfter`, `out_step` : which calls are out, seen from outside, are those that the operations wait for;
* `Event.news`, `believed_step` : what an event lets be heard is what the registry learns from it;
* `Site.AsksByBelief` : what is asked for agrees with what is believed;
* `Journal`, `Client.journal` : the calls that are out and what has been heard, over a history (`Kept`, `Kept.step`);
* `belief_is_what_was_told` : the watches in the registry are what the connections have told, in every state.
-/

namespace RemoteFacts

namespace Session

/-- The calls that an event has sent. -/
def Answer.sent (a : Answer) : List (Nat × Rpc.Request) :=
  match a.progress? with
  | some (_, p) => p.sent
  | none => []

/-- The calls that an event leaves out of those that are out: a call that ends or whose operation is dropped is not. -/
def Event.leaves (e : Event) (out : FlightId → Nat → Option Rpc.Request) : FlightId → Nat → Option Rpc.Request :=
  match e with
  | .settle id slot _ => Function.update out id (Function.update (out id) slot none)
  | .abandon id => Function.update out id fun _ => none
  | _ => out

/-- The calls that are out after an event, given those before it and what it has answered. -/
def Event.outAfter (e : Event) (answer : Answer) (out : FlightId → Nat → Option Rpc.Request) :
    FlightId → Nat → Option Rpc.Request :=
  match answer.progress? with
  | some (id, p) => Function.update (e.leaves out) id fun slot => (p.sent.lookup slot).or (e.leaves out id slot)
  | none => e.leaves out

theorem Event.outAfter_progress (e : Event) (i : FlightId) (p : Progress) (out : FlightId → Nat → Option Rpc.Request)
    (id : FlightId) (slot : Nat) : e.outAfter (.progress i p) out id slot =
      if id = i then (p.sent.lookup slot).or (e.leaves out id slot) else e.leaves out id slot := by
  unfold outAfter
  simp only [Answer.progress?, Function.update_apply]
  split
  · next hid => rw [hid]
  · rfl

/-- What an event lets be heard of the connection of a session: how one of the calls that are out has ended, or that the
connection is gone. A session that is closed does not hear so again. -/
def Event.news (closed : Bool) (out : FlightId → Nat → Option Rpc.Request) : Event → List Watch.News
  | .settle id slot reply => ((out id slot).map fun request => Watch.News.ended request reply).toList
  | .forgetWatches => [.gone]
  | .close => if closed then [] else [.gone]
  | _ => []

namespace Site

variable {x : Site} {now : Nat} {e : Event} {id : FlightId} {slot : Nat}

/-! ## Calls -/

theorem asked?_of_same {y : Site} (hflight : y.flight? id = x.flight? id)
    (hconfig : y.session.config = x.session.config) :
    y.asked? id slot = x.asked? id slot := by
  rw [asked?, asked?, stage?, stage?, hflight, hconfig]

theorem stage?_abandon : (x.abandon id).stage? id = none := by
  unfold abandon
  split
  · next hnone => rw [stage?, hnone]; rfl
  · rw [stage?_remove, if_pos rfl]

/-- The calls that are out, seen from outside, are those that the operations wait for. -/
theorem out_step (hx : x.Numbered) (id : FlightId) (slot : Nat) :
    (x.step now e).2.asked? id slot = e.outAfter (x.step now e).1 (fun id => x.asked? id) id slot := by
  have hother : x.mover? e ≠ some id → (x.step now e).2.asked? id slot = x.asked? id slot := fun hmover =>
    asked?_of_same (flight?_step_of_ne hx hmover) (later_step hx).config
  cases e with
  | launch operation =>
    have hname : (x.launch now operation).1 = x.session.next := launch_fst
    refine Eq.trans ?_
      (Event.outAfter_progress _ (x.launch now operation).1 (x.launch now operation).2.2 _ id slot).symm
    rw [hname]
    unfold Event.leaves
    dsimp only
    by_cases hid : id = x.session.next
    · have hnew := hx.stage?_eq_none (Nat.le_refl x.session.next)
      rw [if_pos hid, hid, asked?_of_none hnew, Option.or_none]
      exact (goes_launch hnew).asked? slot
    · rw [if_neg hid]
      exact hother fun hmover => hid (Option.some.inj hmover).symm
  | settle i slot' reply =>
    refine Eq.trans ?_ (Event.outAfter_progress _ i (x.settle now i slot' reply).2 _ id slot).symm
    unfold Event.leaves
    dsimp only
    by_cases hid : id = i
    · rw [if_pos hid, hid, Function.update_self, Function.update_apply]
      exact settles_settle.asked? slot
    · rw [if_neg hid, Function.update_of_ne hid]
      exact hother fun hmover => hid (Option.some.inj hmover).symm
  | proceed i =>
    refine Eq.trans ?_ (Event.outAfter_progress _ i (x.proceed now i).2 _ id slot).symm
    unfold Event.leaves
    dsimp only
    by_cases hid : id = i
    · rw [if_pos hid, hid]
      exact asked?_proceed slot
    · rw [if_neg hid]
      exact hother fun hmover => hid (Option.some.inj hmover).symm
  | abandon i =>
    show _ = Function.update (fun id => x.asked? id) i _ id slot
    by_cases hid : id = i
    · rw [hid, Function.update_self]
      exact asked?_of_none stage?_abandon
    · rw [Function.update_of_ne hid]
      exact hother fun hmover => hid (Option.some.inj hmover).symm
  | _ => exact hother nofun

/-! ## Watches -/

theorem registry_foldl_applyChange (paths : List Path) : (paths.foldl applyChange x).registry = x.registry := by
  induction paths generalizing x with
  | nil => rfl
  | cons p ps ih => exact ih

theorem registry_notify (n : Rpc.Notification) : (x.notify n).2.registry = x.registry := by
  unfold notify
  split
  · rfl
  · split
    · rfl
    · exact registry_foldl_applyChange _

/-- What an event does to the registry. -/
theorem registry_step (hx : x.Numbered) : (x.step now e).2.registry =
    match e with
    | .settle id slot reply =>
      match x.asked? id slot with
      | some request => x.registry.heed x.session.id now request reply
      | none => x.registry
    | .forgetWatches => (x.registry.clearFor x.session.id).2
    | .close => if x.session.closed then x.registry else (x.registry.clearFor x.session.id).2
    | _ => x.registry := by
  cases e with
  | launch operation => exact (goes_launch (hx.stage?_eq_none (Nat.le_refl _))).registry
  | settle id slot reply => exact settles_settle.registry
  | proceed id => exact registry_proceed
  | abandon id =>
    show (x.abandon id).registry = x.registry
    unfold abandon
    split
    · rfl
    · split
      · rfl
      · rfl
  | notify n => exact registry_notify n
  | close =>
    show x.close.registry = _
    unfold close
    split
    · rfl
    · rfl
  | enterScope =>
    show x.enterHostScope.2.registry = _
    unfold enterHostScope
    split
    · rfl
    · rfl
  | leaveScope =>
    show x.leaveHostScope.2.registry = _
    unfold leaveHostScope
    split
    · rfl
    · rfl
  | _ => rfl

/-- The registry believes of a connection what an event of it lets be heard, and of the others what it did. -/
theorem believed_step (hx : x.Numbered) (connection : Watch.ConnectionId) :
    (x.step now e).2.registry.believed connection =
      if connection = x.session.id then
        (e.news x.session.closed fun id => x.asked? id).foldl Watch.learn (x.registry.believed connection)
      else x.registry.believed connection := by
  rw [registry_step hx]
  cases e with
  | settle id slot reply =>
    unfold Event.news
    dsimp only
    cases x.asked? id slot with
    | none => exact (ite_self _).symm
    | some request => exact Watch.Registry.believed_heed connection
  | forgetWatches => exact Watch.Registry.believed_clearFor connection
  | close =>
    unfold Event.news
    dsimp only
    split
    · exact (ite_self _).symm
    · exact Watch.Registry.believed_clearFor connection
  | _ => exact (ite_self _).symm

theorem eachOnce_step (hx : x.Numbered) (h : x.registry.EachOnce) : (x.step now e).2.registry.EachOnce := by
  rw [registry_step hx]
  split
  · split
    · exact h.heed
    · exact h
  · exact h.clearFor
  · split
    · exact h
    · exact h.clearFor
  · exact h

/-! ## What is asked for -/

/-- What a session asks for agrees with what its connection is believed to watch. -/
structure AsksByBelief (x : Site) : Prop where
  /-- No watch is asked for that is believed to be there, and no end of one that is not. -/
  fits : ∀ now e, ∀ call ∈ (x.step now e).1.sent, x.Fits call.2
  /-- A watch that is not believed to be there is asked for at once, if nobody else is at the desk. -/
  watch : ∀ now path strict, x.session.closed = false → (x.step now (.launch (.watch path strict))).1.sent =
    if x.session.desk = [] ∧ path.parts ∉ x.registry.believed x.session.id then
      [(0, .watchAdd path x.session.config.watch.recursive)] else []
  /-- One that has had to wait is asked for when its turn has come, unless it is there by then. -/
  turn : ∀ now id path purpose, x.stage? id = some (.atDesk path purpose) → x.session.desk.head? = some id →
    (x.step now (.proceed id)).1.sent =
      if path.parts ∉ x.registry.believed x.session.id then [(0, .watchAdd path x.session.config.watch.recursive)]
      else []
  unwatch : ∀ now path strict, x.session.closed = false → (x.step now (.launch (.unwatch path strict))).1.sent =
    if path.parts ∈ x.registry.believed x.session.id then [(0, .watchRemove path)] else []

theorem sent_requestWatch {path : Path} {purpose : Purpose} : (x.requestWatch now id path purpose).2.sent =
    if path.parts ∉ x.registry.believed x.session.id then [(0, .watchAdd path x.session.config.watch.recursive)]
    else [] := by
  unfold requestWatch
  by_cases hwatched : path.parts ∈ x.registry.believed x.session.id
  · rw [if_pos (Watch.Registry.isWatched_iff.2 hwatched), if_neg (not_not_intro hwatched)]
    exact sent_leaveDesk
  · rw [if_neg fun hheld => hwatched (Watch.Registry.isWatched_iff.1 hheld), if_pos hwatched]
    rfl

theorem sent_proceed_atDesk {path : Path} {purpose : Purpose} (hs : x.stage? id = some (.atDesk path purpose)) :
    (x.proceed now id).2.sent =
      if x.session.desk.head? = some id ∧ path.parts ∉ x.registry.believed x.session.id then
        [(0, .watchAdd path x.session.config.watch.recursive)] else [] := by
  unfold proceed
  rw [hs]
  dsimp only
  by_cases hfirst : x.session.desk.head? = some id
  · simp [hfirst, sent_requestWatch]
  · simp [hfirst, Progress.waiting]

theorem sent_launch_watch (hx : x.Numbered) (hopen : x.session.closed = false) (path : Path) (strict : Bool) :
    (x.launch now (.watch path strict)).2.2.sent =
      if x.session.desk = [] ∧ path.parts ∉ x.registry.believed x.session.id then
        [(0, .watchAdd path x.session.config.watch.recursive)] else [] := by
  have hnew := hx.stage?_eq_none (Nat.le_refl x.session.next)
  -- the desk is empty exactly if whoever joins it is first
  have hfirst : (x.session.desk ++ [x.session.next]).head? = some x.session.next ↔ x.session.desk = [] := by
    cases hdesk : x.session.desk with
    | nil => simp
    | cons d ds =>
      have hlt : d < x.session.next := hx.desk d (by simp [hdesk])
      simp [Nat.ne_of_lt hlt]
  let y := ((x.enlist (.watch path strict) (.atDesk path .host)).2.wait x.session.next (.atDesk path .host)).placed
    (x.session.desk ++ [x.session.next]) x.registry
  have hs : y.stage? x.session.next = some (.atDesk path .host) := by
    refine stage?_wait_self (x := (x.enlist (.watch path strict) (.atDesk path .host)).2) ?_
    rw [stage?_enlist hnew, if_pos rfl]
    rfl
  have hlaunch : (x.launch now (.watch path strict)).2.2 = (y.proceed now x.session.next).2 := by
    unfold launch
    rw [if_neg (by rw [hopen]; exact Bool.false_ne_true)]
    rfl
  rw [hlaunch, sent_proceed_atDesk hs]
  show (if (x.session.desk ++ [x.session.next]).head? = some x.session.next ∧
      path.parts ∉ x.registry.believed x.session.id then _ else _) = _
  simp only [hfirst]
  rfl

theorem asksByBelief (hx : x.Numbered) : x.AsksByBelief where
  fits now e := by
    cases e with
    | launch operation => exact (goes_launch (hx.stage?_eq_none (Nat.le_refl _))).fits
    | settle id slot reply => exact settles_settle.fits
    | proceed id => exact fits_proceed
    | _ => exact nofun
  watch now path strict hopen := sent_launch_watch hx hopen path strict
  turn now id path purpose hs hfirst := by
    show (x.proceed now id).2.sent = _
    rw [sent_proceed_atDesk hs]
    simp [hfirst]
  unwatch now path strict hopen := by
    show (x.launch now (.unwatch path strict)).2.2.sent = _
    unfold launch
    by_cases hwatched : path.parts ∈ x.registry.believed x.session.id
    · simp [hopen, hwatched, Watch.Registry.isWatched_iff.2 hwatched, Progress.asking]
    · have hnot : x.registry.isWatched x.session.id path = false := by
        rw [← Bool.not_eq_true, Watch.Registry.isWatched_iff]
        exact hwatched
      simp [hopen, hwatched, hnot]

end Site

end Session

/-! ## Histories -/

namespace Client

open Session

variable {c : Client} {i : Nat} {e : Event} {x : Site} {history : List (Nat × Event)} {connection : Watch.ConnectionId}

/-- What can be seen of the calls of all sessions. -/
structure Journal where
  /-- The calls that are out, by session, operation and slot. -/
  out : Nat → FlightId → Nat → Option Rpc.Request
  /-- What has been heard, and of which connection. -/
  log : List (Watch.ConnectionId × Watch.News)

namespace Journal

def empty : Journal := ⟨fun _ _ _ => none, []⟩

/-- The journal after one event of the session with number `i`. -/
def record (c : Client) (j : Journal) (i : Nat) (e : Event) : Journal :=
  match c.site? i with
  | none => j
  | some x =>
    { out := Function.update j.out i (e.outAfter (c.step i e).1 (j.out i))
      log := j.log ++ (e.news x.session.closed (j.out i)).map (x.session.id, ·) }

/-- What a connection is to be believed to watch, after all that has been heard of it. -/
def told (connection : Watch.ConnectionId) (j : Journal) : Finset (List Part) :=
  ((j.log.filter (·.1 == connection)).map (·.2)).foldl Watch.learn ∅

end Journal

/-- The journal of a history. -/
def journal (c : Client) (history : List (Nat × Event)) : Journal :=
  (history.foldl (fun (c, j) (i, e) => ((c.step i e).2, j.record c i e)) (c, Journal.empty)).2

theorem journal_snoc : c.journal (history ++ [(i, e)]) = (c.journal history).record (c.run history) i e := by
  have hclient : ∀ (history : List (Nat × Event)) (j : Journal),
      (history.foldl (fun (c, j) (i, e) => ((c.step i e).2, j.record c i e)) (c, j)).1 = c.run history := by
    intro history
    induction history generalizing c with
    | nil => exact fun _ => rfl
    | cons f history ih => exact fun j => ih _
  unfold journal
  rw [List.foldl_append]
  show Journal.record _ _ i e = _
  rw [hclient]

theorem told_append (log : List (Watch.ConnectionId × Watch.News)) (out : Nat → FlightId → Nat → Option Rpc.Request)
    (other : Watch.ConnectionId) (news : List Watch.News) :
    Journal.told connection ⟨out, log ++ news.map (other, ·)⟩ =
      if connection = other then news.foldl Watch.learn (Journal.told connection ⟨out, log⟩)
      else Journal.told connection ⟨out, log⟩ := by
  unfold Journal.told
  dsimp only
  rw [List.filter_append, List.map_append, List.foldl_append]
  split
  · next hsame => simp [hsame, List.filter_map, Function.comp_def]
  · next hother =>
    have hnone : (news.map (other, ·)).filter (·.1 == connection) = [] := by
      refine List.filter_eq_nil_iff.2 fun entry hentry => ?_
      obtain ⟨_, -, rfl⟩ := List.mem_map.1 hentry
      simpa using Ne.symm hother
    rw [hnone]
    rfl

/-- What an event of another session leaves of a session. -/
theorem exists_site?_of_step {k : Nat} {y : Site} (hk : k ≠ i) (hy : (c.step i e).2.site? k = some y) :
    ∃ z registry, c.site? k = some z ∧ y = { z with registry } := by
  cases hz : c.site? k with
  | some z =>
    obtain ⟨registry, hsame⟩ := site?_step_of_ne (e := e) hz (Ne.symm hk)
    exact ⟨z, registry, rfl, Option.some.inj (hy.symm.trans hsame)⟩
  | none =>
    cases hx : c.site? i with
    | none =>
      rw [step_of_none hx, hz] at hy
      contradiction
    | some x =>
      rw [step_of_site? hx, site?, List.getElem?_set_ne (Ne.symm hk), Option.map_eq_some_iff] at hy
      obtain ⟨s, hs, -⟩ := hy
      rw [site?, hs] at hz
      contradiction

/-- The journal tells what is out and what is believed. -/
structure Kept (c : Client) (j : Journal) : Prop where
  numbered : ∀ i x, c.site? i = some x → x.Numbered
  out : ∀ i x, c.site? i = some x → ∀ id slot, j.out i id slot = x.asked? id slot
  believed : ∀ connection, c.registry.believed connection = j.told connection
  eachOnce : c.registry.EachOnce

theorem Kept.step {j : Journal} (h : c.Kept j) (i : Nat) (e : Event) : (c.step i e).2.Kept (j.record c i e) := by
  cases hx : c.site? i with
  | none =>
    unfold Journal.record
    rw [step_of_none hx, hx]
    exact h
  | some x =>
    have hnumbered := h.numbered i x hx
    have hout : j.out i = fun id => x.asked? id := funext fun id => funext fun slot => h.out i x hx id slot
    have hregistry : (c.step i e).2.registry = (x.step c.clock e).2.registry := by rw [step_of_site? hx]
    have hrecord : j.record c i e = ⟨Function.update j.out i (e.outAfter (c.step i e).1 (j.out i)),
        j.log ++ (e.news x.session.closed (j.out i)).map (x.session.id, ·)⟩ := by
      unfold Journal.record
      rw [hx]
    rw [hrecord]
    refine ⟨fun k y hy => ?_, fun k y hy id slot => ?_, fun connection => ?_, ?_⟩
    · by_cases hk : k = i
      · subst hk
        rw [site?_step hx] at hy
        exact Option.some.inj hy ▸ hnumbered.step
      · obtain ⟨z, registry, hz, rfl⟩ := exists_site?_of_step hk hy
        have hthen := h.numbered k z hz
        exact ⟨hthen.flights, hthen.gate, hthen.desk⟩
    · dsimp only
      by_cases hk : k = i
      · subst hk
        rw [site?_step hx] at hy
        rw [← Option.some.inj hy, Site.out_step hnumbered, Function.update_self, hout, step_of_site? hx]
      · obtain ⟨z, registry, hz, rfl⟩ := exists_site?_of_step hk hy
        rw [Function.update_of_ne hk, h.out k z hz]
        rfl
    · have hbefore : x.registry.believed connection = j.told connection :=
        (sessions_of_site? hx).2 ▸ h.believed connection
      rw [told_append, hregistry, Site.believed_step hnumbered, hout, hbefore]
      rfl
    · rw [hregistry]
      exact Site.eachOnce_step hnumbered ((sessions_of_site? hx).2 ▸ h.eachOnce)

theorem kept_run {sessions : List Session} (hopened : ∀ s ∈ sessions, ∃ connection config ticks flushesOnLeave,
    s = Session.opened connection config ticks flushesOnLeave) (history : List (Nat × Event)) :
    ((opened sessions).run history).Kept ((opened sessions).journal history) := by
  induction history using List.reverseRecOn with
  | nil =>
    have hstart : ∀ i x, (opened sessions).site? i = some x → ∃ connection config ticks flushesOnLeave,
        x = ⟨Session.opened connection config ticks flushesOnLeave, .empty⟩ := by
      intro i x hx
      obtain ⟨s, hs, rfl⟩ := Option.map_eq_some_iff.1 hx
      obtain ⟨connection, config, ticks, flushesOnLeave, rfl⟩ := hopened s (List.mem_of_getElem? hs)
      exact ⟨connection, config, ticks, flushesOnLeave, rfl⟩
    refine ⟨fun i x hx => ?_, fun i x hx id slot => ?_, fun connection => Watch.Registry.believed_empty, List.nodup_nil⟩
    · obtain ⟨connection, config, ticks, flushesOnLeave, rfl⟩ := hstart i x hx
      exact Site.numbered_opened _ _ _ _ _
    · obtain ⟨connection, config, ticks, flushesOnLeave, rfl⟩ := hstart i x hx
      rfl
  | append_singleton history f ih =>
    rw [run_snoc, journal_snoc]
    exact ih.step f.1 f.2

/-- What the registry believes is just what the connections have told. After every history of any number of sessions,
opened as they are, the watches of a connection are those that its calls, as they have ended, and its end justify, each
once. And in every such state a session asks for the watches that are not believed to be there, and for the ends of
those that are. -/
theorem belief_is_what_was_told {sessions : List Session}
    (hopened : ∀ s ∈ sessions, ∃ connection config ticks flushesOnLeave,
      s = Session.opened connection config ticks flushesOnLeave) (history : List (Nat × Event)) :
    (∀ connection, (((opened sessions).run history).registry.believed connection =
        ((opened sessions).journal history).told connection) ∧
      ((((opened sessions).run history).registry.pathsFor connection).map Path.parts).Nodup) ∧
    ∀ i x, ((opened sessions).run history).site? i = some x → x.AsksByBelief := by
  have hkept := kept_run hopened history
  refine ⟨fun connection => ⟨hkept.believed connection, hkept.eachOnce.pathsFor connection⟩, fun i x hx => ?_⟩
  exact Site.asksByBelief (hkept.numbered i x hx)

/-- Two connections. The one's watch is accepted, and stays although an end of it fails and another one times out; it
goes when the remote side says that it is not there. The next one is written over by the list. The other's watch is
declined. -/
theorem belief_is_what_was_told_of_two :
    let client := opened [Session.opened 4 {} 1 true, Session.opened 7 {} 1 true]
    let history : List (Nat × Event) := [
      (0, .launch (.watch ⟨"/a"⟩ true)), (0, .settle 0 0 (.answered (.bool true))),
      (1, .launch (.watch ⟨"/a"⟩ true)), (1, .settle 0 0 (.answered (.bool false))),
      (0, .launch (.unwatch ⟨"//a"⟩ false)), (0, .settle 1 0 (.failed "lost")),
      (0, .launch .unwatchAll), (0, .settle 2 0 (.timedOut 30))]
    let later := history ++ [
      (0, .launch (.unwatch ⟨"/a/"⟩ true)), (0, .settle 3 0 (.answered (.bool false))),
      (0, .launch (.watch ⟨"/b"⟩ true)), (0, .settle 4 0 (.answered (.bool true))), (0, .launch .resync),
      (0, .settle 5 0 (.answered (.array [.object [("path", .text "/c/")]])))]
    (client.run history).registry.believed 4 = {(⟨"/a"⟩ : Path).parts} ∧
      (client.run later).registry.believed 4 = {(⟨"/c"⟩ : Path).parts} ∧
      (client.run later).registry.believed 7 = ∅ := by
  intro client history later
  have hopened : ∀ s ∈ [Session.opened 4 {} 1 true, Session.opened 7 {} 1 true],
      ∃ connection config ticks flushesOnLeave, s = Session.opened connection config ticks flushesOnLeave := by
    intro s hs
    rcases List.mem_cons.1 hs with rfl | hs
    · exact ⟨4, {}, 1, true, rfl⟩
    · rw [List.mem_singleton.1 hs]
      exact ⟨7, {}, 1, true, rfl⟩
  obtain ⟨hthen, -⟩ := belief_is_what_was_told hopened history
  obtain ⟨hnow, -⟩ := belief_is_what_was_told hopened later
  refine ⟨(hthen 4).1.trans ?_, (hnow 4).1.trans ?_, (hnow 7).1.trans ?_⟩
  · decide +kernel
  · decide +kernel
  · decide +kernel

end Client

end RemoteFacts
