import RemoteFacts.Proofs.Coherence.Facts
import RemoteFacts.Proofs.Prefetch.Course

/-!
# Where a prefetch stands

Seen from the site in which it was launched, a prefetch that is under way has added itself and its scope, and nothing
else.

* `Site.Sound` : the sites in which a prefetch can be launched (`Site.sound_of_reaches` : all that a history leads to);
* `Brought` : a harvest is what these replies have brought in;
* `Waits`, `Running` : where a prefetch that has not ended waits, and what the site is like then;
* `Site.restored`, `Site.landed`, `Ended` : what the site is like when it has ended;
* `stands_launch`, `stands_settle`, `stands_proceed` : each turn leads to one of these, and so does the whole course
  (`Course.standing`).
-/

namespace RemoteFacts.Session

/-- A site whose table and scopes are in order and that flushes at the end of a scope. -/
structure Site.Sound (x : Site) : Prop where
  numbered : x.Numbered
  exclusive : Exclusive x.holding
  flushes : x.session.flushesOnLeave = true

theorem Site.sound_of_reaches {x : Site} (h : Client.Reaches x) : x.Sound := by
  obtain ⟨c, history, i, hcoherent⟩ := h.coherent
  exact ⟨hcoherent.numbered, hcoherent.exclusive, hcoherent.current.flushes⟩

/-- What the replies to the batch and to the scan have brought in. -/
structure Brought (x : Site) (directory : Path) (replies : List Rpc.Reply) (h : Harvest) : Prop where
  asked : h.directory = directory
  batch : ∃ reply outputs, replies[0]? = some reply ∧ reply.outputs (x.session.plan directory).commands = .ok outputs ∧
    PrefetchResult.ofBatch directory outputs = (h.result, h.facts)
  scan : h.scan = if x.session.config.prefetch.ancestorMarkers = [] then none
    else (replies[1]?.bind fun reply => reply.markers.toOption).map (AncestorScan.mk directory)

/-- A further reply, to the request for a watch, adds nothing. -/
theorem Brought.snoc {x : Site} {directory : Path} {replies : List Rpc.Reply} {h : Harvest} {r : Rpc.Reply}
    (hb : Brought x directory replies h)
    (hscanned : 2 ≤ replies.length ∨ x.session.config.prefetch.ancestorMarkers = []) :
    Brought x directory (replies ++ [r]) h where
  asked := hb.asked
  batch := by
    obtain ⟨reply, outputs, hreply, hrest⟩ := hb.batch
    have hlt : 0 < replies.length := (List.getElem?_eq_some_iff.1 hreply).1
    exact ⟨reply, outputs, by rw [List.getElem?_append_left hlt, hreply], hrest⟩
  scan := by
    rw [hb.scan]
    rcases hscanned with hlen | hnone
    · rw [List.getElem?_append_left (by omega)]
    · rw [if_pos hnone, if_pos hnone]

/-- Where a prefetch waits that has entered its scope, with its place at the desk. -/
inductive Waits (x : Site) (directory : Path) : List Rpc.Reply → Stage → List FlightId → Prop where
  | batch (since : Nat) :
      Waits x directory [] (.batch directory since (x.session.plan directory).commands) x.session.desk
  | scan {replies : List Rpc.Reply} {h : Harvest} (hb : Brought x directory replies h) (hone : replies.length = 1)
      (hmarkers : x.session.config.prefetch.ancestorMarkers ≠ []) : Waits x directory replies (.scan h) x.session.desk
  | atDesk {replies : List Rpc.Reply} {h : Harvest} (path : Path) (hb : Brought x directory replies h)
      (hscanned : 2 ≤ replies.length ∨ x.session.config.prefetch.ancestorMarkers = []) :
      Waits x directory replies (.atDesk path (.root h)) (x.session.desk ++ [x.session.next])
  | adding {replies : List Rpc.Reply} {h : Harvest} (path : Path) (hb : Brought x directory replies h)
      (hscanned : 2 ≤ replies.length ∨ x.session.config.prefetch.ancestorMarkers = []) :
      Waits x directory replies (.adding path (.root h)) (x.session.desk ++ [x.session.next])

/-- The site while a prefetch launched in `x` is under way. -/
inductive Running (x : Site) (directory : Path) : List Rpc.Reply → List Rpc.Notification → Site → Prop where
  | atGate : Running x directory [] []
      (x.joined (.prefetch directory) (.atGate directory) x.session.suppression x.session.desk)
  | inScope {replies : List Rpc.Reply} {pushes : List Rpc.Notification} {stage : Stage} {desk : List FlightId}
      {report : Suppression.Report} (hidle : x.session.suppression.active = false)
      (hw : Waits x directory replies stage desk) (htally : Tally pushes report) :
      Running x directory replies pushes (x.joined (.prefetch directory) stage ⟨true, report⟩ desk)

/-- The site as it was before, but for the next name, and perhaps without its facts. -/
def Site.restored (x : Site) (next : FlightId) (flushed : Bool) : Site :=
  { x with session := { x.session with
    next
    store := if flushed then x.session.store.flush else x.session.store } }

/-- The site after a prefetch whose scope has dropped `report` has kept its harvest. -/
def Site.landed (x : Site) (now : Nat) (report : Suppression.Report) (h : Harvest) (registry : Watch.Registry) :
    Site where
  session := { x.session with
    next := x.session.next + 1
    store := (h.facts.filter fun f => !report.paths.any (touches · f.1)).foldl
      (fun s f => s.recordExists f.1 ⟨h.since, f.2⟩ now)
      (if report.needsFlush then x.session.store.flush else x.session.store)
    transient := ⟨some ⟨h.since, h.result⟩,
      (h.scan.filter fun s => !report.paths.any s.isAffectedBy).map (⟨h.since, ·⟩)⟩ }
  registry

/-- The site when a prefetch launched in `x` has ended. -/
inductive Ended (x : Site) (directory : Path) (replies : List Rpc.Reply) (pushes : List Rpc.Notification) :
    Site → Outcome → Prop where
  | failed (e : Error) (next : FlightId) (flushed : Bool) (hflush : flushed = true ↔ SomeNamed pushes) :
      Ended x directory replies pushes (x.restored next flushed) (.prefetched (.error e))
  | landed {report : Suppression.Report} {h : Harvest} (now : Nat) (registry : Watch.Registry)
      (htally : Tally pushes report) (hb : Brought x directory replies h) :
      Ended x directory replies pushes (x.landed now report h registry) (.prefetched (.ok h.result))

/-- Where a prefetch launched in `x` stands after a step, by what the step has answered. -/
def Stands (x : Site) (directory : Path) (replies : List Rpc.Reply) (pushes : List Rpc.Notification)
    (p : Site × Progress) : Prop :=
  match p.2.outcome with
  | none => Running x directory replies pushes p.1
  | some outcome => Ended x directory replies pushes p.1 outcome

/-! ## Ends -/

namespace Site

variable {x : Site} {directory : Path} {replies : List Rpc.Reply} {pushes : List Rpc.Notification} {stage : Stage}
  {desk : List FlightId} {report : Suppression.Report} {now : Nat} {h : Harvest}

theorem Sound.hostScope_eq_false (hx : x.Sound) (hidle : x.session.suppression.active = false) :
    x.session.hostScope = false := by
  cases hhost : x.session.hostScope with
  | false => rfl
  | true =>
    have hactive : x.session.suppression.active = true := (hx.exclusive.host hhost).1
    rw [hidle] at hactive
    contradiction

theorem Sound.suppression_eq_idle (hx : x.Sound) (hidle : x.session.suppression.active = false) :
    x.session.suppression = .idle := hx.exclusive.idle hidle

theorem numbered_restored (hx : x.Sound) (flushed : Bool) : (x.restored x.session.next flushed).Numbered :=
  ⟨hx.numbered.flights, hx.numbered.gate, hx.numbered.desk⟩

/-- The scope closes: all that is left of it is the flush that is due. -/
theorem leaveScope_joined (hx : x.Sound) (hidle : x.session.suppression.active = false) :
    (x.joined (.prefetch directory) stage ⟨true, report⟩ desk).leaveScope =
      (report, (x.restored x.session.next report.needsFlush).joined (.prefetch directory) stage x.session.suppression
        desk) := by
  simp only [leaveScope, Suppression.leave, joined, restored, hx.flushes, Bool.true_and, hx.suppression_eq_idle hidle,
    hx.hostScope_eq_false hidle]

/-- A prefetch that gives up leaves the site as it was, without its facts if something was dropped. -/
theorem stands_giveUp {e : Error} (hx : x.Sound) (hidle : x.session.suppression.active = false)
    (htally : Tally pushes report) (hdesk : desk = x.session.desk ∨ desk = x.session.desk ++ [x.session.next]) :
    Stands x directory replies pushes
      ((x.joined (.prefetch directory) stage ⟨true, report⟩ desk).giveUp x.session.next e) := by
  have hfinish : ((x.restored x.session.next report.needsFlush).joined (.prefetch directory) stage x.session.suppression
      desk).finish x.session.next (.prefetched (.error e)) =
        (x.restored (x.session.next + 1) report.needsFlush, ⟨[], some (.prefetched (.error e))⟩) :=
    finish_joined (numbered_restored hx _) hdesk
  rw [giveUp, leaveScope_joined hx hidle, hfinish]
  exact Ended.failed e _ report.needsFlush htally.flush

/-- The site while a prefetch that has closed its scope keeps its harvest. -/
def kept (x : Site) (now : Nat) (report : Suppression.Report) (h : Harvest) : Site :=
  { x.landed now report h x.registry with session := { (x.landed now report h x.registry).session with
    next := x.session.next } }

theorem commit_joined (hx : x.Sound) (hidle : x.session.suppression.active = false)
    (hdesk : desk = x.session.desk ∨ desk = x.session.desk ++ [x.session.next]) :
    (x.joined (.prefetch directory) stage ⟨true, report⟩ desk).commit now x.session.next h =
      (x.landed now report h x.registry, ⟨[], some (.prefetched (.ok h.result))⟩) := by
  have hnumbered : (x.kept now report h).Numbered := ⟨hx.numbered.flights, hx.numbered.gate, hx.numbered.desk⟩
  have hfinish :
      ((x.kept now report h).joined (.prefetch directory) stage x.session.suppression desk).finish x.session.next
      (.prefetched (.ok h.result)) = (x.landed now report h x.registry, ⟨[], some (.prefetched (.ok h.result))⟩) :=
    finish_joined hnumbered hdesk
  rw [commit, leaveScope_joined hx hidle]
  exact hfinish

/-- A prefetch that ends well keeps its harvest; the rest of the site is as it was, but for a watch of what it found. -/
theorem stands_commit (hx : x.Sound) (hidle : x.session.suppression.active = false) (htally : Tally pushes report)
    (hdesk : desk = x.session.desk ∨ desk = x.session.desk ++ [x.session.next]) (hb : Brought x directory replies h)
    (registry : Watch.Registry) : Stands x directory replies pushes
      (commit now x.session.next h { x.joined (.prefetch directory) stage ⟨true, report⟩ desk with registry }) := by
  have hsound : Sound { x with registry } :=
    ⟨⟨hx.numbered.flights, hx.numbered.gate, hx.numbered.desk⟩, hx.exclusive, hx.flushes⟩
  have hcommit :
      commit now x.session.next h { x.joined (.prefetch directory) stage ⟨true, report⟩ desk with registry } =
      (x.landed now report h registry, ⟨[], some (.prefetched (.ok h.result))⟩) := commit_joined hsound hidle hdesk
  rw [hcommit]
  exact Ended.landed now registry htally hb

/-! ## Steps -/

theorem stands_leaveDesk {result : Except Error Bool} (hx : x.Sound) (hidle : x.session.suppression.active = false)
    (htally : Tally pushes report) (hb : Brought x directory replies h) (registry : Watch.Registry) :
    Stands x directory replies pushes (leaveDesk now x.session.next (.root h) result
      { x.joined (.prefetch directory) stage ⟨true, report⟩ (x.session.desk ++ [x.session.next]) with registry }) :=
  stands_commit hx hidle htally (Or.inl (erase_desk hx.numbered)) hb registry

/-- At the desk: the watch that the prefetch wants is there already, or is asked for. -/
theorem stands_requestWatch {path : Path} (hx : x.Sound) (hidle : x.session.suppression.active = false)
    (htally : Tally pushes report) (hb : Brought x directory replies h)
    (hscanned : 2 ≤ replies.length ∨ x.session.config.prefetch.ancestorMarkers = []) :
    Stands x directory replies pushes
      ((x.joined (.prefetch directory) stage ⟨true, report⟩ (x.session.desk ++ [x.session.next])).requestWatch now
        x.session.next path (.root h)) := by
  unfold requestWatch
  split
  · exact stands_leaveDesk hx hidle htally hb x.registry
  · rw [wait_joined hx.numbered]
    exact Running.inScope hidle (Waits.adding path hb hscanned) htally

/-- At the gate: the prefetch opens its scope if it is first, unless another scope is open. -/
theorem stands_openBatch (hx : x.Sound) : Stands x directory [] []
    ((x.joined (.prefetch directory) (.atGate directory) x.session.suppression x.session.desk).openBatch now
      x.session.next directory) := by
  have hjoined : (x.joined (.prefetch directory) (.atGate directory) x.session.suppression
      x.session.desk).session.suppression = x.session.suppression := rfl
  cases hactive : x.session.suppression.active with
  | true =>
    rw [openBatch_of_active (by rw [hjoined, hactive]), finish_joined hx.numbered (Or.inl rfl)]
    exact Ended.failed .scopeActive (x.session.next + 1) false not_flushed
  | false =>
    rw [openBatch_of_idle (by rw [hjoined, hactive])]
    have hwait : (x.joined (.prefetch directory) (.atGate directory) ⟨true, .empty⟩ x.session.desk).wait x.session.next
        (.batch directory now (x.session.plan directory).commands) =
          x.joined (.prefetch directory) (.batch directory now (x.session.plan directory).commands) ⟨true, .empty⟩
            x.session.desk := wait_joined hx.numbered
    have hrunning : Running x directory [] [] _ := Running.inScope hactive (Waits.batch now) tally_nil
    rw [← hwait] at hrunning
    exact hrunning

/-- A turn that has come takes the prefetch on, and one that has not leaves it where it is. -/
theorem stands_proceed {y : Site} (hx : x.Sound) (hy : Running x directory replies pushes y) :
    Stands x directory replies pushes (y.proceed now x.session.next) := by
  unfold proceed
  cases hy with
  | atGate =>
    rw [stage?_joined hx.numbered]
    dsimp only
    split
    · exact stands_openBatch hx
    · exact Running.atGate
  | inScope hidle hw htally =>
    rw [stage?_joined hx.numbered]
    cases hw with
    | batch since => exact Running.inScope hidle (Waits.batch since) htally
    | scan hb hone hmarkers => exact Running.inScope hidle (Waits.scan hb hone hmarkers) htally
    | adding path hb hscanned => exact Running.inScope hidle (Waits.adding path hb hscanned) htally
    | atDesk path hb hscanned =>
      dsimp only
      split
      · exact stands_requestWatch hx hidle htally hb hscanned
      · exact Running.inScope hidle (Waits.atDesk path hb hscanned) htally

/-- When all is brought in, the prefetch ends well or goes to the desk first. -/
theorem stands_seekRoot (hx : x.Sound) (hidle : x.session.suppression.active = false) (htally : Tally pushes report)
    (hb : Brought x directory replies h)
    (hscanned : 2 ≤ replies.length ∨ x.session.config.prefetch.ancestorMarkers = []) :
    Stands x directory replies pushes
      ((x.joined (.prefetch directory) stage ⟨true, report⟩ x.session.desk).seekRoot now x.session.next h) := by
  have hcommit : Stands x directory replies pushes
      ((x.joined (.prefetch directory) stage ⟨true, report⟩ x.session.desk).commit now x.session.next h) :=
    stands_commit hx hidle htally (Or.inl rfl) hb x.registry
  unfold seekRoot
  split
  · next root _ =>
    split
    · unfold queueAtDesk
      rw [wait_joined hx.numbered]
      exact stands_proceed hx (Running.inScope hidle (Waits.atDesk root hb hscanned) htally)
    · exact hcommit
  · exact hcommit

theorem settle_of_error {y : Site} {id : FlightId} {since : Nat} {commands : List CommandSpec} {r : Rpc.Reply}
    {e : Error} (hs : y.stage? id = some (.batch directory since commands)) (hr : r.outputs commands = .error e) :
    y.settle now id 0 r = y.giveUp id e := by
  simp only [settle, hs, hr]

theorem settle_of_ok {y : Site} {id : FlightId} {since : Nat} {commands : List CommandSpec} {r : Rpc.Reply}
    {outputs : List (String × CommandOutput)} (hs : y.stage? id = some (.batch directory since commands))
    (hr : r.outputs commands = .ok outputs) : y.settle now id 0 r = y.takeOutputs now id directory since outputs := by
  simp only [settle, hs, hr]

theorem settle_of_scan {y : Site} {id : FlightId} {r : Rpc.Reply} (hs : y.stage? id = some (.scan h)) :
    y.settle now id 0 r =
      y.seekRoot now id { h with scan := r.markers.toOption.map (AncestorScan.mk h.directory) } := by
  simp only [settle, hs]

/-- Whether the watch has been added or not, all that has changed is the registry. -/
theorem settle_of_adding {y : Site} {id : FlightId} {path : Path} {purpose : Purpose} {r : Rpc.Reply}
    (hs : y.stage? id = some (.adding path purpose)) : ∃ result registry,
      y.settle now id 0 r = leaveDesk now id purpose result { y with registry } := by
  simp only [settle, hs]
  split
  · exact ⟨_, _, rfl⟩
  · exact ⟨_, y.registry, rfl⟩

theorem stands_takeOutputs {since : Nat} {r : Rpc.Reply} {outputs : List (String × CommandOutput)} (hx : x.Sound)
    (hidle : x.session.suppression.active = false) (htally : Tally pushes report)
    (hr : r.outputs (x.session.plan directory).commands = .ok outputs) :
    Stands x directory [r] pushes ((x.joined (.prefetch directory) stage ⟨true, report⟩ x.session.desk).takeOutputs now
      x.session.next directory since outputs) := by
  have hb : Brought x directory [r] ⟨directory, since, (PrefetchResult.ofBatch directory outputs).1,
      (PrefetchResult.ofBatch directory outputs).2, none⟩ := by
    refine ⟨rfl, ⟨r, outputs, rfl, hr, rfl⟩, ?_⟩
    split <;> rfl
  unfold takeOutputs
  dsimp only
  split
  · next hnone => exact stands_seekRoot hx hidle htally hb (Or.inr hnone)
  · next hsome =>
    rw [wait_joined hx.numbered]
    exact Running.inScope hidle (Waits.scan hb rfl hsome) htally

/-- The end of a call takes the prefetch on. -/
theorem stands_settle {y : Site} {r : Rpc.Reply} (hx : x.Sound) (hy : Running x directory replies pushes y)
    (hs : y.stage? x.session.next = some stage) (hcall : stage.hasCall = true) :
    Stands x directory (replies ++ [r]) pushes (y.settle now x.session.next 0 r) := by
  cases hy with
  | atGate =>
    rw [stage?_joined hx.numbered] at hs
    cases hs
    contradiction
  | @inScope _ _ waiting desk report hidle hw htally =>
    have hwaiting : (x.joined (.prefetch directory) waiting ⟨true, report⟩ desk).stage? x.session.next = some waiting :=
      stage?_joined hx.numbered
    cases hw with
    | batch since =>
      cases hr : r.outputs (x.session.plan directory).commands with
      | error e =>
        rw [settle_of_error hwaiting hr]
        exact stands_giveUp hx hidle htally (Or.inl rfl)
      | ok outputs =>
        rw [settle_of_ok hwaiting hr]
        exact stands_takeOutputs hx hidle htally hr
    | @scan _ h hb hone hmarkers =>
      have hscanned : Brought x directory (replies ++ [r])
          { h with scan := r.markers.toOption.map (AncestorScan.mk h.directory) } := by
        refine ⟨hb.asked, ?_, ?_⟩
        · obtain ⟨reply, outputs, hreply, hrest⟩ := hb.batch
          exact ⟨reply, outputs, by rw [List.getElem?_append_left (by omega), hreply], hrest⟩
        · rw [if_neg hmarkers, List.getElem?_append_right (by omega), hone, hb.asked]
          rfl
      rw [settle_of_scan hwaiting]
      refine stands_seekRoot hx hidle htally hscanned (Or.inl ?_)
      simp [hone]
    | atDesk path hb hscanned =>
      rw [hwaiting] at hs
      cases hs
      contradiction
    | adding path hb hscanned =>
      obtain ⟨result, registry, hsettle⟩ := settle_of_adding (r := r) hwaiting
      rw [hsettle]
      exact stands_leaveDesk hx hidle htally (hb.snoc hscanned) registry

/-- A notification that comes in the scope is counted, and the prefetch waits on. -/
theorem running_notify {y : Site} (n : Rpc.Notification) (hx : x.Sound) (hy : Running x directory replies pushes y)
    (hin : (y.since? x.session.next).isSome = true) : Running x directory replies (pushes ++ [n]) (y.notify n).2 := by
  cases hy with
  | atGate =>
    rw [since?_joined hx.numbered] at hin
    contradiction
  | inScope hidle hw htally =>
    obtain ⟨report, hsame, htally⟩ := notify_joined htally n
    rw [hsame]
    exact Running.inScope hidle hw htally

theorem stands_launch (hx : x.Sound) : Stands x directory [] [] (x.launch now (.prefetch directory)).2 := by
  have hrefused : ∀ e, Stands x directory [] [] (x, ⟨[], some (.prefetched (.error e))⟩) := fun e =>
    Ended.failed e x.session.next false not_flushed
  unfold launch
  dsimp only
  split
  · exact hrefused .connectionClosed
  · split
    · exact stands_proceed hx Running.atGate
    · exact hrefused .prefetchDisabled

end Site

/-- Every course of a prefetch leads to one of these. -/
theorem Course.standing {x y : Site} {directory : Path} {replies : List Rpc.Reply} {pushes : List Rpc.Notification}
    {outcome : Option Outcome} (h : Course x directory replies pushes y outcome) (hx : x.Sound)
    (sent : List (Nat × Rpc.Request)) : Stands x directory replies pushes (y, ⟨sent, outcome⟩) := by
  induction h with
  | launch now => exact Site.stands_launch hx
  | reply now r h hs hcall ih => exact Site.stands_settle hx ih hs hcall
  | look now h ih => exact Site.stands_proceed hx ih
  | push n h hin ih => exact Site.running_notify n hx ih hin

end RemoteFacts.Session
