import RemoteFacts.Proofs.Session.Holding

/-!
# What an operation does when it goes on

An operation goes on when a call of its ends or when it looks whether its turn has come. Whatever it passes on the way,
it ends up in one of a few places.

* `Operation.directory?`, `Stage.directory?` : which requests and stages are those of a prefetch, and for which
  directory;
* `Stage.harvest?`, `Stage.Brings` : what a prefetch has brought in where it waits;
* `heard?` : what an operation with one call out is told when a call has ended;
* `Site.placed` : a site with another queue at the desk and other watches;
* `Posts` : what becomes of the watches then;
* `Turn` : the places where an operation can end up;
* `turn_proceed`, `turn_settle` : and does;
* `Site.joined` : a site with one operation more at its gate;
* `Start`, `start_launch` : the places where a new operation can end up, and does.
-/

namespace RemoteFacts.Session

/-! ## Stages of a prefetch -/

/-- The directory that a request is for, if it is for a prefetch. -/
def Operation.directory? : Operation → Option Path
  | prefetch directory => some directory
  | render directory => some directory
  | _ => none

/-- The directory of the prefetch that waits here, if it is one. -/
def Stage.directory? : Stage → Option Path
  | atGate directory => some directory
  | batch directory _ _ => some directory
  | scan h => some h.directory
  | atDesk _ (.root h) => some h.directory
  | adding _ (.root h) => some h.directory
  | _ => none

/-- What a prefetch that waits here has brought in. -/
def Stage.harvest? : Stage → Option Harvest
  | scan h => some h
  | atDesk _ (.root h) => some h
  | adding _ (.root h) => some h
  | _ => none

/-- A prefetch that waits here and is told `reply?` has brought in `h`. -/
def Stage.Brings (reply? : Option Rpc.Reply) : Stage → Harvest → Prop
  | batch directory since commands, h => ∃ r outputs, reply? = some r ∧ r.outputs commands = .ok outputs ∧
      h = ⟨directory, since, (PrefetchResult.ofBatch directory outputs).1, (PrefetchResult.ofBatch directory outputs).2,
        none⟩
  | scan h₀, h => ∃ r, reply? = some r ∧
      h = { h₀ with scan := r.markers.toOption.map (AncestorScan.mk h₀.directory) }
  | atDesk _ (.root h₀), h => h = h₀
  | adding _ (.root h₀), h => h = h₀
  | _, _ => False

/-- What an operation that has only one call out is told when a call in `slot` has ended. -/
def heard? (slot : Nat) (reply : Rpc.Reply) : Option Rpc.Reply := if slot = 0 then some reply else none

variable {s : Stage} {h : Harvest} {reply? : Option Rpc.Reply}

theorem heard?_eq_some {slot : Nat} {reply r : Rpc.Reply} (hheard : heard? slot reply = some r) :
    slot = 0 ∧ reply = r := by
  unfold heard? at hheard
  split at hheard
  · next hslot => exact ⟨hslot, Option.some.inj hheard⟩
  · contradiction

theorem Stage.since?_of_harvest? (hs : s.harvest? = some h) : s.since? = some h.since := by
  unfold harvest? at hs
  split at hs
  · exact congrArg (some ∘ Harvest.since) (Option.some.inj hs)
  · exact congrArg (some ∘ Harvest.since) (Option.some.inj hs)
  · exact congrArg (some ∘ Harvest.since) (Option.some.inj hs)
  · contradiction

theorem Stage.since?_of_brings (hs : s.Brings reply? h) : s.since? = some h.since := by
  unfold Brings at hs
  split at hs
  · obtain ⟨r, outputs, -, -, rfl⟩ := hs
    rfl
  · obtain ⟨r, -, rfl⟩ := hs
    rfl
  · rw [hs]; rfl
  · rw [hs]; rfl
  · contradiction

theorem Stage.directory?_of_harvest? (hs : s.harvest? = some h) : s.directory? = some h.directory := by
  unfold harvest? at hs
  split at hs
  · exact congrArg (some ∘ Harvest.directory) (Option.some.inj hs)
  · exact congrArg (some ∘ Harvest.directory) (Option.some.inj hs)
  · exact congrArg (some ∘ Harvest.directory) (Option.some.inj hs)
  · contradiction

theorem Stage.directory?_of_brings (hs : s.Brings reply? h) : s.directory? = some h.directory := by
  unfold Brings at hs
  split at hs
  · obtain ⟨r, outputs, -, -, rfl⟩ := hs
    rfl
  · obtain ⟨r, -, rfl⟩ := hs
    rfl
  · rw [hs]; rfl
  · rw [hs]; rfl
  · contradiction

/-- Only prefetches are ever in scopes of their own. -/
theorem Stage.since?_eq_none_of_host (hhost : s.directory? = none) : s.since? = none := by
  cases s with
  | batch directory since commands => contradiction
  | scan harvest => contradiction
  | atDesk path purpose =>
    cases purpose with
    | host => rfl
    | root harvest => contradiction
  | adding path purpose =>
    cases purpose with
    | host => rfl
    | root harvest => contradiction
  | _ => rfl

namespace Site

variable {x : Site} {id j : FlightId} {stage : Stage} {now : Nat}

/-- The site with another queue at the desk and other watches. -/
def placed (x : Site) (desk : List FlightId) (registry : Watch.Registry) : Site :=
  ⟨{ x.session with desk }, registry⟩

/-! ## Turns -/

/-- What an operation that waits at a stage and is told `reply?` can make of the watches. -/
inductive Posts (now : Nat) (reply? : Option Rpc.Reply) (x : Site) : Stage → Watch.Registry → Prop where
  | keep (s : Stage) : Posts now reply? x s x.registry
  | register {path : Path} {purpose : Purpose} {r : Rpc.Reply} (hreply : reply? = some r)
      (hr : r.flag (Rpc.Request.watchAdd path true).method = .ok true) :
      Posts now reply? x (.adding path purpose) (x.registry.register x.session.id path now).2
  | unregister (s : Stage) (path : Path) : Posts now reply? x s (x.registry.unregister x.session.id path).2
  | replace {r : Rpc.Reply} {watches : List (Path × Bool)} (hreply : reply? = some r) (hr : r.watches = .ok watches) :
      Posts now reply? x .listing (x.registry.replaceFor x.session.id (watches.map (·.1)) now)

/-- Where the operation `id`, when it goes on at `now` and is told `reply?`, can end up and what it has done by then. -/
inductive Turn (now : Nat) (id : FlightId) (reply? : Option Rpc.Reply) (x : Site) : Site × Progress → Prop where
  | rest : Turn now id reply? x (x, .waiting)
  | enter {directory : Path} (hs : x.stage? id = some (.atGate directory)) (hfirst : x.session.gate.head? = some id)
      (hidle : x.session.suppression.active = false) : Turn now id reply? x
        (wait id (.batch directory now (x.session.plan directory).commands)
          { x with session := { x.session with suppression := ⟨true, .empty⟩ } },
        .asking (.runParallel (x.session.plan directory).commands))
  | refuse {directory : Path} (hs : x.stage? id = some (.atGate directory)) (hfirst : x.session.gate.head? = some id)
      (hactive : x.session.suppression.active = true) : Turn now id reply? x
        (x.finish id (.prefetched (.error .scopeActive)))
  | giveUp {directory : Path} {since : Nat} {commands : List CommandSpec} {r : Rpc.Reply} {e : Error}
      (hs : x.stage? id = some (.batch directory since commands)) (hreply : reply? = some r)
      (hr : r.outputs commands = .error e) : Turn now id reply? x (x.giveUp id e)
  /-- A prefetch waits on in its scope. -/
  | carry {s s' : Stage} {h : Harvest} (desk : List FlightId) (sent : List (Nat × Rpc.Request))
      (hs : x.stage? id = some s) (hb : s.Brings reply? h) (hs' : s'.harvest? = some h)
      (hdesk : ∀ j ∈ desk, j ∈ x.session.desk ∨ j = id) : Turn now id reply? x
        (wait id s' (x.placed desk x.registry), ⟨sent, none⟩)
  | commit {s : Stage} {h : Harvest} (desk : List FlightId) (registry : Watch.Registry) (hs : x.stage? id = some s)
      (hb : s.Brings reply? h) (hdesk : ∀ j ∈ desk, j ∈ x.session.desk ∨ j = id)
      (hposts : Posts now reply? x s registry) : Turn now id reply? x ((x.placed desk registry).commit now id h)
  /-- An operation that is no prefetch waits on. -/
  | goOn {s s' : Stage} (desk : List FlightId) (registry : Watch.Registry) (sent : List (Nat × Rpc.Request))
      (hs : x.stage? id = some s) (hhost : s.directory? = none) (hhost' : s'.directory? = none)
      (hdesk : ∀ j ∈ desk, j ∈ x.session.desk ∨ j = id) (hposts : Posts now reply? x s registry) : Turn now id reply? x
        (wait id s' (x.placed desk registry), ⟨sent, none⟩)
  | ended {s : Stage} {outcome : Outcome} (desk : List FlightId) (registry : Watch.Registry) (hs : x.stage? id = some s)
      (hhost : s.directory? = none) (hout : ∀ result, outcome ≠ .prefetched result)
      (hdesk : ∀ j ∈ desk, j ∈ x.session.desk ∨ j = id) (hposts : Posts now reply? x s registry) :
      Turn now id reply? x ((x.placed desk registry).finish id outcome)

/-! ## Where an operation has waited does not matter once it goes on -/

theorem wait_wait : (x.wait id stage).wait id s = x.wait id s := by
  have hflights : ((x.session.flights.map fun f => if f.id == id then { f with stage } else f).map
      fun f => if f.id == id then { f with stage := s } else f) =
        x.session.flights.map fun f => if f.id == id then { f with stage := s } else f := by
    rw [List.map_map]
    refine List.map_congr_left fun f _ => ?_
    by_cases hid : f.id = id
    · simp [hid]
    · simp [hid]
  simp only [wait, hflights]

theorem remove_wait : (x.wait id stage).remove id = x.remove id := by
  have hflights : (x.session.flights.map fun f => if f.id == id then { f with stage } else f).filter
      (fun f => !(f.id == id)) = x.session.flights.filter fun f => !(f.id == id) := by
    induction x.session.flights with
    | nil => rfl
    | cons f flights ih =>
      rw [List.map_cons, List.filter_cons, List.filter_cons, ih]
      cases hid : f.id == id with
      | true => simp [hid]
      | false => simp [hid]
  simp only [wait, remove, hflights]

theorem finish_wait {outcome : Outcome} : (x.wait id stage).finish id outcome = x.finish id outcome := by
  have htold : (x.wait id stage).flight? id = (x.flight? id).map fun f => { f with stage } := by
    rw [flight?_wait, if_pos rfl]
  rw [finish, finish, remove_wait, htold]
  cases x.flight? id with
  | none => rfl
  | some f => rfl

/-- The site when a prefetch has closed its scope and kept what it has brought in, and is about to end. -/
def landing (now : Nat) (h : Harvest) (x : Site) : Site :=
  { x.leaveScope.2.recordFacts now h.since (x.holding.fresh h) with session := {
    (x.leaveScope.2.recordFacts now h.since (x.holding.fresh h)).session with transient := x.holding.left h } }

theorem commit_eq_finish : x.commit now id h = (x.landing now h).finish id (.prefetched (.ok h.result)) := rfl

theorem commit_wait : (x.wait id stage).commit now id h = x.commit now id h := by
  have hlanding : (x.wait id stage).landing now h = (x.landing now h).wait id stage := rfl
  rw [commit_eq_finish, commit_eq_finish, hlanding, finish_wait]

theorem leaveDesk_wait {purpose : Purpose} {result : Except Error Bool} :
    (x.wait id stage).leaveDesk now id purpose result = x.leaveDesk now id purpose result := by
  cases purpose with
  | host => exact finish_wait (x := { x with session := { x.session with desk := x.session.desk.erase id } })
  | root h => exact commit_wait (x := { x with session := { x.session with desk := x.session.desk.erase id } })

theorem requestWatch_wait {path : Path} {purpose : Purpose} :
    (x.wait id stage).requestWatch now id path purpose = x.requestWatch now id path purpose := by
  unfold requestWatch
  rw [wait_wait, leaveDesk_wait]
  rfl

/-! ## Each step is a turn -/

section Steps

variable {reply? : Option Rpc.Reply} {directory path : Path} {desk : List FlightId} {registry : Watch.Registry}

theorem openBatch_of_active (h : x.session.suppression.active = true) :
    x.openBatch now id directory = x.finish id (.prefetched (.error .scopeActive)) := by
  unfold openBatch
  rw [Suppression.enter, if_pos h]

theorem openBatch_of_idle (h : x.session.suppression.active = false) :
    x.openBatch now id directory =
      (wait id (.batch directory now (x.session.plan directory).commands)
        { x with session := { x.session with suppression := ⟨true, .empty⟩ } },
        .asking (.runParallel (x.session.plan directory).commands)) := by
  unfold openBatch
  rw [Suppression.enter, if_neg (by rw [h]; exact Bool.false_ne_true)]

theorem turn_openBatch (hs : x.stage? id = some (.atGate directory)) (hfirst : x.session.gate.head? = some id) :
    Turn now id reply? x (x.openBatch now id directory) := by
  cases hactive : x.session.suppression.active with
  | true =>
    rw [openBatch_of_active hactive]
    exact Turn.refuse hs hfirst hactive
  | false =>
    rw [openBatch_of_idle hactive]
    exact Turn.enter hs hfirst hactive

theorem mem_erase_of_desk (hdesk : ∀ j ∈ desk, j ∈ x.session.desk ∨ j = id) :
    ∀ j ∈ desk.erase id, j ∈ x.session.desk ∨ j = id := fun j hj => hdesk j (List.mem_of_mem_erase hj)

theorem turn_leaveDesk_root {result : Except Error Bool} (hs : x.stage? id = some s) (hb : s.Brings reply? h)
    (hdesk : ∀ j ∈ desk, j ∈ x.session.desk ∨ j = id) (hposts : Posts now reply? x s registry) :
    Turn now id reply? x ((x.placed desk registry).leaveDesk now id (.root h) result) :=
  Turn.commit (desk.erase id) registry hs hb (mem_erase_of_desk hdesk) hposts

theorem turn_leaveDesk_host {result : Except Error Bool} (hs : x.stage? id = some s) (hhost : s.directory? = none)
    (hdesk : ∀ j ∈ desk, j ∈ x.session.desk ∨ j = id) (hposts : Posts now reply? x s registry) :
    Turn now id reply? x ((x.placed desk registry).leaveDesk now id .host result) :=
  Turn.ended (desk.erase id) registry hs hhost nofun (mem_erase_of_desk hdesk) hposts

theorem turn_leaveDesk_of_adding {purpose : Purpose} {result : Except Error Bool}
    (hs : x.stage? id = some (.adding path purpose)) (hposts : Posts now reply? x (.adding path purpose) registry) :
    Turn now id reply? x ((x.placed x.session.desk registry).leaveDesk now id purpose result) := by
  cases purpose with
  | host => exact turn_leaveDesk_host hs rfl (fun _ hj => Or.inl hj) hposts
  | root h => exact turn_leaveDesk_root hs rfl (fun _ hj => Or.inl hj) hposts

theorem turn_requestWatch_root (hs : x.stage? id = some s) (hb : s.Brings reply? h)
    (hdesk : ∀ j ∈ desk, j ∈ x.session.desk ∨ j = id) :
    Turn now id reply? x ((x.placed desk x.registry).requestWatch now id path (.root h)) := by
  unfold requestWatch
  split
  · exact turn_leaveDesk_root hs hb hdesk (Posts.keep s)
  · exact Turn.carry desk _ hs hb rfl hdesk

theorem turn_requestWatch_host (hs : x.stage? id = some s) (hhost : s.directory? = none)
    (hdesk : ∀ j ∈ desk, j ∈ x.session.desk ∨ j = id) :
    Turn now id reply? x ((x.placed desk x.registry).requestWatch now id path .host) := by
  unfold requestWatch
  split
  · exact turn_leaveDesk_host hs hhost hdesk (Posts.keep s)
  · exact Turn.goOn desk x.registry _ hs hhost rfl hdesk (Posts.keep s)

/-- A turn that has come is taken. -/
theorem turn_proceed : Turn now id reply? x (x.proceed now id) := by
  have hdesk : ∀ j ∈ x.session.desk, j ∈ x.session.desk ∨ j = id := fun _ hj => Or.inl hj
  unfold proceed
  split
  · next directory hs =>
    split
    · next hfirst => exact turn_openBatch hs (beq_iff_eq.1 hfirst)
    · exact Turn.rest
  · next path purpose hs =>
    split
    · cases purpose with
      | host => exact turn_requestWatch_host hs rfl hdesk
      | root h => exact turn_requestWatch_root hs rfl hdesk
    · exact Turn.rest
  · next hs =>
    split
    · exact Turn.goOn x.session.desk x.registry _ hs rfl rfl hdesk (Posts.keep _)
    · exact Turn.rest
  · exact Turn.rest

theorem mem_desk_snoc : ∀ j ∈ x.session.desk ++ [id], j ∈ x.session.desk ∨ j = id := fun _ hj =>
  (List.mem_append.1 hj).imp_right List.mem_singleton.1

theorem turn_queueAtDesk_root (hs : x.stage? id = some s) (hb : s.Brings reply? h) :
    Turn now id reply? x (x.queueAtDesk now id (.atDesk path (.root h))) := by
  have hqueued : ((x.placed (x.session.desk ++ [id]) x.registry).wait id (.atDesk path (.root h))).stage? id =
      some (.atDesk path (.root h)) := stage?_wait_self (x := x.placed _ _) (Option.isSome_of_eq_some hs)
  show Turn now id reply? x
    (((x.placed (x.session.desk ++ [id]) x.registry).wait id (.atDesk path (.root h))).proceed now id)
  unfold proceed
  rw [hqueued]
  dsimp only
  split
  · rw [requestWatch_wait]
    exact turn_requestWatch_root hs hb mem_desk_snoc
  · exact Turn.carry _ _ hs hb rfl mem_desk_snoc

/-- A request of the host that joins the queue at the desk waits there, or its turn has come. -/
theorem turn_queueAtDesk_host (hs : x.stage? id = some s) (hhost : s.directory? = none)
    (hstage : (∃ path, stage = .atDesk path .host) ∨ stage = .atDeskToList) :
    Turn now id reply? x (x.queueAtDesk now id stage) := by
  have hqueued : ((x.placed (x.session.desk ++ [id]) x.registry).wait id stage).stage? id = some stage :=
    stage?_wait_self (x := x.placed _ _) (Option.isSome_of_eq_some hs)
  show Turn now id reply? x (((x.placed (x.session.desk ++ [id]) x.registry).wait id stage).proceed now id)
  unfold proceed
  rw [hqueued]
  rcases hstage with ⟨path, rfl⟩ | rfl
  · dsimp only
    split
    · rw [requestWatch_wait]
      exact turn_requestWatch_host hs hhost mem_desk_snoc
    · exact Turn.goOn _ x.registry _ hs hhost rfl mem_desk_snoc (Posts.keep s)
  · dsimp only
    split
    · rw [wait_wait]
      exact Turn.goOn _ x.registry _ hs hhost rfl mem_desk_snoc (Posts.keep s)
    · exact Turn.goOn _ x.registry _ hs hhost rfl mem_desk_snoc (Posts.keep s)

theorem turn_seekRoot (hs : x.stage? id = some s) (hb : s.Brings reply? h) :
    Turn now id reply? x (x.seekRoot now id h) := by
  have hcommit : Turn now id reply? x (x.commit now id h) :=
    Turn.commit x.session.desk x.registry hs hb (fun _ hj => Or.inl hj) (Posts.keep s)
  unfold seekRoot
  split
  · split
    · exact turn_queueAtDesk_root hs hb
    · exact hcommit
  · exact hcommit

theorem turn_takeOutputs {since : Nat} {commands : List CommandSpec} {r : Rpc.Reply}
    {outputs : List (String × CommandOutput)} (hs : x.stage? id = some (.batch directory since commands))
    (hr : r.outputs commands = .ok outputs) :
    Turn now id (some r) x (x.takeOutputs now id directory since outputs) := by
  have hb : (Stage.batch directory since commands).Brings (some r) ⟨directory, since,
      (PrefetchResult.ofBatch directory outputs).1, (PrefetchResult.ofBatch directory outputs).2, none⟩ :=
    ⟨r, outputs, rfl, hr, rfl⟩
  unfold takeOutputs
  dsimp only
  split
  · exact turn_seekRoot hs hb
  · exact Turn.carry x.session.desk _ hs hb rfl fun _ hj => Or.inl hj

theorem turn_takeRemoval {calls : List (Path × Option Bool)} {slot : Nat} {reply : Rpc.Reply}
    (hs : x.stage? id = some (.removingAll calls)) : Turn now id reply? x (x.takeRemoval id calls slot reply) := by
  have hdesk : ∀ j ∈ x.session.desk, j ∈ x.session.desk ∨ j = id := fun _ hj => Or.inl hj
  unfold takeRemoval
  split
  · next path _ =>
    dsimp only
    obtain ⟨registry, hdropped, hposts⟩ : ∃ registry, (if (reply.flag (Rpc.Request.watchRemove path).method).isOk
        then x.dropWatch path else x) = x.placed x.session.desk registry ∧
          Posts now reply? x (.removingAll calls) registry := by
      split
      · exact ⟨_, rfl, Posts.unregister _ path⟩
      · exact ⟨x.registry, rfl, Posts.keep _⟩
    rw [hdropped]
    split
    · exact Turn.ended x.session.desk registry hs rfl nofun hdesk hposts
    · exact Turn.goOn x.session.desk registry _ hs rfl rfl hdesk hposts
  · exact Turn.rest

/-- The end of a call takes an operation on. -/
theorem turn_settle {slot : Nat} {reply : Rpc.Reply} :
    Turn now id (heard? slot reply) x (x.settle now id slot reply) := by
  have hdesk : ∀ j ∈ x.session.desk, j ∈ x.session.desk ∨ j = id := fun _ hj => Or.inl hj
  unfold settle
  split
  · next hs => exact turn_takeRemoval hs
  · next hs =>
    split
    · next hr => exact Turn.giveUp hs rfl hr
    · next hr => exact turn_takeOutputs hs hr
  · next hs => exact turn_seekRoot hs ⟨reply, rfl, rfl⟩
  · next path purpose hs =>
    dsimp only
    split
    · next haccepted => exact turn_leaveDesk_of_adding hs (Posts.register rfl haccepted)
    · exact turn_leaveDesk_of_adding hs (Posts.keep _)
  · next path hs =>
    split
    · exact Turn.ended x.session.desk x.registry hs rfl nofun hdesk (Posts.keep _)
    · exact Turn.ended x.session.desk _ hs rfl nofun hdesk (Posts.unregister _ path)
  · next hs =>
    split
    · exact Turn.ended x.session.desk x.registry hs rfl nofun hdesk (Posts.keep _)
    · next hlisted => exact Turn.ended x.session.desk _ hs rfl nofun hdesk (Posts.replace rfl hlisted)
  · exact Turn.rest

end Steps

/-! ## How an operation begins -/

/-- A site with one operation more, which has come to the gate and waits at `stage`. -/
def joined (x : Site) (operation : Operation) (stage : Stage) (s : Suppression) (desk : List FlightId) : Site :=
  { x with session := { x.session with
    suppression := s
    gate := x.session.gate ++ [x.session.next]
    desk
    flights := x.session.flights ++ [⟨x.session.next, operation, stage⟩]
    next := x.session.next + 1 } }

/-- Where a new operation can end up when it is launched at `now`, and what it has done by then. -/
inductive Start (now : Nat) (operation : Operation) (x : Site) : Site × Progress → Prop where
  | refused {outcome : Outcome} (hout : outcome ≠ .prefetched (.error .scopeActive)) :
      Start now operation x (x, ⟨[], some outcome⟩)
  | prefetch {directory : Path} {yp : Site × Progress} (hopen : x.session.closed = false)
      (hdirectory : operation.directory? = some directory)
      (hturn : Turn now x.session.next none
        (x.joined operation (.atGate directory) x.session.suppression x.session.desk) yp) : Start now operation x yp
  | host {stage : Stage} {yp : Site × Progress} (hopen : x.session.closed = false)
      (hdirectory : operation.directory? = none) (hstage : stage.directory? = none)
      (hturn : Turn now x.session.next none (x.enlist operation stage).2 yp) : Start now operation x yp
  /-- An operation that is no prefetch has no queue to wait in. -/
  | atOnce {stage : Stage} (sent : List (Nat × Rpc.Request)) (hopen : x.session.closed = false)
      (hdirectory : operation.directory? = none) (hstage : stage.directory? = none) :
      Start now operation x ((x.enlist operation stage).2, ⟨sent, none⟩)

section Launch

variable {operation : Operation} {directory : Path}

theorem launch_fst : (x.launch now operation).1 = x.session.next := by
  unfold launch
  dsimp only
  split
  · rfl
  · split
    · split <;> rfl
    · split <;> rfl
    · rfl
    · split <;> rfl
    · split <;> rfl
    · rfl

theorem refusal_ne_scopeActive : operation.refusal ≠ .prefetched (.error .scopeActive) := by
  cases operation <;> simp [Operation.refusal]

theorem start_launchPrefetch (hopen : x.session.closed = false) (hdirectory : operation.directory? = some directory) :
    Start now operation x (x.launchPrefetch now operation directory).2 :=
  Start.prefetch hopen hdirectory turn_proceed

theorem start_enlistAtDesk (hnew : x.stage? x.session.next = none) (hopen : x.session.closed = false)
    (hdirectory : operation.directory? = none) (hstage : (∃ path, stage = .atDesk path .host) ∨ stage = .atDeskToList) :
    Start now operation x ((x.enlist operation stage).2.queueAtDesk now x.session.next stage) := by
  have hhost : stage.directory? = none := by
    rcases hstage with ⟨path, rfl⟩ | rfl
    · rfl
    · rfl
  have hs : (x.enlist operation stage).2.stage? x.session.next = some stage := by
    rw [stage?_enlist hnew, if_pos rfl]
  exact Start.host hopen hdirectory hhost (turn_queueAtDesk_host hs hhost hstage)

/-- A new operation is refused, or begins. -/
theorem start_launch (hnew : x.stage? x.session.next = none) : Start now operation x (x.launch now operation).2 := by
  unfold launch
  dsimp only
  split
  · exact Start.refused refusal_ne_scopeActive
  · next hclosed =>
    have hopen : x.session.closed = false := Bool.eq_false_iff.2 hclosed
    split
    · split
      · exact start_launchPrefetch hopen rfl
      · exact Start.refused nofun
    · split
      · exact start_launchPrefetch hopen rfl
      · exact Start.refused nofun
    · exact start_enlistAtDesk hnew hopen rfl (Or.inl ⟨_, rfl⟩)
    · split
      · exact Start.atOnce _ hopen rfl rfl
      · exact Start.refused nofun
    · split
      · exact Start.refused nofun
      · exact Start.atOnce _ hopen rfl rfl
    · exact start_enlistAtDesk hnew hopen rfl (Or.inr rfl)

end Launch

end Site

end RemoteFacts.Session
