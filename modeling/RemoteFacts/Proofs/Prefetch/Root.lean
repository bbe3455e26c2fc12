import RemoteFacts.Proofs.FirstLine
import RemoteFacts.Proofs.Prefetch.Provenance
import RemoteFacts.Proofs.Prefetch.Running
import RemoteFacts.Proofs.Session.Calls
import RemoteFacts.Proofs.Session.Desk

/-!
# The directory that a prefetch asks to watch

* `PrefetchResult.toplevel?_eq` : the top-level directory of a result is the first line of one output that it holds;
* `Stage.Rooted` : a prefetch is at the desk for the top-level directory of its result;
* `Seeks`, `seeks_step` : there it goes, and who asks for a watch waits for an answer about the same path;
* `Commits.asked_or_believed` : a prefetch that ends well has had its directory watched, or found it watched;
* `Client.RootLine` : the first line that the remote side has printed for the query of the top-level directory;
* `Client.WatchesRoots`, `watched_root_is_first_line` : that line is what prefetches ask to watch, and all that it
  depends on.
-/

namespace RemoteFacts

namespace PrefetchResult

open CommandOutput

variable {r : PrefetchResult} {path : Path}

/-- The top-level directory depends on nothing but whether its query has succeeded and on the first line that it has
printed. -/
theorem toplevel?_eq (r : PrefetchResult) : r.toplevel? =
    (r.get? (Invocation.key Probe.toplevelQuery)).bind fun o =>
      if o.exitCode = 0 then (ofLine (lineBytes o.stdout)).firstLine?.map Path.mk else none := by
  unfold toplevel?
  cases r.get? (Invocation.key Probe.toplevelQuery) with
  | none => rfl
  | some o =>
    rw [Option.bind_some, ← firstLine?_eq_ofLine]
    simp only [succeeded, beq_iff_eq]

theorem toplevel?_eq_some_iff : r.toplevel? = some path ↔ ∃ o, r.get? (Invocation.key Probe.toplevelQuery) = some o ∧
    o.exitCode = 0 ∧ (ofLine (lineBytes o.stdout)).firstLine? = some path.text := by
  rw [toplevel?_eq, Option.bind_eq_some_iff]
  refine exists_congr fun o => and_congr_right fun _ => ?_
  rw [Option.ite_none_right_eq_some, Option.map_eq_some_iff]
  refine and_congr_right fun _ => ⟨?_, fun hline => ⟨path.text, hline, rfl⟩⟩
  rintro ⟨line, hline, rfl⟩
  exact hline

end PrefetchResult

namespace Session

/-- A prefetch that waits here at the desk is there for the top-level directory of its result. -/
def Stage.Rooted : Stage → Prop
  | atDesk path (.root h) => h.result.toplevel? = some path
  | adding path (.root h) => h.result.toplevel? = some path
  | _ => True

namespace Site

variable {x : Site} {now slot : Nat} {id : FlightId} {s stage : Stage} {path root : Path} {purpose : Purpose}
    {h : Harvest}
  {reply : Rpc.Reply} {request : Rpc.Request} {e : Event} {p : Progress} {operation : Operation}

/-! ## What is asked for -/

/-- The operation `id` is at the desk for the top-level directory that it has found, if it is a prefetch, and if it has
just asked for a watch it waits for that one. -/
structure Seeks (id : FlightId) (yp : Site × Progress) : Prop where
  rooted : ∀ s, yp.1.stage? id = some s → s.Rooted
  waits : ∀ slot path recursive, (slot, Rpc.Request.watchAdd path recursive) ∈ yp.2.sent →
    ∃ purpose, yp.1.stage? id = some (.adding path purpose)

theorem seeks_rest {outcome? : Option Outcome} (hx : ∀ s, x.stage? id = some s → s.Rooted) :
    Seeks id (x, ⟨[], outcome?⟩) :=
  ⟨hx, nofun⟩

theorem seeks_finish {outcome : Outcome} : Seeks id (x.finish id outcome) where
  rooted s hs := by
    rw [finish, stage?_remove, if_pos rfl] at hs
    contradiction
  waits := nofun

theorem seeks_giveUp {e : Error} : Seeks id (x.giveUp id e) := seeks_finish

theorem seeks_commit : Seeks id (x.commit now id h) := seeks_finish

theorem seeks_leaveDesk {result : Except Error Bool} : Seeks id (x.leaveDesk now id purpose result) := by
  cases purpose with
  | host => exact seeks_finish
  | root h => exact seeks_commit

theorem rooted_wait (hs : (x.stage? id).isSome = true) (hrooted : stage.Rooted) :
    ∀ s, (x.wait id stage).stage? id = some s → s.Rooted := by
  intro s hs'
  rw [stage?_wait_self hs] at hs'
  exact Option.some.inj hs' ▸ hrooted

theorem seeks_asking (hs : (x.stage? id).isSome = true) (hrooted : stage.Rooted)
    (hadding : ∀ path recursive, request = .watchAdd path recursive → ∃ purpose, stage = .adding path purpose) :
    Seeks id (x.wait id stage, .asking request) where
  rooted := rooted_wait hs hrooted
  waits slot path recursive hcall := by
    have hrequest := (Prod.mk.inj (List.mem_singleton.1 hcall)).2
    obtain ⟨purpose, rfl⟩ := hadding path recursive hrequest.symm
    exact ⟨purpose, stage?_wait_self hs⟩

theorem seeks_requestWatch (hs : (x.stage? id).isSome = true) (hrooted : (Stage.adding path purpose).Rooted) :
    Seeks id (x.requestWatch now id path purpose) := by
  unfold requestWatch
  split
  · exact seeks_leaveDesk
  · refine seeks_asking hs hrooted fun other recursive hsame => ⟨purpose, ?_⟩
    rw [(Rpc.Request.watchAdd.inj hsame).1]

theorem seeks_openBatch {directory : Path} (hs : (x.stage? id).isSome = true) :
    Seeks id (x.openBatch now id directory) := by
  unfold openBatch
  split
  · exact seeks_finish
  · exact seeks_asking hs trivial nofun

theorem seeks_proceed (hx : ∀ s, x.stage? id = some s → s.Rooted) : Seeks id (x.proceed now id) := by
  unfold proceed
  split
  · next hs =>
    split
    · exact seeks_openBatch (Option.isSome_of_eq_some hs)
    · exact seeks_rest hx
  · next path purpose hs =>
    split
    · refine seeks_requestWatch (Option.isSome_of_eq_some hs) ?_
      cases purpose with
      | host => trivial
      | root h => exact hx (.atDesk path (.root h)) hs
    · exact seeks_rest hx
  · next hs =>
    split
    · exact seeks_asking (Option.isSome_of_eq_some hs) trivial nofun
    · exact seeks_rest hx
  · exact seeks_rest hx

theorem seeks_queueAtDesk (hs : (x.stage? id).isSome = true) (hrooted : stage.Rooted) :
    Seeks id (x.queueAtDesk now id stage) := by
  unfold queueAtDesk
  exact seeks_proceed fun s hs' => rooted_wait hs hrooted s hs'

theorem seeks_seekRoot (hs : (x.stage? id).isSome = true) : Seeks id (x.seekRoot now id h) := by
  unfold seekRoot
  split
  · next root hroot =>
    split
    · exact seeks_queueAtDesk hs hroot
    · exact seeks_commit
  · exact seeks_commit

theorem seeks_takeOutputs {directory : Path} {since : Nat} {outputs : List (String × CommandOutput)}
    (hs : (x.stage? id).isSome = true) : Seeks id (x.takeOutputs now id directory since outputs) := by
  unfold takeOutputs
  dsimp only
  split
  · exact seeks_seekRoot hs
  · exact seeks_asking hs trivial nofun

theorem seeks_takeRemoval {calls : List (Path × Option Bool)} (hs : x.stage? id = some (.removingAll calls)) :
    Seeks id (x.takeRemoval id calls slot reply) := by
  unfold takeRemoval
  split
  · next path _ =>
    dsimp only
    rw [dropWatch_eq_heed 0 path reply x]
    split
    · exact seeks_finish
    · exact seeks_rest (rooted_wait (x := { x with registry := _ }) (Option.isSome_of_eq_some hs) trivial)
  · refine seeks_rest fun s hs' => ?_
    cases hs.symm.trans hs'
    trivial

theorem seeks_settle (hx : ∀ s, x.stage? id = some s → s.Rooted) : Seeks id (x.settle now id slot reply) := by
  unfold settle
  split
  · next hs => exact seeks_takeRemoval hs
  · next hs =>
    split
    · exact seeks_giveUp
    · exact seeks_takeOutputs (Option.isSome_of_eq_some hs)
  · next hs => exact seeks_seekRoot (Option.isSome_of_eq_some hs)
  · exact seeks_leaveDesk
  · split
    · exact seeks_finish
    · exact seeks_finish
  · split
    · exact seeks_finish
    · exact seeks_finish
  · exact seeks_rest hx

theorem seeks_launch (hnew : x.stage? x.session.next = none) : Seeks x.session.next (x.launch now operation).2 := by
  have hlisted : ∀ operation stage, (x.enlist operation stage).2.stage? x.session.next = some stage := fun _ _ =>
    (stage?_enlist hnew).trans (if_pos rfl)
  have hrefused : ∀ outcome, Seeks x.session.next (x, ⟨[], some outcome⟩) := fun _ => seeks_rest fun s hs => by
    rw [hnew] at hs
    contradiction
  have hbegun : ∀ (operation : Operation) (stage : Stage), stage.Rooted →
      ∀ s, (x.enlist operation stage).2.stage? x.session.next = some s → s.Rooted := fun operation stage hrooted s hs =>
    Option.some.inj ((hlisted operation stage).symm.trans hs) ▸ hrooted
  have hprefetch : ∀ operation directory, Seeks x.session.next (x.launchPrefetch now operation directory).2 :=
    fun operation directory => seeks_proceed (hbegun operation (.atGate directory) trivial)
  have hqueued : ∀ (operation : Operation) (stage : Stage), stage.Rooted →
      Seeks x.session.next ((x.enlist operation stage).2.queueAtDesk now x.session.next stage) :=
    fun operation stage => seeks_queueAtDesk (Option.isSome_of_eq_some (hlisted operation stage))
  unfold launch
  dsimp only
  split
  · exact hrefused _
  · split
    · split
      · exact hprefetch _ _
      · exact hrefused _
    · split
      · exact hprefetch _ _
      · exact hrefused _
    · exact hqueued _ _ trivial
    · split
      · refine ⟨hbegun _ _ trivial, fun slot path recursive hcall => ?_⟩
        cases List.mem_singleton.1 hcall
      · exact hrefused _
    · split
      · exact hrefused _
      · refine ⟨hbegun _ _ trivial, fun slot path recursive hcall => ?_⟩
        obtain ⟨_, -, hsame⟩ := List.mem_map.1 hcall
        cases hsame
    · exact hqueued _ _ trivial

/-- Every event takes operations on so. -/
theorem seeks_step (hnumbered : x.Numbered) (hx : ∀ id s, x.stage? id = some s → s.Rooted)
    (hprogress : (x.step now e).1.progress? = some (id, p)) : Seeks id ((x.step now e).2, p) := by
  cases e with
  | launch operation =>
    obtain ⟨rfl, rfl⟩ := Prod.mk.inj (Option.some.inj hprogress)
    have hname : (x.launch now operation).1 = x.session.next := launch_fst
    have hlaunch : Seeks x.session.next (x.launch now operation).2 :=
      seeks_launch (hnumbered.stage?_eq_none (Nat.le_refl _))
    rwa [← hname] at hlaunch
  | settle i slot reply =>
    obtain ⟨rfl, rfl⟩ := Prod.mk.inj (Option.some.inj hprogress)
    exact seeks_settle (hx i)
  | proceed i =>
    obtain ⟨rfl, rfl⟩ := Prod.mk.inj (Option.some.inj hprogress)
    exact seeks_proceed (hx i)
  | _ => contradiction

theorem rooted_step (hnumbered : x.Numbered) (hx : ∀ id s, x.stage? id = some s → s.Rooted)
    (hs : (x.step now e).2.stage? id = some s) : s.Rooted := by
  by_cases hmover : x.mover? e = some id
  · have hseeks : ∀ p, (x.step now e).1.progress? = some (id, p) → Seeks id ((x.step now e).2, p) := fun _ =>
      seeks_step hnumbered hx
    cases e with
    | launch operation =>
      have hname : (x.launch now operation).1 = id := launch_fst.trans (Option.some.inj hmover)
      exact (hseeks _ (congrArg some (Prod.ext hname rfl))).rooted s hs
    | settle i slot reply =>
      obtain rfl := Option.some.inj hmover
      exact (hseeks _ rfl).rooted s hs
    | proceed i =>
      obtain rfl := Option.some.inj hmover
      exact (hseeks _ rfl).rooted s hs
    | abandon i =>
      obtain rfl := Option.some.inj hmover
      have hgone : (x.abandon i).stage? i = none := stage?_abandon
      exact absurd (hgone.symm.trans hs) (Option.some_ne_none s).symm
    | _ => contradiction
  · rw [stage?, flight?_step_of_ne hnumbered hmover] at hs
    exact hx id s hs

/-! ## What is watched in the end -/

theorem believed_of_requestWatch (hended : (x.requestWatch now id path purpose).2.outcome.isSome = true) :
    path.parts ∈ x.registry.believed x.session.id := by
  unfold requestWatch at hended
  split at hended
  · next hwatched => exact Watch.Registry.isWatched_iff.1 hwatched
  · contradiction

theorem believed_of_proceed (hs : x.stage? id = some (.atDesk path purpose))
    (hended : (x.proceed now id).2.outcome.isSome = true) : path.parts ∈ x.registry.believed x.session.id := by
  unfold proceed at hended
  rw [hs] at hended
  dsimp only at hended
  split at hended
  · exact believed_of_requestWatch hended
  · contradiction

theorem believed_of_seekRoot (hs : (x.stage? id).isSome = true) (hauto : x.session.config.watch.autoRegister = true)
    (hroot : h.result.toplevel? = some root) (hended : (x.seekRoot now id h).2.outcome.isSome = true) :
    root.parts ∈ x.registry.believed x.session.id := by
  unfold seekRoot at hended
  rw [hroot] at hended
  dsimp only at hended
  rw [if_pos hauto] at hended
  have hqueued : ((x.placed (x.session.desk ++ [id]) x.registry).wait id (.atDesk root (.root h))).stage? id =
      some (.atDesk root (.root h)) := stage?_wait_self (x := x.placed _ _) hs
  -- in the queue at the desk the watches are the same
  have hbelieved := believed_of_proceed hqueued hended
  exact hbelieved

/-- A prefetch that ends well while it has found a directory has just been answered about a watch of it, or found that
it is believed to be watched. -/
theorem Commits.asked_or_believed (hrooted : ∀ id s, x.stage? id = some s → s.Rooted) (hnumbered : x.Numbered)
    (hcommits : x.Commits now e id h) (hauto : x.session.config.watch.autoRegister = true)
    (hroot : h.result.toplevel? = some root) :
    x.asked? id 0 = some (.watchAdd root x.session.config.watch.recursive) ∨
      root.parts ∈ x.registry.believed x.session.id := by
  obtain ⟨f, hf, hb, htold⟩ := hcommits.told
  have hs : x.stage? id = some f.stage := stage?_of_find? hf
  have hsome := Option.isSome_of_eq_some hs
  have hended : ∀ yp : Site × Progress, x.step now e = (.progress id yp.2, yp.1) → yp.2.outcome.isSome = true := by
    intro yp hstep
    rw [hstep] at htold
    rw [(Answer.progress.inj htold).2]
    rfl
  -- a prefetch that waits for the watch has asked for it; from elsewhere it ends only if it finds the directory watched
  cases hstage : f.stage with
  | batch directory since commands =>
    rw [hstage] at hs hb
    obtain ⟨r, outputs, hreply, houtputs, rfl⟩ := hb
    obtain rfl := Event.eq_settle_of_reply? hreply hcommits.mover
    have hend := hended (x.settle now id 0 r) rfl
    rw [settle_of_ok hs houtputs] at hend
    unfold takeOutputs at hend
    dsimp only at hend
    split at hend
    · exact Or.inr (believed_of_seekRoot hsome hauto hroot hend)
    · contradiction
  | scan h₀ =>
    rw [hstage] at hs hb
    obtain ⟨r, hreply, rfl⟩ := hb
    obtain rfl := Event.eq_settle_of_reply? hreply hcommits.mover
    have hend := hended (x.settle now id 0 r) rfl
    rw [settle_of_scan hs] at hend
    exact Or.inr (believed_of_seekRoot hsome hauto hroot hend)
  | atDesk path purpose =>
    rw [hstage] at hs hb
    cases purpose with
    | host => contradiction
    | root h₀ =>
      obtain rfl : h = h₀ := hb
      obtain rfl : root = path := Option.some.inj (hroot.symm.trans (hrooted id _ hs))
      have hmover := hcommits.mover
      -- of the events that take the prefetch on only a turn of its can end it here
      cases e with
      | launch operation =>
        obtain rfl := Option.some.inj hmover
        rw [hnumbered.stage?_eq_none (Nat.le_refl _)] at hs
        contradiction
      | settle i slot reply =>
        obtain rfl := Option.some.inj hmover
        have hend := hended (x.settle now i slot reply) rfl
        rw [settle_of_none (asked?_of_stage? hs)] at hend
        contradiction
      | proceed i =>
        obtain rfl := Option.some.inj hmover
        exact Or.inr (believed_of_proceed hs (hended (x.proceed now i) rfl))
      | _ => contradiction
  | adding path purpose =>
    rw [hstage] at hs hb
    cases purpose with
    | host => contradiction
    | root h₀ =>
      obtain rfl : h = h₀ := hb
      obtain rfl : root = path := Option.some.inj (hroot.symm.trans (hrooted id _ hs))
      exact Or.inl (asked?_of_stage? hs)
  | _ =>
    rw [hstage] at hb
    contradiction

theorem mem_calls_iff {a : Call} : a ∈ x.calls now e ↔ ∃ id p slot request, (x.step now e).1.progress? = some (id, p) ∧
    (slot, request) ∈ p.sent ∧ a = ⟨id, x.request? e, request⟩ := by
  unfold calls
  cases (x.step now e).1.progress? with
  | none => simp
  | some moved =>
    obtain ⟨id, p⟩ := moved
    rw [List.mem_map]
    constructor
    · rintro ⟨⟨slot, request⟩, hcall, rfl⟩
      exact ⟨id, p, slot, request, rfl, hcall, rfl⟩
    · rintro ⟨id', p', slot, request, hsame, hcall, rfl⟩
      obtain ⟨rfl, rfl⟩ := Prod.mk.inj (Option.some.inj hsame)
      exact ⟨(slot, request), hcall, rfl⟩

end Site

end Session

/-! ## Histories -/

namespace Client

open Session CommandOutput

variable {c : Client} {i j : Nat} {id : FlightId} {e : Event} {x : Site} {history : List (Nat × Event)}
    {line : List UInt8}

/-- In the answer to the batch of the prefetch `id`, the query of the top-level directory has succeeded, and these bytes
are the first line of what it has printed. -/
def RootLine (c : Client) (history : List (Nat × Event)) (i : Nat) (id : FlightId) (line : List UInt8) : Prop :=
  ∃ directory since result output, c.Obtained history i id directory since result ∧
    result.get? (Invocation.key Probe.toplevelQuery) = some output ∧ output.exitCode = 0 ∧
    line = lineBytes output.stdout

theorem RootLine.snoc {f : Nat × Event} (h : c.RootLine history i id line) : c.RootLine (history ++ [f]) i id line := by
  obtain ⟨directory, since, result, output, hobtained, hrest⟩ := h
  exact ⟨directory, since, result, output, hobtained.append [f], hrest⟩

/-- What holds of the calls of a session after every history. -/
structure Rooting (c : Client) (history : List (Nat × Event)) (i : Nat) (x : Site) : Prop where
  rooted : ∀ id s, x.stage? id = some s → s.Rooted
  sent : ∀ id slot request, x.asked? id slot = some request →
    ∃ a ∈ c.calls i history, a.flight = id ∧ a.request = request
  probed : ∀ a ∈ c.calls i history, a.ofPrefetch = true → ∀ path recursive, a.request = .watchAdd path recursive →
    ∃ line, c.RootLine history i a.flight line ∧ (ofLine line).firstLine? = some path.text

/-- A prefetch that asks for a watch has read the path off the answer to its batch. -/
theorem Rooting.probed_new (h : c.Rooting history i x) (hx : c.Provided history i x)
    (hnext : c.Provided (history ++ [(i, e)]) i (x.step (c.run history).clock e).2) {a : Call}
    (ha : a ∈ x.calls (c.run history).clock e) (hprefetch : a.ofPrefetch = true) {path : Path} {recursive : Bool}
    (hadd : a.request = .watchAdd path recursive) :
    ∃ line, c.RootLine (history ++ [(i, e)]) i a.flight line ∧ (ofLine line).firstLine? = some path.text := by
  have hin := (Site.since?_of_calls hx.numbered hx.assigned ha hprefetch).2
  obtain ⟨id, p, slot, request, hprogress, hcall, rfl⟩ := Site.mem_calls_iff.1 ha
  obtain rfl : request = .watchAdd path recursive := hadd
  have hseeks := Site.seeks_step hx.numbered h.rooted hprogress
  obtain ⟨purpose, hs⟩ := hseeks.waits slot path recursive hcall
  cases purpose with
  | host =>
    rw [Site.since?_of_stage? hs] at hin
    contradiction
  | root harvest =>
    have hroot : harvest.result.toplevel? = some path := hseeks.rooted _ hs
    obtain ⟨output, hget, hok, hline⟩ := PrefetchResult.toplevel?_eq_some_iff.1 hroot
    have hobtained := (hnext.supplied id _ hs).harvested harvest rfl
    exact ⟨_, ⟨_, _, _, output, hobtained, hget, hok, rfl⟩, hline⟩

theorem Rooting.own (h : c.Rooting history i x) (hsite : (c.run history).site? i = some x) (hx : c.Provided history i x)
    (hnext : c.Provided (history ++ [(i, e)]) i (x.step (c.run history).clock e).2) :
    c.Rooting (history ++ [(i, e)]) i (x.step (c.run history).clock e).2 where
  rooted _ _ hs := Site.rooted_step hx.numbered h.rooted hs
  sent id slot request hask := by
    rw [calls_snoc hsite]
    rcases Site.sent_or_asked? hx.numbered hask with ⟨p, hprogress, hsent⟩ | hstays
    · have hnew : (⟨id, x.request? e, request⟩ : Call) ∈ x.calls (c.run history).clock e :=
        Site.mem_calls_iff.2 ⟨id, p, slot, request, hprogress, hsent, rfl⟩
      exact ⟨_, List.mem_append_right _ hnew, rfl, rfl⟩
    · obtain ⟨a, ha, hsame⟩ := h.sent id slot request (Site.leaves_eq_some hstays).1
      exact ⟨a, List.mem_append_left _ ha, hsame⟩
  probed a ha hprefetch path recursive hadd := by
    rw [calls_snoc hsite] at ha
    rcases List.mem_append.1 ha with ha | ha
    · obtain ⟨line, hline, hpath⟩ := h.probed a ha hprefetch path recursive hadd
      exact ⟨line, hline.snoc, hpath⟩
    · exact h.probed_new hx hnext ha hprefetch hadd

theorem Rooting.other {registry : Watch.Registry} (h : c.Rooting history i x) (hj : j ≠ i) :
    c.Rooting (history ++ [(j, e)]) i { x with registry } where
  rooted := h.rooted
  sent := by
    rw [calls_snoc_of_ne hj]
    exact h.sent
  probed a ha hprefetch path recursive hadd := by
    rw [calls_snoc_of_ne hj] at ha
    obtain ⟨line, hline, hpath⟩ := h.probed a ha hprefetch path recursive hadd
    exact ⟨line, hline.snoc, hpath⟩

theorem rooting_opened (connection : Watch.ConnectionId) (config : Config) (ticks : Nat) (flushesOnLeave : Bool)
    (registry : Watch.Registry) :
    c.Rooting [] i ⟨Session.opened connection config ticks flushesOnLeave, registry⟩ where
  rooted := nofun
  sent := nofun
  probed := nofun

theorem rooting_run {sessions : List Session} {connection : Watch.ConnectionId} {config : Config} {ticks : Nat}
    {flushesOnLeave : Bool} (hopened : sessions[i]? = some (Session.opened connection config ticks flushesOnLeave))
    (history : List (Nat × Event)) :
    ∃ x, ((opened sessions).run history).site? i = some x ∧ (opened sessions).Rooting history i x := by
  have hstart : (opened sessions).site? i = some ⟨Session.opened connection config ticks flushesOnLeave, .empty⟩ := by
    rw [site?, opened, hopened]
    rfl
  have hown : ∀ history x e, ((opened sessions).run history).site? i = some x → (opened sessions).Rooting history i x →
      (opened sessions).Rooting (history ++ [(i, e)]) i (x.step ((opened sessions).run history).clock e).2 := by
    intro history x e hx h
    obtain ⟨y, hy, hprovided⟩ := provided_run hopened history
    obtain rfl : x = y := Option.some.inj (hx.symm.trans hy)
    obtain ⟨z, hz, hnext⟩ := provided_run hopened (history ++ [(i, e)])
    rw [run_snoc, site?_step hx] at hz
    obtain rfl := Option.some.inj hz
    exact h.own hx hprovided hnext
  exact run_invariant hstart (rooting_opened _ _ _ _ _) hown fun history x j e registry hj h => h.other hj

/-- What prefetches of a session ask to watch, and when they do. -/
structure WatchesRoots (c : Client) (history : List (Nat × Event)) (i : Nat) (config : Config) : Prop where
  /-- What a prefetch asks to watch is the first line that the query of the top-level directory has printed for it. -/
  probed : ∀ a ∈ c.calls i history, a.ofPrefetch = true → ∀ path recursive, a.request = .watchAdd path recursive →
    ∃ line, c.RootLine history i a.flight line ∧ (ofLine line).firstLine? = some path.text
  /-- If it is to, a prefetch that ends well with a top-level directory has asked for a watch of it, unless one is
  believed to be there. -/
  sought : ∀ t e y id h root, c.Met history i t e y → y.Commits t e id h → config.watch.autoRegister = true →
    h.result.toplevel? = some root →
      (∃ a ∈ c.calls i history, a.flight = id ∧ a.request = .watchAdd root config.watch.recursive) ∨
        root.parts ∈ y.registry.believed y.session.id

/-- The first line is read off the bytes before the first line feed. So the top-level directory of a prefetch depends on
the first line of a successful query only, and that line is what prefetches ask to watch. -/
theorem watched_root_is_first_line {sessions : List Session} {connection : Watch.ConnectionId} {config : Config}
    {ticks : Nat}
    {flushesOnLeave : Bool} (hopened : sessions[i]? = some (Session.opened connection config ticks flushesOnLeave))
    (history : List (Nat × Event)) :
    (∀ a b : List UInt8, 0x0A ∉ a → ReadsLine a b) ∧
    (∀ o : CommandOutput, (∀ line, o.firstLine? = some line →
        '\n' ∉ line.toList ∧ line.toList.getLast? ≠ some '\r' ∧ line ≠ "") ∧
      (o.firstLine? = none ↔ ∀ b ∈ lineBytes o.stdout, b = 0x0D)) ∧
    (∀ r : PrefetchResult, r.toplevel? = (r.get? (Invocation.key Probe.toplevelQuery)).bind fun o =>
      if o.exitCode = 0 then (ofLine (lineBytes o.stdout)).firstLine?.map Path.mk else none) ∧
    (opened sessions).WatchesRoots history i config := by
  refine ⟨fun a b => readsLine, fun o => ⟨fun line => clean_of_firstLine?, firstLine?_eq_none_iff⟩,
    PrefetchResult.toplevel?_eq, ⟨?_, ?_⟩⟩
  · obtain ⟨x, -, hrooting⟩ := rooting_run hopened history
    exact hrooting.probed
  · rintro t e y id h root ⟨before, after, rfl, rfl, hy⟩ hcommits hauto hroot
    obtain ⟨x, hx, hrooting⟩ := rooting_run hopened before
    obtain rfl : y = x := Option.some.inj (hy.symm.trans hx)
    obtain ⟨z, hz, hnumbered, -, rfl⟩ := opened_run hopened before
    obtain rfl : y = z := Option.some.inj (hy.symm.trans hz)
    refine (hcommits.asked_or_believed hrooting.rooted hnumbered hauto hroot).imp_left fun hask => ?_
    obtain ⟨a, ha, hsame⟩ := hrooting.sent id 0 _ hask
    rw [calls_append]
    exact ⟨a, List.mem_append_left _ ha, hsame⟩

/-- A character that the line feed cuts short is not read on after it. -/
theorem watched_root_is_first_line_of_cut :
    let client := opened [Session.opened 0 { prefetch := { ancestorMarkers := [] } } 1 true]
    let printed := Json.array ([0x2F, 0x72, 0xC3, 0x0D, 0x0A, 0xA9].map .int)
    let fields := (ProbePlan.build ⟨"/r/s"⟩ ".git").commands.map fun command =>
      (command.key, Json.object [("exit_code", .int 0), ("stdout", printed)])
    let history : List (Nat × Event) :=
      [(0, .launch (.prefetch ⟨"/r/s"⟩)), (0, .settle 0 0 (.answered (.object fields)))]
    ∃ a ∈ client.calls 0 history, a.request.method = "watch.add" ∧
      (a.request.params.field? "path").bind Json.text? = some "/r\ufffd" ∧
      ∃ line, client.RootLine history 0 a.flight line ∧ (ofLine line).firstLine? = some "/r\ufffd" := by
  intro client printed fields history
  have hopened : [Session.opened 0 { prefetch := { ancestorMarkers := [] } } 1 true][0]? = some _ := rfl
  have hsent : ∃ a ∈ client.calls 0 history, a.ofPrefetch = true ∧ a.request.method = "watch.add" ∧
      (a.request.params.field? "path").bind Json.text? = some "/r\ufffd" := by
    decide +kernel
  obtain ⟨-, -, -, hroots⟩ := watched_root_is_first_line hopened history
  obtain ⟨a, ha, hprefetch, hmethod, hpath⟩ := hsent
  refine ⟨a, ha, hmethod, hpath, ?_⟩
  cases hadd : a.request with
  | watchAdd path recursive =>
    rw [hadd] at hpath
    have htext : path.text = "/r\ufffd" := Option.some.inj hpath
    rw [← htext]
    exact hroots.probed a ha hprefetch path recursive hadd
  | _ =>
    simp [hadd, Rpc.Request.method] at hmethod

end Client

end RemoteFacts
