import RemoteFacts.Proofs.Cache.Room
import RemoteFacts.Proofs.Prefetch.Batch
import RemoteFacts.Proofs.Prefetch.Running

/-!
# A prefetch that succeeds keeps exactly its batch

* `Course.congr_batch` : of the answer to the batch only what was requested matters;
* `Keeps` : what a successful prefetch leaves, entry by entry;
* `keeps_of_landed`, `successful_prefetch_keeps_batch` : that is what each one leaves.
-/

namespace RemoteFacts.Session

variable {x y : Site} {directory : Path} {replies rest : List Rpc.Reply} {pushes : List Rpc.Notification}
  {outcome : Option Outcome}

/-! ## What was not requested -/

/-- A prefetch whose first call is outstanding waits for its batch. -/
theorem stage?_of_running_nil {stage : Stage} (hx : x.Sound) (hy : Running x directory [] pushes y)
    (hs : y.stage? x.session.next = some stage) (hcall : stage.hasCall = true) :
    ∃ since, stage = .batch directory since (x.session.plan directory).commands := by
  have hnone : ∀ {h : Harvest}, ¬ Brought x directory [] h := fun hb => by
    obtain ⟨reply, outputs, hreply, -⟩ := hb.batch
    contradiction
  cases hy with
  | atGate =>
    rw [Site.stage?_joined hx.numbered] at hs
    cases hs
    contradiction
  | inScope hidle hw htally =>
    rw [Site.stage?_joined hx.numbered] at hs
    cases hs
    cases hw with
    | batch since => exact ⟨since, rfl⟩
    | scan hb _ _ => exact absurd hb hnone
    | atDesk _ hb _ => exact absurd hb hnone
    | adding _ hb _ => exact absurd hb hnone

theorem settle_congr {id : FlightId} {now since : Nat} {commands : List CommandSpec} {r r' : Rpc.Reply}
    (hs : y.stage? id = some (.batch directory since commands)) (hsame : r'.outputs commands = r.outputs commands) :
    y.settle now id 0 r' = y.settle now id 0 r := by
  cases hr : r.outputs commands with
  | error e => rw [Site.settle_of_error hs hr, Site.settle_of_error hs (hsame.trans hr)]
  | ok outputs => rw [Site.settle_of_ok hs hr, Site.settle_of_ok hs (hsame.trans hr)]

/-- Two answers to the batch of which the same is taken lead through the same course. -/
theorem Course.congr_batch {r r' : Rpc.Reply} (hx : x.Sound) (h : Course x directory (r :: rest) pushes y outcome)
    (hsame : r'.outputs (x.session.plan directory).commands = r.outputs (x.session.plan directory).commands) :
    Course x directory (r' :: rest) pushes y outcome := by
  generalize hreplies : r :: rest = replies at h
  -- the courses differ at the first reply only, and when it comes the prefetch waits for its batch
  induction h generalizing rest with
  | launch now => contradiction
  | @reply replies pushes y stage now q h hs hcall ih =>
    cases replies with
    | nil =>
      cases hreplies
      obtain ⟨since, rfl⟩ := stage?_of_running_nil hx (h.standing hx []) hs hcall
      rw [← settle_congr hs hsame]
      exact Course.reply now r' h hs hcall
    | cons first replies =>
      cases hreplies
      exact Course.reply now q (ih rfl) hs hcall
  | look now h ih => exact Course.look now (ih hreplies)
  | push n h hin ih => exact Course.push n (ih hreplies) hin

/-! ## What is kept -/

/-- A notification that was dropped named the path itself, the directory that holds it or a path in it. -/
def Touched (pushes : List Rpc.Notification) (path : Path) : Prop :=
  ∃ n ∈ pushes, ∃ p, n.Names p ∧ (p.parts = path.parts ∨ p.ParentOf path ∨ path.ParentOf p)

/-- A notification that was dropped named a path whose last name is a marker of the scan. -/
def Affected (pushes : List Rpc.Notification) (scan : AncestorScan) : Prop :=
  ∃ n ∈ pushes, ∃ p, n.Names p ∧ ∃ m ∈ scan.markers.map (·.1), p.parts.getLast? = some (.name m)

/-- The state files that a prefetch launched in `x` for `directory` asks for. -/
def plannedPaths (x : Site) (directory : Path) : List Path :=
  ProbePlan.statePaths directory x.session.config.prefetch.metadataDir

/-- In `y` is kept what a prefetch for `directory`, launched in `x`, has brought in: the answer to its batch has these
fields, `scanReply` is the one to its scan, and these notifications were dropped. -/
structure Keeps (x y : Site) (directory : Path) (fields : List (String × Json)) (scanReply : Option Rpc.Reply)
    (pushes : List Rpc.Notification) (since now : Nat) (r : PrefetchResult) : Prop where
  asked : r.directory = directory
  keys : (r.entries.map (·.1)).Perm (Probe.queries.map Invocation.key)
  entry : ∀ query ∈ Probe.queries, ∃ output,
    Rpc.Reply.Gives fields (Invocation.key query) output ∧ r.get? (Invocation.key query) = some output
  result : y.session.transient.result = some ⟨since, r⟩
  /-- A state file is known to exist if its own test has exited with code zero, and not to exist if with another. -/
  fact : ∀ f ∈ plannedPaths x directory, ¬ Touched pushes f →
    ∃ output e, Rpc.Reply.Gives fields ("state:" ++ f.text) output ∧ y.session.store.existence.find? f = some e ∧
      e.insertedAt = now ∧ e.value = ⟨since, decide (output.exitCode = 0)⟩
  touched : ∀ f ∈ plannedPaths x directory, Touched pushes f → y.session.store.existence.find? f = none
  others : ¬ SomeNamed pushes →
    (∀ q, (∀ f ∈ plannedPaths x directory, f.parts ≠ q.parts) →
      y.session.store.existence.find? q = x.session.store.existence.find? q) ∧
    y.session.store.truename = x.session.store.truename
  flushed : SomeNamed pushes →
    (∀ q, (∀ f ∈ plannedPaths x directory, f.parts ≠ q.parts) → y.session.store.existence.find? q = none) ∧
    y.session.store.truename.entries = []
  scan : ∀ s, y.session.transient.scan.map (·.value) = some s ↔
    x.session.config.prefetch.ancestorMarkers ≠ [] ∧ ∃ reply found, scanReply = some reply ∧ reply.Finds found ∧
      s = ⟨directory, found⟩ ∧ ¬ Affected pushes s

/-- What is known of a state file that no dropped notification has touched. -/
theorem Keeps.value {scanReply : Option Rpc.Reply} {fields : List (String × Json)} {since now : Nat}
    {r : PrefetchResult} {f : Path} (h : Keeps x y directory fields scanReply pushes since now r)
    (hf : f ∈ plannedPaths x directory) (huntouched : ¬ Touched pushes f) :
    (y.session.store.existence.find? f).map (·.value.value) =
      ((fields.lookup ("state:" ++ f.text)).bind CommandOutput.ofJson?).map
        fun output => decide (output.exitCode = 0) := by
  obtain ⟨output, e, hgives, hfind, -, hvalue⟩ := h.fact f hf huntouched
  rw [Rpc.Reply.gives_iff.1 hgives, hfind, Option.map_some, Option.map_some, hvalue]

theorem touched_iff {path : Path} :
    Touched pushes path ↔ ∃ n ∈ pushes, ∃ p, n.Names p ∧ touches p path = true := by
  unfold Touched
  simp only [touches_iff]

theorem affected_iff {s : AncestorScan} :
    Affected pushes s ↔ ∃ n ∈ pushes, ∃ p, n.Names p ∧ s.isAffectedBy p = true := by
  unfold Affected
  simp only [AncestorScan.isAffectedBy_iff, Path.fileName?_eq_some_iff, and_comm]

section Landed

variable {report : Suppression.Report} {h : Harvest} {fields : List (String × Json)} {now : Nat}
  {registry : Watch.Registry}

/-- The facts that a harvest keeps, among those of the state files. -/
theorem mem_fresh (htally : Tally pushes report) {f : Path × Bool} :
    f ∈ h.facts.filter (fun f => !report.paths.any (touches · f.1)) ↔ f ∈ h.facts ∧ ¬ Touched pushes f.1 := by
  rw [List.mem_filter]
  refine and_congr_right fun _ => ?_
  rw [Bool.not_eq_true', touched_iff, ← htally.any_iff fun p q hpq => touches_congr hpq, Bool.not_eq_true]

/-- Different facts of a harvest are about different paths. -/
theorem nodup_parts_fresh {metadataDir : String} (hsplit : Splits directory metadataDir fields h.result h.facts)
    (p : Path × Bool → Bool) : ((h.facts.filter p).map (·.1.parts)).Nodup := by
  have hall : (h.facts.map (·.1.parts)).Nodup := by
    have hperm := hsplit.paths.map Path.parts
    rw [List.map_map] at hperm
    exact hperm.nodup_iff.2 (ProbePlan.nodup_parts_statePaths directory metadataDir)
  exact hall.sublist (List.filter_sublist.map _)

/-- The facts that are left when the scope has closed. -/
def leftStore (x : Site) (report : Suppression.Report) : FactStore :=
  if report.needsFlush then x.session.store.flush else x.session.store

theorem hasRoomFor_leftStore (hroom : x.session.store.existence.HasRoomFor (plannedPaths x directory)) :
    (leftStore x report).existence.HasRoomFor (plannedPaths x directory) := by
  unfold leftStore
  split
  · exact hroom.clear (ProbePlan.nodup_parts_statePaths directory _)
  · exact hroom

theorem leftStore_of_named (htally : Tally pushes report) (hsome : SomeNamed pushes) :
    leftStore x report = x.session.store.flush := by
  rw [leftStore, if_pos (htally.flush.2 hsome)]

theorem leftStore_of_quiet (htally : Tally pushes report) (hnone : ¬ SomeNamed pushes) :
    leftStore x report = x.session.store := by
  rw [leftStore, if_neg fun hflush => hnone (htally.flush.1 hflush)]

/-- What the caches hold once a harvest is kept: its untouched facts, and nothing else has changed. -/
theorem find?_landed (htally : Tally pushes report)
    (hsplit : Splits directory x.session.config.prefetch.metadataDir fields h.result h.facts)
    (hroom : x.session.store.existence.HasRoomFor (plannedPaths x directory)) (q : Path) :
    (∀ f ∈ h.facts, ¬ Touched pushes f.1 → (f.1 == q) = true →
      ∃ e, (x.landed now report h registry).session.store.existence.find? q = some e ∧ e.insertedAt = now ∧
        e.value = ⟨h.since, f.2⟩) ∧
    ((∀ f ∈ h.facts, ¬ Touched pushes f.1 → (f.1 == q) = false) →
      (x.landed now report h registry).session.store.existence.find? q = (leftStore x report).existence.find? q) := by
  have hfacts : (leftStore x report).existence.HasRoomFor (h.facts.map (·.1)) :=
    (hasRoomFor_leftStore hroom).perm hsplit.paths.symm
  have hfresh := hfacts.of_sublist
    ((List.filter_sublist (p := fun f : Path × Bool => !report.paths.any (touches · f.1))).map (·.1))
  obtain ⟨hfound, hother⟩ := FactStore.find?_foldl_recordExists h.since now q hfresh (nodup_parts_fresh hsplit _)
  refine ⟨fun f hf huntouched hq => hfound f ((mem_fresh htally).2 ⟨hf, huntouched⟩) hq,
    fun hnone => hother fun f hf => ?_⟩
  obtain ⟨hf, huntouched⟩ := (mem_fresh htally).1 hf
  exact hnone f hf huntouched

theorem truename_landed : (x.landed now report h registry).session.store.truename = (leftStore x report).truename :=
  FactStore.truename_foldl_recordExists _ _

/-- The scan that is kept is the one that was asked for, unless a dropped notification may falsify it. -/
theorem scan_landed (htally : Tally pushes report) (hb : Brought x directory replies h) (s : AncestorScan) :
    (x.landed now report h registry).session.transient.scan.map (·.value) = some s ↔
      x.session.config.prefetch.ancestorMarkers ≠ [] ∧ ∃ reply found, replies[1]? = some reply ∧
        reply.Finds found ∧ s = ⟨directory, found⟩ ∧ ¬ Affected pushes s := by
  have hvalue : (x.landed now report h registry).session.transient.scan.map (·.value) =
      h.scan.filter fun s => !report.paths.any s.isAffectedBy := by
    show ((h.scan.filter _).map _).map _ = _
    rw [Option.map_map]
    exact Option.map_id'
  have haffected : (!report.paths.any s.isAffectedBy) = true ↔ ¬ Affected pushes s := by
    rw [affected_iff, ← htally.any_iff fun p q hpq => AncestorScan.isAffectedBy_congr hpq, Bool.not_eq_true',
      Bool.not_eq_true]
  rw [hvalue, Option.filter_eq_some_iff, haffected, hb.scan]
  constructor
  · rintro ⟨hscan, hunaffected⟩
    split at hscan
    · contradiction
    · next hmarkers =>
      obtain ⟨found, hfound, rfl⟩ := Option.map_eq_some_iff.1 hscan
      obtain ⟨reply, hreply, hok⟩ := Option.bind_eq_some_iff.1 hfound
      refine ⟨hmarkers, reply, found, hreply, Rpc.Reply.markers_eq_ok_iff.1 ?_, rfl, hunaffected⟩
      cases hread : reply.markers with
      | error e => rw [hread] at hok; contradiction
      | ok found' =>
        rw [hread] at hok
        cases hok
        rfl
  · rintro ⟨hmarkers, reply, found, hreply, hok, rfl, hunaffected⟩
    refine ⟨?_, hunaffected⟩
    rw [if_neg hmarkers, hreply, Option.bind_some, Rpc.Reply.markers_eq_ok_iff.2 hok]
    rfl

end Landed

/-- A site in which a harvest has landed holds exactly what was brought in. -/
theorem keeps_of_landed {report : Suppression.Report} {h : Harvest} {fields : List (String × Json)} (now : Nat)
    (registry : Watch.Registry) (htally : Tally pushes report) (hb : Brought x directory replies h)
    (hsplit : Splits directory x.session.config.prefetch.metadataDir fields h.result h.facts)
    (hroom : x.session.store.existence.HasRoomFor (plannedPaths x directory)) :
    Keeps x (x.landed now report h registry) directory fields replies[1]? pushes h.since now h.result := by
  have hplanned : ∀ f ∈ h.facts, f.1 ∈ plannedPaths x directory := fun f hf =>
    hsplit.paths.mem_iff.1 (List.mem_map_of_mem hf)
  have hothers : ∀ q, (∀ f ∈ plannedPaths x directory, f.parts ≠ q.parts) →
      (x.landed now report h registry).session.store.existence.find? q = (leftStore x report).existence.find? q :=
    fun q hq => (find?_landed htally hsplit hroom q).2 fun f hf _ =>
      Bool.eq_false_iff.2 fun hsame => hq f.1 (hplanned f hf) (Path.beq_iff.1 hsame)
  refine ⟨hsplit.asked, hsplit.keys, fun query hquery => hsplit.entry _ (Probe.isQueryKey_iff.2 ⟨query, hquery, rfl⟩),
    rfl, fun f hf huntouched => ?_, fun f hf htouched => ?_, fun hnone => ?_, fun hsome => ?_, scan_landed htally hb⟩
  · obtain ⟨g, hg, rfl⟩ := List.mem_map.1 (hsplit.paths.mem_iff.2 hf)
    obtain ⟨output, hgives, hvalue⟩ := hsplit.fact g hg
    obtain ⟨e, he, hinserted, hdated⟩ := (find?_landed htally hsplit hroom g.1).1 g hg huntouched BEq.rfl
    rw [ProbeKey.toWire_stateFile] at hgives
    exact ⟨output, e, hgives, he, hinserted, by rw [hdated, hvalue, CommandOutput.succeeded_eq_decide]⟩
  -- the flush takes the old fact, and no other state file of the batch is in the same place
  · have hsome : SomeNamed pushes := by
      obtain ⟨n, hn, p, hp, -⟩ := htouched
      exact ⟨n, hn, p, hp⟩
    have hnew : ∀ g ∈ h.facts, ¬ Touched pushes g.1 → (g.1 == f) = false := by
      intro g hg huntouched
      by_contra hsame
      rw [Bool.not_eq_false] at hsame
      have hequal : g.1 = f :=
        List.inj_on_of_nodup_map (ProbePlan.nodup_parts_statePaths directory _) (hplanned g hg) hf
          (Path.beq_iff.1 hsame)
      exact huntouched (hequal ▸ htouched)
    rw [(find?_landed htally hsplit hroom f).2 hnew, leftStore_of_named htally hsome]
    rfl
  · refine ⟨fun q hq => ?_, ?_⟩
    · rw [hothers q hq, leftStore_of_quiet htally hnone]
    · rw [truename_landed, leftStore_of_quiet htally hnone]
  · refine ⟨fun q hq => ?_, ?_⟩
    · rw [hothers q hq, leftStore_of_named htally hsome]
      rfl
    · rw [truename_landed, leftStore_of_named htally hsome]
      rfl

/-- A prefetch that succeeds has been answered by an object, which has each key once, and leaves exactly what it has
asked for and been told, whatever the order of the fields is, as long as the cache has room; fields that it has not
asked for might as well be missing. -/
theorem successful_prefetch_keeps_batch {r : PrefetchResult} (hx : Client.Reaches x)
    (h : Course x directory replies pushes y (some (.prefetched (.ok r))))
    (hkeys : ∀ fields rest, replies = .answered (.object fields) :: rest → (fields.map (·.1)).Nodup)
    (hroom : x.session.store.existence.HasRoomFor (plannedPaths x directory)) :
    ∃ fields rest since now, replies = .answered (.object fields) :: rest ∧
      Keeps x y directory fields rest.head? pushes since now r ∧
      Course x directory (.answered (.object (Rpc.Reply.requested (x.session.plan directory).commands fields)) :: rest)
        pushes y (some (.prefetched (.ok r))) := by
  have hsound := Site.sound_of_reaches hx
  have hended : Ended x directory replies pushes y (.prefetched (.ok r)) := h.standing hsound []
  cases hended with
  | @landed report harvest now registry htally hb =>
    obtain ⟨reply, outputs, hreply, houtputs, hsplit⟩ := hb.batch
    obtain ⟨fields, all, rfl, -⟩ := Rpc.Reply.outputs_eq_ok houtputs
    obtain ⟨rest, rfl⟩ : ∃ rest, replies = .answered (.object fields) :: rest := by
      cases replies with
      | nil => contradiction
      | cons first rest => exact ⟨rest, by rw [Option.some.inj hreply]⟩
    have hanswers := Answers.of_outputs (hkeys fields rest rfl) houtputs
    have hkept := keeps_of_landed now registry htally hb (hanswers.splits hsplit) hroom
    have hsecond : (Rpc.Reply.answered (.object fields) :: rest)[1]? = rest.head? := by
      rw [List.getElem?_cons_succ, List.head?_eq_getElem?]
    rw [hsecond] at hkept
    refine ⟨fields, rest, harvest.since, now, rfl, hkept, h.congr_batch hsound ?_⟩
    rw [Rpc.Reply.outputs_requested houtputs, houtputs]

/-! ## A batch that is answered after the index has changed -/

/-- A site that knows one fact, scans for one marker and registers no watch. -/
def scanningSite : Site :=
  (Site.step 0 (.recordExists ⟨"/r/f"⟩ true) ⟨Session.opened 0
    { prefetch := { ancestorMarkers := [".git"] }, watch := { autoRegister := false } } 1 true, .empty⟩).2

/-- A report that the index has changed. -/
def indexChange : Rpc.Notification := ⟨"fs.changed", .object [("paths", .array [.text "/r/.git/index"])]⟩

/-- What the answer to the batch holds when there is an index and a merge is under way: all other commands have failed,
and each has printed its key. -/
def mergeFields : List (String × Json) :=
  (ProbePlan.build ⟨"/r"⟩ ".git").commands.map fun command =>
    let found := command.key == "state:/r/.git/index" || command.key == "state:/r/.git/MERGE_HEAD"
    (command.key, .object [("exit_code", .int (if found then 0 else 1)), ("stdout", .text command.key)])

theorem nodup_keys_mergeFields : (mergeFields.map (·.1)).Nodup := by
  rw [mergeFields, List.map_map]
  exact ProbePlan.nodup_keys ⟨"/r"⟩ ".git"

/-- The answer to the batch. -/
def mergeAnswer : Rpc.Reply := .answered (.object mergeFields)

/-- The answer to the scan when the marker lies in the directory itself. -/
def markerFound : Rpc.Reply := .answered (.object [(".git", .text "/r")])

/-- The site when the change has been dropped and the batch is still outstanding. -/
def changedSite : Site := ((scanningSite.launch 1 (.prefetch ⟨"/r"⟩)).2.1.notify indexChange).2

/-- The prefetch when its batch has been answered. -/
def batchAnswered : Site × Progress := changedSite.settle 2 0 0 mergeAnswer

/-- The prefetch when its scan has been answered. -/
def scanAnswered : Site × Progress := batchAnswered.1.settle 3 0 0 markerFound

theorem scanAnswered_spec : (changedSite.stage? 0).any Stage.hasCall = true ∧ batchAnswered.2.outcome.isNone = true ∧
    (batchAnswered.1.stage? 0).any Stage.hasCall = true ∧
    (scanAnswered.2.outcome.bind Outcome.result?).isSome = true := by
  decide +kernel

theorem course_scanAnswered : ∃ r, Course scanningSite ⟨"/r"⟩ [mergeAnswer, markerFound] [indexChange]
    scanAnswered.1 (some (.prefetched (.ok r))) := by
  obtain ⟨hcalling, hnone, hscanning, hok⟩ := scanAnswered_spec
  obtain ⟨stage, hstage, hcall⟩ := (Option.any_eq_true _ _).1 hcalling
  obtain ⟨stage', hstage', hcall'⟩ := (Option.any_eq_true _ _).1 hscanning
  have hlaunched : Course scanningSite ⟨"/r"⟩ [] [] (scanningSite.launch 1 (.prefetch ⟨"/r"⟩)).2.1 none :=
    Course.launch 1
  have hpushed : Course scanningSite ⟨"/r"⟩ [] [indexChange] changedSite none := Course.push indexChange hlaunched rfl
  have hbatched : Course scanningSite ⟨"/r"⟩ [mergeAnswer] [indexChange] batchAnswered.1
      batchAnswered.2.outcome := Course.reply 2 mergeAnswer hpushed hstage hcall
  rw [Option.isNone_iff_eq_none.1 hnone] at hbatched
  have hscanned : Course scanningSite ⟨"/r"⟩ [mergeAnswer, markerFound] [indexChange] scanAnswered.1
      scanAnswered.2.outcome := Course.reply 3 markerFound hbatched hstage' hcall'
  obtain ⟨r, hresult⟩ := Option.isSome_iff_exists.1 hok
  obtain ⟨outcome, houtcome, hresult⟩ := Option.bind_eq_some_iff.1 hresult
  rw [houtcome, Outcome.eq_of_result? hresult] at hscanned
  exact ⟨r, hscanned⟩

/-- The change names one path. -/
theorem names_indexChange_iff {p : Path} : indexChange.Names p ↔ p = ⟨"/r/.git/index"⟩ := by
  constructor
  · rintro ⟨-, -, ps, hps, hp⟩
    cases hps
    exact List.mem_singleton.1 hp
  · rintro rfl
    exact ⟨rfl, rfl, _, rfl, List.mem_singleton_self _⟩

theorem touched_indexChange_iff {path : Path} :
    Touched [indexChange] path ↔ touches ⟨"/r/.git/index"⟩ path = true := by
  rw [touched_iff]
  simp only [List.mem_singleton, exists_eq_left, names_indexChange_iff]

theorem not_touched_indexChange {path : Path} (h : touches ⟨"/r/.git/index"⟩ path = false) :
    ¬ Touched [indexChange] path := by
  rw [touched_indexChange_iff, h]
  exact Bool.false_ne_true

theorem not_affected_indexChange : ¬ Affected [indexChange] ⟨⟨"/r"⟩, [(".git", some ⟨"/r"⟩)]⟩ := by
  rw [affected_iff]
  simp only [List.mem_singleton, exists_eq_left, names_indexChange_iff]
  decide +kernel

theorem finds_markerFound : markerFound.Finds [(".git", some ⟨"/r"⟩)] :=
  ⟨_, rfl, .cons ⟨rfl, .found "/r"⟩ .nil⟩

/-- The prefetch keeps that a merge is under way and no cherry-pick is, but nothing about the index, though it was
answered that there is one; the fact that was known before has gone, and the scan is kept. -/
theorem successful_prefetch_keeps_batch_of_index_change : ∃ r fields rest since now,
    [mergeAnswer, markerFound] = .answered (.object fields) :: rest ∧
      Keeps scanningSite scanAnswered.1 ⟨"/r"⟩ fields rest.head? [indexChange] since now r ∧
      r.get? "diff --quiet" = some ⟨1, "diff --quiet".toUTF8.data.toList, []⟩ ∧
      ((scanAnswered.1.session.store.existence.find? ⟨"/r/.git/MERGE_HEAD"⟩).map (·.value.value) = some true ∧
        (scanAnswered.1.session.store.existence.find? ⟨"/r/.git/CHERRY_PICK_HEAD"⟩).map (·.value.value) = some false) ∧
      scanAnswered.1.session.store.existence.find? ⟨"/r/.git/index"⟩ = none ∧
      ((scanningSite.session.store.existence.find? ⟨"/r/f"⟩).isSome = true ∧
        scanAnswered.1.session.store.existence.find? ⟨"/r/f"⟩ = none) ∧
      scanAnswered.1.session.transient.scan.map (·.value) = some ⟨⟨"/r"⟩, [(".git", some ⟨"/r"⟩)]⟩ := by
  obtain ⟨r, hcourse⟩ := course_scanAnswered
  have hreaches : Client.Reaches scanningSite := ⟨[_], 0, 0, _, 1, [(0, .recordExists ⟨"/r/f"⟩ true)], rfl, rfl⟩
  have hkeys : ∀ fields rest, [mergeAnswer, markerFound] = .answered (.object fields) :: rest →
      (fields.map (·.1)).Nodup := by
    intro fields rest hsame
    obtain rfl := Json.object.inj (Rpc.Reply.answered.inj (List.cons.inj hsame).1)
    exact nodup_keys_mergeFields
  have hroom : scanningSite.session.store.existence.HasRoomFor (plannedPaths scanningSite ⟨"/r"⟩) := by
    rintro max hmax
    cases hmax
    decide +kernel
  obtain ⟨fields, rest, since, now, hsame, hkept, -⟩ := successful_prefetch_keeps_batch hreaches hcourse hkeys hroom
  obtain rfl := Json.object.inj (Rpc.Reply.answered.inj (List.cons.inj hsame).1)
  obtain rfl := (List.cons.inj hsame).2
  have hplanned (text : String) (h : text ∈ (plannedPaths scanningSite ⟨"/r"⟩).map Path.text) :
      ⟨text⟩ ∈ plannedPaths scanningSite ⟨"/r"⟩ := by
    obtain ⟨f, hf, rfl⟩ := List.mem_map.1 h
    exact hf
  refine ⟨r, _, _, since, now, rfl, hkept, ?_, ⟨?_, ?_⟩, ?_, ⟨by decide +kernel, ?_⟩, ?_⟩
  · obtain ⟨output, hgives, hget⟩ := hkept.entry ["diff", "--quiet"] (by decide +kernel)
    have hprinted : Rpc.Reply.Gives mergeFields "diff --quiet" ⟨1, "diff --quiet".toUTF8.data.toList, []⟩ :=
      Rpc.Reply.gives_iff.2 (by decide +kernel)
    rw [hprinted.unique hgives]
    exact hget
  · rw [hkept.value (hplanned _ (by decide +kernel)) (not_touched_indexChange (by decide +kernel))]
    decide +kernel
  · rw [hkept.value (hplanned _ (by decide +kernel)) (not_touched_indexChange (by decide +kernel))]
    decide +kernel
  · exact hkept.touched _ (hplanned _ (by decide +kernel)) (touched_indexChange_iff.2 (by decide +kernel))
  · have hsome : SomeNamed [indexChange] := ⟨_, List.mem_singleton_self _, _, names_indexChange_iff.2 rfl⟩
    exact (hkept.flushed hsome).1 _ (by decide +kernel)
  · exact (hkept.scan _).2
      ⟨List.cons_ne_nil _ _, markerFound, _, rfl, finds_markerFound, rfl, not_affected_indexChange⟩

end RemoteFacts.Session
