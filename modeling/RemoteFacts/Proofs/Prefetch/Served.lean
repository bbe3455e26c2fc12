import RemoteFacts.CommandLine.Program
import RemoteFacts.Proofs.Invocation.Grammar
import RemoteFacts.Proofs.Prefetch.Batch
import RemoteFacts.Proofs.Prefetch.Provenance

/-!
# What the last prefetch serves

* `Probe.Asks` : an invocation asks a query of the batch for a directory (`asks_iff` : so it is understood);
* `Session.Serves` : what is served is what the answer to the batch holds for the queries of the batch, and nothing else
  (`serves_of_splits`);
* `Client.Latest`, `latest_prefetch_serves_queries` : so it is as long as what the last prefetch left is held.
-/

namespace RemoteFacts

namespace Probe

open Invocation

variable {program : String} {args query : List String} {cwd directory : Path} {n : Normalized}

/-- The invocation asks `query` in `directory`: it is one of git, what follows the options that change nothing is a
query of the batch, token for token, and the caller's directory joined with the operands of `-C` in turn has the parts
of `directory`. -/
structure Asks (program : String) (args : List String) (cwd directory : Path) (query : List String) : Prop where
  git : (Path.mk program).parts.getLast? = some (.name "git") ∨
    (Path.mk program).parts.getLast? = some (.name "git.exe")
  member : query ∈ queries
  split : ∃ leading operands, args = leading ++ query ∧ Leading leading operands ∧
    (operands.foldl (fun place operand => place.join ⟨operand⟩) cwd).parts = directory.parts

theorem sound_of_mem_queries (hquery : query ∈ queries) :
    Begins query ∧ query ≠ [] ∧ ∀ arg ∈ query, isToken arg = true := by
  have hall : ∀ query ∈ queries, (∀ arg ∈ query.head?, isOption arg = false) ∧ query ≠ [] ∧
      ∀ arg ∈ query, isToken arg = true := by
    decide +kernel
  exact hall query hquery

/-- An invocation asks a query exactly if it is understood as one with the key of the query. -/
theorem asks_iff (hquery : query ∈ queries) : Asks program args cwd directory query ↔ ∃ n,
    normalize program args = some n ∧ n.key = key query ∧ (n.effectiveDirectory cwd).parts = directory.parts := by
  obtain ⟨hbegins, hne, htokens⟩ := sound_of_mem_queries hquery
  constructor
  · rintro ⟨hgit, -, leading, operands, hsplit, hleading, hplace⟩
    refine ⟨⟨key query, operands.foldl descend none⟩, ?_, rfl, ?_⟩
    · exact normalize_eq_some_iff.2
        ⟨isGit_iff.2 hgit, leading, operands, query, hsplit, hleading, hbegins, hne, htokens, rfl⟩
    · rw [effectiveDirectory_foldl]
      exact hplace
  · rintro ⟨n, hn, hkey, hplace⟩
    obtain ⟨hgit, leading, operands, tail, hsplit, hleading, -, -, htail, rfl⟩ := normalize_eq_some_iff.1 hn
    obtain rfl : tail = query := key_injective htail htokens hkey
    rw [effectiveDirectory_foldl] at hplace
    exact ⟨isGit_iff.1 hgit, hquery, leading, operands, hsplit, hleading, hplace⟩

end Probe

namespace Session

open Invocation

variable {x : Site} {directory : Path} {metadataDir : String} {fields : List (String × Json)} {since : Nat}
  {result : PrefetchResult} {facts : List (Path × Bool)} {program : String} {args : List String} {cwd : Path}
  {out : CommandOutput} {n : Normalized}

/-- What is served of the answer `fields` to a batch for `directory`. -/
structure Serves (x : Site) (directory : Path) (fields : List (String × Json)) : Prop where
  /-- An invocation is served exactly if it asks a query of the batch in its directory, and then with the output that
  the remote side has given for this query. -/
  served : ∀ program args cwd out, x.session.output? program args cwd = some out ↔ ∃ query,
    Probe.Asks program args cwd directory query ∧ Rpc.Reply.Gives fields (key query) out
  /-- There is one for each query. -/
  answered : ∀ query ∈ Probe.queries, ∃ out, Rpc.Reply.Gives fields (key query) out
  /-- No two lists of tokens share an entry. -/
  apart : ∀ args others : List String, (∀ arg ∈ args, isToken arg = true) → (∀ arg ∈ others, isToken arg = true) →
    key args = key others → args = others
  /-- The answer for a state file is no output of a command. -/
  stateFile : ∀ program args cwd n path, normalize program args = some n → ProbeKey.parse n.key = .stateFile path →
    x.session.output? program args cwd = none
  /-- In the directory of the batch, the command line tells of an invocation whether it is served. -/
  reported : ∀ program args cwd n files, normalize program args = some n →
    (n.effectiveDirectory cwd).parts = directory.parts →
      (x.session.output? program args cwd).isSome = Probe.isQueryKey n.key ∧
      CommandLine.Program.normalize true (some cwd) (program :: args) files =
        .ok files (CommandLine.Layout.line (Json.pretty (.object [
          ("directory", .text (n.effectiveDirectory cwd).text),
          ("key", .text n.key),
          ("prefetched", .bool (x.session.output? program args cwd).isSome)])))

theorem output?_of_result (hresult : x.session.transient.result = some ⟨since, result⟩)
    (hasked : result.directory = directory) : x.session.output? program args cwd = some out ↔
      ∃ n, normalize program args = some n ∧ (n.effectiveDirectory cwd).parts = directory.parts ∧
        result.get? n.key = some out := by
  unfold output?
  simp only [Option.bind_eq_bind, Option.bind_eq_some_iff, Transient.lookup?, hresult, hasked,
    Option.ite_none_right_eq_some]
  exact exists_congr fun n => and_congr_right fun _ => and_congr_left fun _ => by rw [BEq.comm, Path.beq_iff]

/-- A result that an answered batch has left has an output under the keys of the queries only. -/
theorem isQueryKey_of_get? {k : String} (hsplit : Splits directory metadataDir fields result facts)
    (hout : result.get? k = some out) : Probe.isQueryKey k = true := by
  obtain ⟨before, after, hentries, -⟩ := List.lookup_eq_some_iff.1 hout
  have hmem : k ∈ result.entries.map (·.1) := List.mem_map.2 ⟨(k, out), by rw [hentries]; simp, rfl⟩
  obtain ⟨query, hquery, hkey⟩ := List.mem_map.1 (hsplit.keys.mem_iff.1 hmem)
  exact Probe.isQueryKey_iff.2 ⟨query, hquery, hkey⟩

theorem get?_eq_some_iff_gives {k : String} (hsplit : Splits directory metadataDir fields result facts)
    (hquery : Probe.isQueryKey k = true) : result.get? k = some out ↔ Rpc.Reply.Gives fields k out := by
  obtain ⟨output, hgives, hget⟩ := hsplit.entry k hquery
  rw [hget, Option.some_inj]
  exact ⟨fun hsame => hsame ▸ hgives, hgives.unique⟩

/-- What an answered batch has left serves its queries, and nothing else. -/
theorem serves_of_splits (hresult : x.session.transient.result = some ⟨since, result⟩)
    (hsplit : Splits directory metadataDir fields result facts) : Serves x directory fields := by
  have houtput : ∀ program args cwd out, x.session.output? program args cwd = some out ↔
      ∃ n, normalize program args = some n ∧ (n.effectiveDirectory cwd).parts = directory.parts ∧
        result.get? n.key = some out :=
    fun program args cwd out => output?_of_result hresult hsplit.asked
  refine ⟨fun program args cwd out => ?_, fun query hquery => ?_, fun args others => key_injective, ?_, ?_⟩
  · rw [houtput]
    constructor
    · rintro ⟨n, hn, hplace, hget⟩
      have hkey := isQueryKey_of_get? hsplit hget
      obtain ⟨query, hquery, hsame⟩ := Probe.isQueryKey_iff.1 hkey
      rw [get?_eq_some_iff_gives hsplit hkey, ← hsame] at hget
      exact ⟨query, (Probe.asks_iff hquery).2 ⟨n, hn, hsame.symm, hplace⟩, hget⟩
    · rintro ⟨query, hasks, hgives⟩
      obtain ⟨n, hn, hsame, hplace⟩ := (Probe.asks_iff hasks.member).1 hasks
      refine ⟨n, hn, hplace, ?_⟩
      rw [hsame, get?_eq_some_iff_gives hsplit (Probe.isQueryKey_iff.2 ⟨query, hasks.member, rfl⟩)]
      exact hgives
  · obtain ⟨output, hgives, -⟩ := hsplit.entry (key query) (Probe.isQueryKey_iff.2 ⟨query, hquery, rfl⟩)
    exact ⟨output, hgives⟩
  · intro program args cwd n path hn hparse
    rw [Option.eq_none_iff_forall_not_mem]
    intro out hout
    obtain ⟨n', hn', -, hget⟩ := (houtput program args cwd out).1 hout
    obtain rfl := Option.some.inj (hn.symm.trans hn')
    rw [ProbeKey.parse_of_isQueryKey (isQueryKey_of_get? hsplit hget)] at hparse
    contradiction
  · intro program args cwd n files hn hplace
    have hreported : (x.session.output? program args cwd).isSome = Probe.isQueryKey n.key := by
      rw [Bool.eq_iff_iff, Option.isSome_iff_exists]
      constructor
      · rintro ⟨out, hout⟩
        obtain ⟨n', hn', -, hget⟩ := (houtput program args cwd out).1 hout
        obtain rfl := Option.some.inj (hn.symm.trans hn')
        exact isQueryKey_of_get? hsplit hget
      · intro hkey
        obtain ⟨out, -, hget⟩ := hsplit.entry n.key hkey
        exact ⟨out, (houtput program args cwd out).2 ⟨n, hn, hplace, hget⟩⟩
    refine ⟨hreported, ?_⟩
    unfold CommandLine.Program.normalize
    dsimp only
    rw [hn, hreported]
    rfl

end Session

namespace Client

open Session

variable {i : Nat} {id : FlightId} {directory : Path} {history : List (Nat × Event)}

/-- The last prefetch that has ended well is `id`, which was for `directory`, and what it left is still held: since then
no other one has ended well, and the host has not released or flushed it or closed the session. -/
def Latest (c : Client) (history : List (Nat × Event)) (i : Nat) (id : FlightId) (directory : Path) : Prop :=
  ∃ u e y f since r, c.Met history i u e y ∧ y.flight? id = some f ∧ f.operation.directory? = some directory ∧
    y.since? id = some since ∧ (y.step u e).2.session.transient.result = some ⟨since, r⟩ ∧
    ∀ t e' z, u < t → c.Met history i t e' z → ¬ z.Displaces t e'

/-- The remote side has answered the batch of the prefetch `id` for `directory` with an object of these fields. -/
def Answered (c : Client) (history : List (Nat × Event)) (i : Nat) (id : FlightId) (directory : Path)
    (fields : List (String × Json)) : Prop :=
  ∃ t y since, c.Met history i t (.settle id 0 (.answered (.object fields))) y ∧
    y.stage? id = some (.batch directory since (y.session.plan directory).commands)

/-- A prefetch that ends well leaves what the remote side has answered to its batch. -/
theorem Provided.obtained_of_landed {c : Client} {x : Site} {e : Event} {f : Flight} {since : Nat} {r : PrefetchResult}
    (h : c.Provided history i x) (hx : (c.run history).site? i = some x) (hf : x.flight? id = some f)
    (hdirectory : f.operation.directory? = some directory) (hin : x.since? id = some since)
    (hresult : (x.step (c.run history).clock e).2.session.transient.result = some ⟨since, r⟩) :
    c.Obtained (history ++ [(i, e)]) i id directory since r := by
  rcases Site.result_step h.numbered with hsame | ⟨-, hnone | ⟨other, s, harvest, hmover, hs, hb, hbrought⟩⟩
  · rw [hresult] at hsame
    exact absurd ((h.aged.result _ hsame.symm).2 id since hin) (Nat.lt_irrefl _)
  · rw [hresult] at hnone
    contradiction
  · obtain ⟨rfl, rfl⟩ := Dated.mk.inj (Option.some.inj (hresult.symm.trans hbrought))
    have hother : x.since? other = some harvest.since := (Site.since?_of_stage? hs).trans (Stage.since?_of_brings hb)
    obtain rfl : id = other := by
      by_contra hne
      have hout : x.since? id = none := h.exclusive.alone other _ id hother hne
      rw [hin] at hout
      contradiction
    have hstage : f.stage = s := Option.some.inj ((Site.stage?_of_find? hf).symm.trans hs)
    obtain rfl : harvest.directory = directory := by
      have hsame := h.assigned id f hf
      rw [hdirectory, hstage, Stage.directory?_of_brings hb] at hsame
      exact (Option.some.inj hsame).symm
    have hmet : ∀ reply, e.reply? = some reply →
        c.Met (history ++ [(i, e)]) i (c.run history).clock (.settle id 0 reply) x := by
      intro reply hreply
      rw [← Event.eq_settle_of_reply? hreply hmover]
      exact met_last hx
    exact Supplied.obtained (fun s hs => (h.supplied id s hs).snoc) hmet hs hb

/-- What the last prefetch has left stays until it is displaced. -/
theorem result_of_latest {sessions : List Session} {connection : Watch.ConnectionId} {config : Config}
    {ticks : Nat} {flushesOnLeave : Bool}
    (hopened : sessions[i]? = some (Session.opened connection config ticks flushesOnLeave))
    (hlatest : (opened sessions).Latest history i id directory) :
    ∃ x since result, ((opened sessions).run history).site? i = some x ∧
      x.session.transient.result = some ⟨since, result⟩ ∧
      (opened sessions).Obtained history i id directory since result := by
  obtain ⟨u, e, y, f, since, result, hmet, hf, hdirectory, hin, hresult, hkept⟩ := hlatest
  let P : List (Nat × Event) → Site → Prop := fun _ x => x.session.transient.result = some ⟨since, result⟩
  have hown : ∀ before x e', u < ((opened sessions).run before).clock →
      (opened sessions).Met history i ((opened sessions).run before).clock e' x →
      ((opened sessions).run before).site? i = some x → P before x →
        P (before ++ [(i, e')]) (x.step ((opened sessions).run before).clock e').2 := by
    intro before x e' hlater hmet' hx hP
    obtain ⟨z, hz, hprovided⟩ := provided_run hopened before
    obtain rfl : x = z := Option.some.inj (hx.symm.trans hz)
    rcases Site.result_step hprovided.numbered with hsame | ⟨hdisplaced, -⟩
    · exact hsame.trans hP
    · exact absurd hdisplaced (hkept _ e' x hlater hmet')
  obtain ⟨x, hx, hP⟩ := run_after (P := P) hmet (fun _ => hresult) hown (fun _ _ _ _ _ _ _ _ hP => hP)
    (fun _ _ _ _ _ hP => hP) (List.append_nil history).symm hmet.lt_clock
  refine ⟨x, since, result, hx, hP, ?_⟩
  obtain ⟨before, after, rfl, rfl, hy⟩ := hmet
  obtain ⟨z, hz, hprovided⟩ := provided_run hopened before
  obtain rfl : y = z := Option.some.inj (hy.symm.trans hz)
  have hobtained := (hprovided.obtained_of_landed hy hf hdirectory hin hresult).append after
  rwa [List.append_assoc, List.singleton_append] at hobtained

/-- As long as what the last prefetch left is held, git is answered exactly the queries of its batch in its directory,
each with the output that the remote side has given for it; no object of the remote side has a key twice. -/
theorem latest_prefetch_serves_queries {sessions : List Session} {connection : Watch.ConnectionId} {config : Config}
    {ticks : Nat} {flushesOnLeave : Bool}
    (hopened : sessions[i]? = some (Session.opened connection config ticks flushesOnLeave))
    (hlatest : (opened sessions).Latest history i id directory)
    (hkeys : ∀ fields, (i, .settle id 0 (.answered (.object fields))) ∈ history → (fields.map (·.1)).Nodup) :
    ∃ x fields, ((opened sessions).run history).site? i = some x ∧
      (opened sessions).Answered history i id directory fields ∧ Serves x directory fields := by
  obtain ⟨x, since, result, hx, hresult, hobtained⟩ := result_of_latest hopened hlatest
  obtain ⟨t, y, r, outputs, facts, hmet, hstage, houtputs, hbatch⟩ := hobtained
  obtain ⟨fields, all, rfl, -⟩ := Rpc.Reply.outputs_eq_ok houtputs
  have hanswers := Answers.of_outputs (hkeys fields hmet.mem) houtputs
  exact ⟨x, fields, hx, ⟨t, y, since, hmet, hstage⟩, serves_of_splits hresult (hanswers.splits hbatch)⟩

/-- A prefetch whose commands have all failed, each with its key on one stream and `!` on the other: below the root,
`git -C repo/ -c color.ui=false diff --quiet` is served what `diff --quiet` has printed. Another query, another program
and a directory below are not served. -/
theorem latest_prefetch_serves_queries_of_diff :
    let client := opened [Session.opened 0 { prefetch := { ancestorMarkers := [] } } 1 true]
    let fields := (ProbePlan.build ⟨"/repo"⟩ ".git").commands.map fun command => (command.key,
      Json.object [("exit_code", .int 1), ("stdout", .text command.key), ("stderr", .array [.int 33, .int 10])])
    let history : List (Nat × Event) := [(0, .launch (.render ⟨"/repo"⟩)),
      (0, .settle 0 0 (.answered (.object fields)))]
    client.Latest history 0 0 ⟨"/repo"⟩ ∧
    (∀ given, (0, Event.settle 0 0 (.answered (.object given))) ∈ history → (given.map (·.1)).Nodup) ∧
    ∃ x, (client.run history).site? 0 = some x ∧ Serves x ⟨"/repo"⟩ fields ∧
      x.session.output? "/usr/bin/git" ["-C", "repo/", "-c", "color.ui=false", "diff", "--quiet"] ⟨"/"⟩ =
        some ⟨1, [100, 105, 102, 102, 32, 45, 45, 113, 117, 105, 101, 116], [33, 10]⟩ ∧
      x.session.output? "/usr/bin/git" ["-C", "repo/", "diff", "--stat"] ⟨"/"⟩ = none ∧
      x.session.output? "/usr/bin/jj" ["-C", "repo/", "diff", "--quiet"] ⟨"/"⟩ = none ∧
      x.session.output? "/usr/bin/git" ["-C", "repo/src", "diff", "--quiet"] ⟨"/"⟩ = none := by
  intro client fields history
  have hopened : [Session.opened 0 { prefetch := { ancestorMarkers := [] } } 1 true][0]? = some _ := rfl
  have hgiven : ∀ given, (0, Event.settle 0 0 (.answered (.object given))) ∈ history → given = fields := by
    intro given hmem
    simpa [history] using hmem
  have hkeys : ∀ given, (0, Event.settle 0 0 (.answered (.object given))) ∈ history → (given.map (·.1)).Nodup := by
    intro given hmem
    rw [hgiven given hmem, List.map_map]
    exact ProbePlan.nodup_keys ⟨"/repo"⟩ ".git"
  have hlatest : client.Latest history 0 0 ⟨"/repo"⟩ := by
    have hlands : ∃ y ∈ (client.run (history.take 1)).site? 0, ∃ f ∈ y.flight? 0,
        f.operation.directory?.map Path.text = some "/repo" ∧ y.since? 0 = some 0 ∧
          ∃ r ∈ (y.step 1 (.settle 0 0 (.answered (.object fields)))).2.session.transient.result, r.asOf = 0 := by
      decide +kernel
    obtain ⟨y, hy, f, hf, hdirectory, hin, r, hr, hdate⟩ := hlands
    obtain ⟨⟨text⟩, hdirectory, rfl⟩ := Option.map_eq_some_iff.1 hdirectory
    have hmet : client.Met history 0 1 (.settle 0 0 (.answered (.object fields))) y :=
      ⟨history.take 1, [], rfl, rfl, hy⟩
    refine ⟨1, _, y, f, 0, r.value, hmet, hf, hdirectory, hin, ?_, fun t e z ht hmet => ?_⟩
    · have hsame : ⟨0, r.value⟩ = r := by rw [← hdate]
      rw [hsame]
      exact hr
    · have hlt := hmet.lt_clock
      rw [clock_run_eq_length hopened (by simp [history])] at hlt
      exact absurd ht (Nat.not_lt.2 (Nat.le_of_lt_succ hlt))
  obtain ⟨x, given, hx, ⟨t, y, since, hmet, -⟩, hserves⟩ := latest_prefetch_serves_queries hopened hlatest hkeys
  obtain rfl := hgiven given hmet.mem
  have hprinted : Rpc.Reply.Gives fields "diff --quiet"
      ⟨1, [100, 105, 102, 102, 32, 45, 45, 113, 117, 105, 101, 116], [33, 10]⟩ :=
    Rpc.Reply.gives_iff.2 (by decide +kernel)
  have hasks : Probe.Asks "/usr/bin/git" ["-C", "repo/", "-c", "color.ui=false", "diff", "--quiet"] ⟨"/"⟩ ⟨"/repo"⟩
      ["diff", "--quiet"] := by
    refine ⟨Or.inl (by decide +kernel), by decide +kernel, ["-C", "repo/", "-c", "color.ui=false"], ["repo/"], rfl,
      ?_, ?_⟩
    · have hsetting : Invocation.Leading ["-c", "color.ui" ++ "=" ++ "false"] [] :=
        Invocation.Leading.setting "false" (by decide) (by decide) Invocation.Leading.nil
      exact Invocation.Leading.directory "repo/" hsetting
    · decide +kernel
  have hnone : ∀ program args, (Invocation.normalize program args).all (fun n =>
      !(Probe.isQueryKey n.key && n.effectiveDirectory ⟨"/"⟩ == ⟨"/repo"⟩)) = true →
      x.session.output? program args ⟨"/"⟩ = none := by
    intro program args hall
    rw [Option.eq_none_iff_forall_ne_some]
    intro out hout
    obtain ⟨query, hasks, -⟩ := (hserves.served _ _ _ _).1 hout
    obtain ⟨n, hn, hkey, hplace⟩ := (Probe.asks_iff hasks.member).1 hasks
    rw [hn, Option.all_some, hkey, Probe.isQueryKey_iff.2 ⟨query, hasks.member, rfl⟩, Path.beq_iff.2 hplace] at hall
    exact Bool.false_ne_true hall
  exact ⟨hlatest, hkeys, x, hx, hserves, (hserves.served _ _ _ _).2 ⟨["diff", "--quiet"], hasks, hprinted⟩,
    hnone _ _ (by decide +kernel), hnone _ _ (by decide +kernel), hnone _ _ (by decide +kernel)⟩

end Client

end RemoteFacts
