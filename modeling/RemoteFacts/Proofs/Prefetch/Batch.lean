import Mathlib.Data.List.Nodup
import RemoteFacts.Path.Lemmas
import RemoteFacts.Prefetched
import RemoteFacts.Proofs.Reply

/-!
# What a batch asks and how it is answered

* `nodup_parts_statePaths` : the state files of a batch are different paths, whatever the directory is;
* `parse_toWire`, `toWire_of_parse`, `parse_of_isQueryKey` : each question is known by its key;
* `any_key_commands`, `nodup_keys` : the keys that a batch requests, each once;
* `Rpc.Reply.outputs_eq_ok` : a batch that is answered is answered in full;
* `outputs_requested` : entries that were not requested change nothing;
* `ofBatch_eq`, `Complete` : which outputs and which facts come of a batch that is answered in full;
* `Answers`, `Splits` : the same of the fields of an answer (`Answers.splits`).
-/

namespace RemoteFacts

/-! ## Questions -/

namespace ProbeKey

theorem toWire_stateFile (path : Path) : (stateFile path).toWire = "state:" ++ path.text := by
  rw [toWire, String.ofList_append, String.ofList_toList]
  rfl

theorem parse_toWire (path : Path) : parse (stateFile path).toWire = stateFile path := by
  have hprefix : statePrefix.isPrefixOf (statePrefix ++ path.text.toList) = true :=
    List.isPrefixOf_iff_prefix.2 (List.prefix_append _ _)
  rw [parse, toWire, String.toList_ofList, if_pos hprefix, List.drop_left, String.ofList_toList]

theorem toWire_of_parse {wire : String} {path : Path} (h : parse wire = stateFile path) :
    wire = (stateFile path).toWire := by
  unfold parse at h
  split at h
  · next hprefix =>
    cases h
    rw [toWire, String.toList_ofList]
    obtain ⟨rest, hrest⟩ := List.isPrefixOf_iff_prefix.1 hprefix
    rw [← hrest, List.drop_left, hrest, String.ofList_toList]
  · contradiction

theorem key_of_parse {wire key : String} (h : parse wire = command key) : key = wire := by
  unfold parse at h
  split at h
  · contradiction
  · cases h
    rfl

/-- No query is mistaken for a question about a file. -/
theorem parse_of_isQueryKey {key : String} (h : Probe.isQueryKey key = true) : parse key = command key := by
  have hqueries : ∀ args ∈ Probe.queries, statePrefix.isPrefixOf (Invocation.key args).toList = false := by
    decide +kernel
  obtain ⟨args, hargs, hkey⟩ := List.any_eq_true.1 h
  obtain rfl := beq_iff_eq.1 hkey
  rw [parse, if_neg (by rw [hqueries args hargs]; exact Bool.false_ne_true)]

end ProbeKey

theorem Probe.isQueryKey_iff {k : String} : isQueryKey k = true ↔ ∃ query ∈ queries, Invocation.key query = k := by
  rw [isQueryKey, List.any_eq_true]
  exact exists_congr fun query => and_congr_right fun _ => beq_iff_eq

theorem Probe.nodup_queryKeys : (Probe.queries.map Invocation.key).Nodup := by decide +kernel

namespace ProbePlan

/-- The state files of a batch are different paths, whatever the directory is. -/
theorem nodup_parts_statePaths (directory : Path) (metadataDir : String) :
    ((statePaths directory metadataDir).map Path.parts).Nodup := by
  have hrelative : ∀ file ∈ Probe.stateFiles, (Path.mk file).isAbsolute = false := by decide +kernel
  unfold statePaths
  rw [List.map_map]
  by_cases hempty : (directory.join ⟨metadataDir⟩).text.toList = []
  · have halone : Probe.stateFiles.map (Path.parts ∘ fun file => (directory.join ⟨metadataDir⟩).join ⟨file⟩) =
        Probe.stateFiles.map fun file => (Path.mk file).parts :=
      List.map_congr_left fun file _ => congrArg Path.parts (Path.join_of_empty hempty)
    rw [halone]
    decide +kernel
  · have hbelow : Probe.stateFiles.map (Path.parts ∘ fun file => (directory.join ⟨metadataDir⟩).join ⟨file⟩) =
        (Probe.stateFiles.map fun file => Part.ofPieces (Path.mk file).pieces).map
          ((directory.join ⟨metadataDir⟩).parts ++ ·) := by
      rw [List.map_map]
      exact List.map_congr_left fun file hfile => Path.parts_join hempty (hrelative file hfile)
    rw [hbelow]
    refine List.Nodup.map (fun a b => List.append_cancel_left) ?_
    decide +kernel

theorem any_key_commands {directory : Path} {metadataDir key : String} :
    ((build directory metadataDir).commands.any (·.key == key)) = true ↔
      Probe.isQueryKey key = true ∨ ∃ f ∈ statePaths directory metadataDir, key = (ProbeKey.stateFile f).toWire := by
  simp only [build, List.any_append, List.any_map, Bool.or_eq_true, Probe.isQueryKey, List.any_eq_true, Function.comp,
    query, existence, beq_iff_eq]
  constructor
  · rintro (h | ⟨f, hf, rfl⟩)
    · exact Or.inl h
    · exact Or.inr ⟨f, hf, rfl⟩
  · rintro (h | ⟨f, hf, rfl⟩)
    · exact Or.inl h
    · exact Or.inr ⟨f, hf, rfl⟩

/-- The keys of a batch are different. -/
theorem nodup_keys (directory : Path) (metadataDir : String) :
    ((build directory metadataDir).commands.map (·.key)).Nodup := by
  have hfiles : ((statePaths directory metadataDir).map fun f => (ProbeKey.stateFile f).toWire).Nodup := by
    refine List.Nodup.map (fun f g hsame => ?_) (List.Nodup.of_map _ (nodup_parts_statePaths directory metadataDir))
    have hparse := congrArg ProbeKey.parse hsame
    rw [ProbeKey.parse_toWire, ProbeKey.parse_toWire] at hparse
    exact ProbeKey.stateFile.inj hparse
  have hcommands : (build directory metadataDir).commands.map (·.key) = Probe.queries.map Invocation.key ++
      (statePaths directory metadataDir).map fun f => (ProbeKey.stateFile f).toWire := by
    simp only [build, List.map_append, List.map_map]
    rfl
  rw [hcommands]
  refine List.nodup_append.2 ⟨Probe.nodup_queryKeys, hfiles, fun key hkey wire hwire heq => ?_⟩
  obtain ⟨args, hargs, rfl⟩ := List.mem_map.1 hkey
  obtain ⟨f, hf, rfl⟩ := List.mem_map.1 hwire
  have hquery : Probe.isQueryKey (Invocation.key args) = true := List.any_eq_true.2 ⟨args, hargs, beq_self_eq_true _⟩
  have hparse := ProbeKey.parse_of_isQueryKey hquery
  rw [heq, ProbeKey.parse_toWire] at hparse
  exact ProbeKey.noConfusion hparse

end ProbePlan

/-! ## Answers -/

namespace Rpc.Reply

variable {commands : List CommandSpec} {r : Reply} {outputs : List (String × CommandOutput)}
  {fields : List (String × Json)}

/-- The entries of a reply that were requested. -/
def requested (commands : List CommandSpec) (fields : List (String × Json)) : List (String × Json) :=
  fields.filter fun f => commands.any (·.key == f.1)

/-- What is taken from a batch that could be decoded. -/
theorem outputs_answered {v : Json} {all : List (String × CommandOutput)} (h : v.isNull = false)
    (hall : Json.map? CommandOutput.ofJson? v = some all) : (answered v).outputs commands =
      match commands.find? fun c => !(all.filter fun e => commands.any (·.key == e.1)).any (·.1 == c.key) with
      | some c =>
        .error (.malformedResult (Request.runParallel commands).method ("no result for key " ++ Text.quoted c.key))
      | none => .ok (all.filter fun e => commands.any (·.key == e.1)) := by
  unfold outputs
  dsimp only
  rw [decode_answered h, hall]
  rfl

/-- A batch that has been answered has been answered by an object with a readable output for each key requested. -/
theorem outputs_eq_ok (h : r.outputs commands = .ok outputs) : ∃ fields all, r = answered (.object fields) ∧
    Json.map? CommandOutput.ofJson? (.object fields) = some all ∧
    outputs = all.filter (fun e => commands.any (·.key == e.1)) ∧
    ∀ c ∈ commands, ∃ output, (c.key, output) ∈ outputs := by
  cases r with
  | failed reason => contradiction
  | timedOut millis => contradiction
  | answered v =>
    cases v with
    | object fields =>
      cases hall : Json.map? CommandOutput.ofJson? (.object fields) with
      | none =>
        unfold Reply.outputs at h
        dsimp only at h
        rw [decode_answered rfl, hall] at h
        contradiction
      | some all =>
        rw [outputs_answered rfl hall] at h
        split at h
        · contradiction
        · next hnone =>
          cases h
          refine ⟨fields, all, rfl, hall, rfl, fun c hc => ?_⟩
          have hpresent := List.find?_eq_none.1 hnone c hc
          rw [Bool.not_eq_true, Bool.not_eq_false', List.any_eq_true] at hpresent
          obtain ⟨⟨key, output⟩, he, hkey⟩ := hpresent
          obtain rfl : key = c.key := beq_iff_eq.1 hkey
          exact ⟨output, he⟩
    | null => contradiction
    | bool b => contradiction
    | int n => contradiction
    | real literal => contradiction
    | text s => contradiction
    | array items => contradiction

/-- Entries that were not requested change nothing of what is taken from an answered batch. -/
theorem outputs_requested (h : (answered (.object fields)).outputs commands = .ok outputs) :
    (answered (.object (requested commands fields))).outputs commands = .ok outputs := by
  obtain ⟨fields', all, hsame, hall, rfl, hpresent⟩ := outputs_eq_ok h
  cases hsame
  have hrequested := Json.map?_filter hall fun key => commands.any (·.key == key)
  rw [requested, outputs_answered rfl hrequested]
  rw [outputs_answered rfl hall] at h
  simp only [List.filter_filter, Bool.and_self] at h ⊢
  exact h

end Rpc.Reply

/-! ## Outputs and facts -/

theorem lookup_of_mem {α : Type} {l : List (String × α)} {key : String} {a : α} (hkeys : (l.map (·.1)).Nodup)
    (h : (key, a) ∈ l) : l.lookup key = some a := by
  induction l with
  | nil => contradiction
  | cons e l ih =>
    obtain ⟨hnew, hkeys⟩ := List.nodup_cons.1 hkeys
    rw [List.lookup_cons]
    rcases List.mem_cons.1 h with rfl | h
    · rw [beq_self_eq_true]
    · have hne : (key == e.1) = false := by
        exact beq_eq_false_iff_ne.2 fun heq => hnew (List.mem_map.2 ⟨(key, a), h, heq⟩)
      rw [hne]
      exact ih hkeys h

theorem lookup_eq_some_iff_mem {α : Type} {l : List (String × α)} {key : String} {a : α} (hkeys : (l.map (·.1)).Nodup) :
    l.lookup key = some a ↔ (key, a) ∈ l := by
  refine ⟨fun h => ?_, lookup_of_mem hkeys⟩
  obtain ⟨before, after, rfl, -⟩ := List.lookup_eq_some_iff.1 h
  exact List.mem_append_right _ List.mem_cons_self

namespace PrefetchResult

variable {directory : Path} {outputs : List (String × CommandOutput)}

/-- The fact that an output brings, if it answers a question about a file. -/
def factOf? (e : String × CommandOutput) : Option (Path × Bool) :=
  match ProbeKey.parse e.1 with
  | .stateFile path => some (path, e.2.succeeded)
  | .command _ => none

theorem parse_of_factOf? {e : String × CommandOutput} {f : Path × Bool} (h : factOf? e = some f) :
    ProbeKey.parse e.1 = .stateFile f.1 ∧ f.2 = e.2.succeeded := by
  unfold factOf? at h
  split at h
  · next path hparse =>
    cases h
    exact ⟨hparse, rfl⟩
  · contradiction

theorem insert_of_new {r : PrefetchResult} {key : String} {output : CommandOutput} (h : key ∉ r.entries.map (·.1)) :
    r.insert key output = ⟨r.directory, r.entries ++ [(key, output)]⟩ := by
  have hall : r.entries.filter (fun e => !(e.1 == key)) = r.entries := by
    rw [List.filter_eq_self]
    intro e he
    have hne : e.1 ≠ key := fun heq => h (heq ▸ List.mem_map_of_mem he)
    simpa using hne
  rw [insert, hall]

/-- Puts one output where it belongs. -/
def sortIn (split : PrefetchResult × List (Path × Bool)) (e : String × CommandOutput) :
    PrefetchResult × List (Path × Bool) :=
  match ProbeKey.parse e.1 with
  | .stateFile path => (split.1, split.2 ++ [(path, e.2.succeeded)])
  | .command key => (split.1.insert key e.2, split.2)

theorem ofBatch_eq_foldl : ofBatch directory outputs = outputs.foldl sortIn (empty directory, []) := rfl

/-- Outputs under different keys are split into those of queries and the facts, each list in its order. -/
theorem foldl_sortIn {r : PrefetchResult} {facts : List (Path × Bool)}
    (hkeys : ((r.entries ++ outputs).map (·.1)).Nodup) : outputs.foldl sortIn (r, facts) =
      (⟨r.directory, r.entries ++ outputs.filter fun e => (factOf? e).isNone⟩, facts ++ outputs.filterMap factOf?) := by
  -- the keys of what is collected and of what is left stay different, so each output goes to the end of its list
  induction outputs generalizing r facts with
  | nil => simp
  | cons e outputs ih =>
    rw [List.foldl_cons]
    cases hparse : ProbeKey.parse e.1 with
    | stateFile path =>
      have hfact : factOf? e = some (path, e.2.succeeded) := by rw [factOf?, hparse]
      have hstep : sortIn (r, facts) e = (r, facts ++ [(path, e.2.succeeded)]) := by rw [sortIn, hparse]
      have hsub : ((r.entries ++ outputs).map (·.1)).Sublist ((r.entries ++ e :: outputs).map (·.1)) :=
        ((List.Sublist.refl _).append (List.sublist_cons_self _ _)).map _
      rw [hstep, ih (hkeys.sublist hsub), List.filter_cons, List.filterMap_cons, hfact]
      simp
    | command key =>
      have hfact : factOf? e = none := by rw [factOf?, hparse]
      obtain rfl : key = e.1 := ProbeKey.key_of_parse hparse
      have hnew : e.1 ∉ r.entries.map (·.1) := by
        rw [List.map_append, List.nodup_append] at hkeys
        exact fun hin => hkeys.2.2 _ hin _ List.mem_cons_self rfl
      have hstep : sortIn (r, facts) e = (⟨r.directory, r.entries ++ [e]⟩, facts) := by
        rw [sortIn, hparse]
        dsimp only
        rw [insert_of_new hnew]
      have hrest : ((r.entries ++ [e] ++ outputs).map (·.1)).Nodup := by
        rwa [List.append_assoc]
      rw [hstep, ih (r := ⟨r.directory, r.entries ++ [e]⟩) hrest, List.filter_cons, List.filterMap_cons, hfact]
      simp

theorem ofBatch_eq (hkeys : (outputs.map (·.1)).Nodup) : ofBatch directory outputs =
    (⟨directory, outputs.filter fun e => (factOf? e).isNone⟩, outputs.filterMap factOf?) := by
  rw [ofBatch_eq_foldl, foldl_sortIn (r := empty directory) hkeys]
  rfl

/-- Facts under different keys are about different paths. -/
theorem nodup_paths (hkeys : (outputs.map (·.1)).Nodup) : ((outputs.filterMap factOf?).map (·.1)).Nodup := by
  have hwires : (outputs.filterMap factOf?).map (fun f => (ProbeKey.stateFile f.1).toWire) =
      (outputs.filter fun e => (factOf? e).isSome).map (·.1) := by
    clear hkeys
    induction outputs with
    | nil => rfl
    | cons e outputs ih =>
      cases hfact : factOf? e with
      | none =>
        rw [List.filterMap_cons_none hfact, List.filter_cons_of_neg (by rw [hfact]; exact Bool.false_ne_true), ih]
      | some f =>
        rw [List.filterMap_cons_some hfact, List.filter_cons_of_pos (by rw [hfact]; rfl), List.map_cons, List.map_cons,
          ih, ← ProbeKey.toWire_of_parse (parse_of_factOf? hfact).1]
  have hnodup : ((outputs.filterMap factOf?).map fun f => (ProbeKey.stateFile f.1).toWire).Nodup := by
    rw [hwires]
    exact hkeys.sublist (List.filter_sublist.map _)
  exact List.Nodup.of_map (fun path => (ProbeKey.stateFile path).toWire) (by rwa [List.map_map])

end PrefetchResult

/-- What a batch for `directory` makes of the fields of its answer: each query its own entry, each state file its
own. -/
structure Splits (directory : Path) (metadataDir : String) (fields : List (String × Json)) (result : PrefetchResult)
    (facts : List (Path × Bool)) : Prop where
  asked : result.directory = directory
  keys : (result.entries.map (·.1)).Perm (Probe.queries.map Invocation.key)
  entry : ∀ key, Probe.isQueryKey key = true →
    ∃ output, Rpc.Reply.Gives fields key output ∧ result.get? key = some output
  paths : (facts.map (·.1)).Perm (ProbePlan.statePaths directory metadataDir)
  fact : ∀ f ∈ facts,
    ∃ output, Rpc.Reply.Gives fields (ProbeKey.stateFile f.1).toWire output ∧ f.2 = output.succeeded

/-- The outputs of a batch for `directory` that is answered in full: one under each of its keys, and none under
another. -/
structure Complete (directory : Path) (metadataDir : String) (outputs : List (String × CommandOutput)) : Prop where
  nodup : (outputs.map (·.1)).Nodup
  requested : ∀ e ∈ outputs, Probe.isQueryKey e.1 = true ∨
    ∃ f ∈ ProbePlan.statePaths directory metadataDir, e.1 = (ProbeKey.stateFile f).toWire
  full : ∀ key, Probe.isQueryKey key = true ∨
    (∃ f ∈ ProbePlan.statePaths directory metadataDir, key = (ProbeKey.stateFile f).toWire) →
      ∃ output, (key, output) ∈ outputs

namespace Complete

variable {directory : Path} {metadataDir : String} {outputs : List (String × CommandOutput)}

theorem mem_queries (h : Complete directory metadataDir outputs) {e : String × CommandOutput} :
    e ∈ outputs.filter (fun e => (PrefetchResult.factOf? e).isNone) ↔ e ∈ outputs ∧ Probe.isQueryKey e.1 = true := by
  rw [List.mem_filter]
  refine and_congr_right fun he => ⟨fun hnone => ?_, fun hquery => ?_⟩
  · rcases h.requested e he with hquery | ⟨f, -, hkey⟩
    · exact hquery
    · rw [PrefetchResult.factOf?, hkey, ProbeKey.parse_toWire] at hnone
      contradiction
  · rw [PrefetchResult.factOf?, ProbeKey.parse_of_isQueryKey hquery]
    rfl

theorem mem_facts (h : Complete directory metadataDir outputs) {f : Path × Bool} :
    f ∈ outputs.filterMap PrefetchResult.factOf? ↔ f.1 ∈ ProbePlan.statePaths directory metadataDir ∧
      ∃ output, ((ProbeKey.stateFile f.1).toWire, output) ∈ outputs ∧ f.2 = output.succeeded := by
  rw [List.mem_filterMap]
  constructor
  · rintro ⟨⟨wire, output⟩, he, hfact⟩
    obtain ⟨hparse, hvalue⟩ := PrefetchResult.parse_of_factOf? hfact
    obtain rfl := ProbeKey.toWire_of_parse hparse
    refine ⟨?_, output, he, hvalue⟩
    rcases h.requested _ he with hquery | ⟨g, hg, hkey⟩
    · rw [ProbeKey.parse_of_isQueryKey hquery] at hparse
      contradiction
    · have hwire : (ProbeKey.stateFile f.1).toWire = (ProbeKey.stateFile g).toWire := hkey
      rw [hwire, ProbeKey.parse_toWire] at hparse
      cases hparse
      exact hg
  · rintro ⟨-, output, he, hvalue⟩
    refine ⟨_, he, ?_⟩
    rw [PrefetchResult.factOf?, ProbeKey.parse_toWire, ← hvalue]

theorem keys (h : Complete directory metadataDir outputs) :
    ((outputs.filter fun e => (PrefetchResult.factOf? e).isNone).map (·.1)).Perm
      (Probe.queries.map Invocation.key) := by
  rw [List.perm_ext_iff_of_nodup (h.nodup.sublist (List.filter_sublist.map _)) Probe.nodup_queryKeys]
  intro key
  constructor
  · intro hkey
    obtain ⟨e, he, rfl⟩ := List.mem_map.1 hkey
    obtain ⟨args, hargs, hsame⟩ := List.any_eq_true.1 (h.mem_queries.1 he).2
    exact List.mem_map.2 ⟨args, hargs, beq_iff_eq.1 hsame⟩
  · intro hkey
    obtain ⟨args, hargs, rfl⟩ := List.mem_map.1 hkey
    have hquery : Probe.isQueryKey (Invocation.key args) = true := List.any_eq_true.2 ⟨args, hargs, beq_self_eq_true _⟩
    obtain ⟨output, ho⟩ := h.full _ (Or.inl hquery)
    exact List.mem_map.2 ⟨_, h.mem_queries.2 ⟨ho, hquery⟩, rfl⟩

theorem paths (h : Complete directory metadataDir outputs) :
    ((outputs.filterMap PrefetchResult.factOf?).map (·.1)).Perm (ProbePlan.statePaths directory metadataDir) := by
  have hplanned : (ProbePlan.statePaths directory metadataDir).Nodup :=
    List.Nodup.of_map _ (ProbePlan.nodup_parts_statePaths directory metadataDir)
  rw [List.perm_ext_iff_of_nodup (PrefetchResult.nodup_paths h.nodup) hplanned]
  intro path
  constructor
  · intro hpath
    obtain ⟨f, hf, rfl⟩ := List.mem_map.1 hpath
    exact (h.mem_facts.1 hf).1
  · intro hpath
    obtain ⟨output, ho⟩ := h.full _ (Or.inr ⟨path, hpath, rfl⟩)
    exact List.mem_map.2 ⟨(path, output.succeeded), h.mem_facts.2 ⟨hpath, output, ho, rfl⟩, rfl⟩

/-- The output of a query is kept under its key. -/
theorem get?_of_mem (h : Complete directory metadataDir outputs) {key : String} {output : CommandOutput}
    (hquery : Probe.isQueryKey key = true) (ho : (key, output) ∈ outputs) :
    (PrefetchResult.ofBatch directory outputs).1.get? key = some output := by
  rw [PrefetchResult.ofBatch_eq h.nodup]
  have hkeys := h.nodup.sublist ((List.filter_sublist (p := fun e => (PrefetchResult.factOf? e).isNone)).map (·.1))
  exact lookup_of_mem hkeys (h.mem_queries.2 ⟨ho, hquery⟩)

end Complete

/-- What is taken from the answer to a batch for `directory`. -/
structure Answers (directory : Path) (metadataDir : String) (fields : List (String × Json))
    (outputs : List (String × CommandOutput)) : Prop where
  nodup : (outputs.map (·.1)).Nodup
  entry : ∀ key output, (key, output) ∈ outputs → Rpc.Reply.Gives fields key output
  requested : ∀ e ∈ outputs, Probe.isQueryKey e.1 = true ∨
    ∃ f ∈ ProbePlan.statePaths directory metadataDir, e.1 = (ProbeKey.stateFile f).toWire
  full : ∀ key, Probe.isQueryKey key = true ∨
    (∃ f ∈ ProbePlan.statePaths directory metadataDir, key = (ProbeKey.stateFile f).toWire) →
      ∃ output, (key, output) ∈ outputs

namespace Answers

variable {directory : Path} {metadataDir : String} {fields : List (String × Json)}
  {outputs : List (String × CommandOutput)}

theorem of_outputs (hkeys : (fields.map (·.1)).Nodup)
    (h : (Rpc.Reply.answered (.object fields)).outputs (ProbePlan.build directory metadataDir).commands = .ok outputs) :
    Answers directory metadataDir fields outputs := by
  obtain ⟨fields', all, hsame, hall, rfl, hpresent⟩ := Rpc.Reply.outputs_eq_ok h
  cases hsame
  have hallKeys : (all.map (·.1)).Nodup := by
    rw [Json.keys_of_map? hall]
    exact hkeys
  refine ⟨hallKeys.sublist (List.filter_sublist.map _), fun key output he => ?_, fun e he => ?_, fun key hkey => ?_⟩
  · exact (Rpc.Reply.lookup_eq_some_iff_gives hall).1 (lookup_of_mem hallKeys (List.mem_filter.1 he).1)
  · exact ProbePlan.any_key_commands.1 (List.mem_filter.1 he).2
  · obtain ⟨c, hc, hsame⟩ := List.any_eq_true.1 (ProbePlan.any_key_commands.2 hkey)
    obtain rfl := beq_iff_eq.1 hsame
    exact hpresent c hc

theorem complete (h : Answers directory metadataDir fields outputs) : Complete directory metadataDir outputs :=
  ⟨h.nodup, h.requested, h.full⟩

/-- Each query and each state file is answered by its own entry, whatever the order of the entries is. -/
theorem splits {result : PrefetchResult} {facts : List (Path × Bool)} (h : Answers directory metadataDir fields outputs)
    (hsplit : PrefetchResult.ofBatch directory outputs = (result, facts)) :
    Splits directory metadataDir fields result facts := by
  obtain rfl : (PrefetchResult.ofBatch directory outputs).1 = result := congrArg Prod.fst hsplit
  rw [PrefetchResult.ofBatch_eq h.nodup] at hsplit
  obtain ⟨-, rfl⟩ := Prod.mk.inj hsplit
  refine ⟨?_, ?_, fun key hquery => ?_, h.complete.paths, fun f hf => ?_⟩
  · rw [PrefetchResult.ofBatch_eq h.nodup]
  · rw [PrefetchResult.ofBatch_eq h.nodup]
    exact h.complete.keys
  · obtain ⟨output, ho⟩ := h.full _ (Or.inl hquery)
    exact ⟨output, h.entry _ _ ho, h.complete.get?_of_mem hquery ho⟩
  · obtain ⟨-, output, ho, hvalue⟩ := h.complete.mem_facts.1 hf
    exact ⟨output, h.entry _ _ ho, hvalue⟩

end Answers

end RemoteFacts
