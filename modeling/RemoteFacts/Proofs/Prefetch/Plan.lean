import RemoteFacts.Proofs.Prefetch.Batch

/-!
# The keys of a batch

* `ProbeKey.toWire_parse` : no key is lost in what is read off it;
* `ProbePlan.parts_stateFile` : where a state file lies, whatever spelling the directory above it has;
* `ProbePlan.Asks` : what a command of a batch asks, seen from the command and not from its key;
* `ProbePlan.Sorted` : each output of a batch has gone to the question that it answers;
* `ProbePlan.keys_identify_probes` : the key of a command tells what the command asks, and so every complete reply is
  sorted.
-/

namespace RemoteFacts

theorem ProbeKey.toWire_parse (wire : String) : (parse wire).toWire = wire := by
  cases hparse : parse wire with
  | command key => exact key_of_parse hparse
  | stateFile path => exact (toWire_of_parse hparse).symm

namespace ProbePlan

variable {directory base path : Path} {metadataDir file : String} {args : List String} {c : CommandSpec}
  {outputs : List (String × CommandOutput)}

/-! ## Commands -/

/-- A state file lies where its name leads from the directory above it, also when that is the empty path. -/
theorem parts_stateFile (h : file ∈ Probe.stateFiles) (base : Path) :
    (base.join ⟨file⟩).parts = base.parts ++ (Path.mk file).parts := by
  have hplain : ∀ file ∈ Probe.stateFiles, (Path.mk file).isAbsolute = false ∧
      Part.ofPieces (Path.mk file).pieces = (Path.mk file).parts := by decide +kernel
  obtain ⟨hrelative, hparts⟩ := hplain file h
  by_cases hempty : base.text.toList = []
  · have hnone : base.parts = [] := by
      rw [Path.parts, Path.pieces, hempty]
      rfl
    rw [Path.join_of_empty hempty, hnone, List.nil_append]
  · rw [Path.parts_join hempty hrelative, hparts]

theorem mem_commands_iff : c ∈ (build directory metadataDir).commands ↔
    (∃ args ∈ Probe.queries, query directory args = c) ∨
      ∃ path ∈ statePaths directory metadataDir, existence directory path = c := by
  rw [build, List.mem_append, List.mem_map, List.mem_map]

theorem length_commands (directory : Path) (metadataDir : String) :
    (build directory metadataDir).commands.length = Probe.queries.length + Probe.stateFiles.length := by
  rw [build, List.length_append, List.length_map, List.length_map, statePaths, List.length_map]

theorem parse_key_query (h : args ∈ Probe.queries) :
    ProbeKey.parse (query directory args).key = .command (Invocation.key args) :=
  ProbeKey.parse_of_isQueryKey (List.any_eq_true.2 ⟨args, h, beq_self_eq_true _⟩)

theorem parse_key_existence : ProbeKey.parse (existence directory path).key = .stateFile path :=
  ProbeKey.parse_toWire path

/-- What a command asks, by its program and its arguments; the files that are asked for lie under `base`. -/
inductive Asks (base : Path) (c : CommandSpec) : ProbeKey → Prop where
  | query (args : List String) (hargs : args ∈ Probe.queries)
      (hcommand : c.cmd = "git" ∧ c.args = "--no-pager" :: args) :
      Asks base c (.command (" ".intercalate args))
  | file (path : Path) (file : String) (hfile : file ∈ Probe.stateFiles)
      (hcommand : c.cmd = "test" ∧ c.args = ["-e", path.text]) (hunder : path.startsWith base = true)
      (hparts : path.parts = base.parts ++ (Path.mk file).parts) : Asks base c (.stateFile path)

/-- The key of a command says what the command asks. -/
theorem asks_parse_key (h : c ∈ (build directory metadataDir).commands) :
    Asks (directory.join ⟨metadataDir⟩) c (ProbeKey.parse c.key) := by
  rcases mem_commands_iff.1 h with ⟨args, hargs, rfl⟩ | ⟨path, hpath, rfl⟩
  · rw [parse_key_query hargs]
    exact .query args hargs ⟨rfl, rfl⟩
  · rw [parse_key_existence]
    obtain ⟨file, hfile, rfl⟩ := List.mem_map.1 hpath
    have hparts := parts_stateFile hfile (directory.join ⟨metadataDir⟩)
    refine .file _ file hfile ⟨rfl, rfl⟩ ?_ hparts
    rw [Path.startsWith, hparts]
    exact List.isPrefixOf_iff_prefix.2 (List.prefix_append _ _)

/-- Different commands ask for files at different places. -/
theorem eq_of_stateFile_beq {d : CommandSpec} {p q : Path} (hc : c ∈ (build directory metadataDir).commands)
    (hd : d ∈ (build directory metadataDir).commands) (hp : ProbeKey.parse c.key = .stateFile p)
    (hq : ProbeKey.parse d.key = .stateFile q) (hsame : (p == q) = true) : c = d := by
  have hfile : ∀ {c : CommandSpec} {p : Path}, c ∈ (build directory metadataDir).commands →
      ProbeKey.parse c.key = .stateFile p → p ∈ statePaths directory metadataDir ∧ existence directory p = c := by
    intro c p hc hp
    rcases mem_commands_iff.1 hc with ⟨args, hargs, rfl⟩ | ⟨path, hpath, rfl⟩
    · rw [parse_key_query hargs] at hp
      exact ProbeKey.noConfusion hp
    · rw [parse_key_existence] at hp
      cases hp
      exact ⟨hpath, rfl⟩
  obtain ⟨hpmem, rfl⟩ := hfile hc hp
  obtain ⟨hqmem, rfl⟩ := hfile hd hq
  rw [List.inj_on_of_nodup_map (nodup_parts_statePaths directory metadataDir) hpmem hqmem (Path.beq_iff.1 hsame)]

/-! ## Complete replies -/

/-- Where the outputs of a batch have gone: each to the question that it answers, and to no other. -/
structure Sorted (commands : List CommandSpec) (outputs : List (String × CommandOutput)) (result : PrefetchResult)
    (facts : List (Path × Bool)) : Prop where
  queries : result.size = Probe.queries.length
  files : facts.length = Probe.stateFiles.length
  own : ∀ c ∈ commands, ∃ output, (c.key, output) ∈ outputs ∧
    (∀ key, ProbeKey.parse c.key = .command key → result.get? key = some output) ∧
    ∀ path, ProbeKey.parse c.key = .stateFile path →
      ∀ f, f ∈ facts ∧ (f.1 == path) = true ↔ f = (path, output.succeeded)

theorem complete_of_perm (h : (outputs.map (·.1)).Perm ((build directory metadataDir).commands.map (·.key))) :
    Complete directory metadataDir outputs := by
  have hmem : ∀ key, key ∈ outputs.map (·.1) ↔ Probe.isQueryKey key = true ∨
      ∃ f ∈ statePaths directory metadataDir, key = (ProbeKey.stateFile f).toWire := by
    intro key
    rw [h.mem_iff, ← any_key_commands, List.mem_map, List.any_eq_true]
    exact exists_congr fun c => and_congr_right fun _ => beq_iff_eq.symm
  refine ⟨h.nodup_iff.2 (nodup_keys directory metadataDir), fun e he => ?_, fun key hkey => ?_⟩
  · exact (hmem e.1).1 (List.mem_map_of_mem he)
  · obtain ⟨⟨_, output⟩, he, rfl⟩ := List.mem_map.1 ((hmem key).2 hkey)
    exact ⟨output, he⟩

theorem sorted_of_complete (h : Complete directory metadataDir outputs) :
    Sorted (build directory metadataDir).commands outputs (PrefetchResult.ofBatch directory outputs).1
      (PrefetchResult.ofBatch directory outputs).2 := by
  have hsplit : PrefetchResult.ofBatch directory outputs = _ := PrefetchResult.ofBatch_eq h.nodup
  have hqueries := h.keys.length_eq
  have hfiles := h.paths.length_eq
  rw [List.length_map, List.length_map] at hqueries
  rw [List.length_map, statePaths, List.length_map] at hfiles
  refine ⟨?_, ?_, fun c hc => ?_⟩
  · rw [hsplit]
    exact hqueries
  · rw [hsplit]
    exact hfiles
  rcases mem_commands_iff.1 hc with ⟨args, hargs, rfl⟩ | ⟨path, hpath, rfl⟩
  · have hquery : Probe.isQueryKey (Invocation.key args) = true := List.any_eq_true.2 ⟨args, hargs, beq_self_eq_true _⟩
    obtain ⟨output, ho⟩ := h.full _ (Or.inl hquery)
    refine ⟨output, ho, fun key hkey => ?_, fun path hpath => ?_⟩
    · rw [parse_key_query hargs] at hkey
      cases hkey
      exact h.get?_of_mem hquery ho
    · rw [parse_key_query hargs] at hpath
      exact ProbeKey.noConfusion hpath
  · obtain ⟨output, ho⟩ := h.full _ (Or.inr ⟨path, hpath, rfl⟩)
    have hfact : (path, output.succeeded) ∈ outputs.filterMap PrefetchResult.factOf? :=
      h.mem_facts.2 ⟨hpath, output, ho, rfl⟩
    have hplaces : ((outputs.filterMap PrefetchResult.factOf?).map (·.1.parts)).Nodup := by
      have hperm := h.paths.map Path.parts
      rw [List.map_map] at hperm
      exact hperm.nodup_iff.2 (nodup_parts_statePaths directory metadataDir)
    refine ⟨output, ho, fun key hkey => ?_, fun p hp f => ?_⟩
    · rw [parse_key_existence] at hkey
      exact ProbeKey.noConfusion hkey
    · rw [parse_key_existence] at hp
      cases hp
      rw [hsplit]
      constructor
      · rintro ⟨hf, hsame⟩
        exact List.inj_on_of_nodup_map hplaces hf hfact (Path.beq_iff.1 hsame)
      · rintro rfl
        exact ⟨hfact, BEq.rfl⟩

/-- Whatever the directory and the name of its metadata are: the keys of a batch are different, each tells what its
command asks, a file by the very operand of the command and below the metadata, and no two ask for one file. So every
reply that has these keys, in whatever order, is split without loss into one output for each query and one fact for each
state file. -/
theorem keys_identify_probes (directory : Path) (metadataDir : String) :
    ((build directory metadataDir).commands.map (·.key)).Nodup ∧
    (build directory metadataDir).commands.length = Probe.queries.length + Probe.stateFiles.length ∧
    (∀ c ∈ (build directory metadataDir).commands, Asks (directory.join ⟨metadataDir⟩) c (ProbeKey.parse c.key)) ∧
    (∀ c ∈ (build directory metadataDir).commands, ∀ d ∈ (build directory metadataDir).commands, ∀ p q,
      ProbeKey.parse c.key = .stateFile p → ProbeKey.parse d.key = .stateFile q → (p == q) = true → c = d) ∧
    (∀ wire, (ProbeKey.parse wire).toWire = wire) ∧
    ∀ outputs : List (String × CommandOutput),
      (outputs.map (·.1)).Perm ((build directory metadataDir).commands.map (·.key)) →
        Sorted (build directory metadataDir).commands outputs (PrefetchResult.ofBatch directory outputs).1
          (PrefetchResult.ofBatch directory outputs).2 :=
  ⟨nodup_keys directory metadataDir, length_commands directory metadataDir, fun _ => asks_parse_key,
    fun _ hc _ hd _ _ hp hq hsame => eq_of_stateFile_beq hc hd hp hq hsame, ProbeKey.toWire_parse,
    fun _ hkeys => sorted_of_complete (complete_of_perm hkeys)⟩

/-- An empty directory, with metadata whose name begins with the prefix of another kind of key: a reply in which all
fail, in an order of its own. -/
theorem keys_identify_probes_of_misleading_name :
    ∃ outputs : List (String × CommandOutput),
      (outputs.map (·.1)).Perm ((build ⟨""⟩ "state:/").commands.map (·.key)) ∧
      Sorted (build ⟨""⟩ "state:/").commands outputs (PrefetchResult.ofBatch ⟨""⟩ outputs).1
        (PrefetchResult.ofBatch ⟨""⟩ outputs).2 ∧
      (⟨"state:/HEAD"⟩, false) ∈ (PrefetchResult.ofBatch ⟨""⟩ outputs).2 := by
  obtain ⟨outputs, houtputs⟩ : ∃ outputs : List (String × CommandOutput),
      outputs = ((build ⟨""⟩ "state:/").commands.map fun c => (c.key, CommandOutput.mk 1 [] [])).reverse := ⟨_, rfl⟩
  have hkeys : (outputs.map (·.1)).Perm ((build ⟨""⟩ "state:/").commands.map (·.key)) := by
    rw [houtputs, List.map_reverse, List.map_map]
    exact List.reverse_perm _
  have hsorted := (keys_identify_probes ⟨""⟩ "state:/").2.2.2.2.2 outputs hkeys
  refine ⟨outputs, hkeys, hsorted, ?_⟩
  have hhead : existence ⟨""⟩ ⟨"state:/HEAD"⟩ ∈ (build ⟨""⟩ "state:/").commands :=
    mem_commands_iff.2 (Or.inr ⟨⟨"state:/HEAD"⟩, List.mem_map.2 ⟨"HEAD", List.mem_cons_self, rfl⟩, rfl⟩)
  obtain ⟨output, ho, -, hfile⟩ := hsorted.own _ hhead
  rw [houtputs] at ho
  obtain ⟨c, -, hc⟩ := List.mem_map.1 (List.mem_reverse.1 ho)
  obtain ⟨-, rfl⟩ := Prod.mk.inj hc
  exact ((hfile _ parse_key_existence _).2 rfl).1

end ProbePlan

end RemoteFacts
