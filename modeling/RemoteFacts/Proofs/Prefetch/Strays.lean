import Mathlib.Data.List.Find
import RemoteFacts.Proofs.Prefetch.Batch

/-!
# What the strays of a reply can do

An output under a key that was not requested is left out of what is taken from a batch, but only after all of the reply
has been read: an entry that cannot be read spoils the batch, whosever it is.

* `Readable`, `strays` : what decides whether they matter;
* `Ends` : how taking the outputs of a batch ends, in three cases (`ends_outputs`);
* `SameEnd` : the same outputs, in any order, or the same error;
* `unreadable_outputs_iff`, `outputs_of_readable` : which replies spoil the batch, and what is taken from all others;
* `strays_without_influence_iff` : of two replies that differ in strays only, when they come to the same end.
-/

namespace RemoteFacts.Rpc.Reply

variable {commands : List CommandSpec} {fields fields' : List (String × Json)}

/-- An entry of a reply that can be read as an output. -/
def Readable (f : String × Json) : Prop := ∃ output, CommandOutput.Given f.2 output

/-- The entries of a reply that were not requested. -/
def strays (commands : List CommandSpec) (fields : List (String × Json)) : List (String × Json) :=
  fields.filter fun f => !commands.any (·.key == f.1)

/-- The error of a batch that could not be read. -/
def spoiled : Error := .malformedResult "commands.run_parallel" "not of the expected form"

/-- The error of a batch without an output for `key`. -/
def lacking (key : String) : Error :=
  .malformedResult "commands.run_parallel" ("no result for key " ++ Text.quoted key)

/-- How taking the outputs of a batch from the entries of its reply ends. -/
inductive Ends (commands : List CommandSpec) (fields : List (String × Json)) :
    Except Error (List (String × CommandOutput)) → Prop where
  /-- Some entry cannot be read, requested or not. -/
  | spoiled (f : String × Json) (hf : f ∈ fields) (hread : ¬Readable f) : Ends commands fields (.error spoiled)
  /-- All can be read, but `c` has none, the first such command of the batch. -/
  | lacking (before : List CommandSpec) (c : CommandSpec) (after : List CommandSpec) (hread : ∀ f ∈ fields, Readable f)
      (hbatch : commands = before ++ c :: after) (hbefore : ∀ b ∈ before, b.key ∈ fields.map (·.1))
      (hmissing : c.key ∉ fields.map (·.1)) : Ends commands fields (.error (lacking c.key))
  /-- Each command has one that can be read, and just these are taken. -/
  | complete (outputs : List (String × CommandOutput)) (hread : ∀ f ∈ fields, Readable f)
      (hnodup : (outputs.map (·.1)).Nodup)
      (hkeys : ∀ key, key ∈ outputs.map (·.1) ↔ ∃ c ∈ commands, c.key = key)
      (hentry : ∀ key output, (key, output) ∈ outputs → Gives fields key output) :
      Ends commands fields (.ok outputs)

/-- The same outputs, in any order, or the same error. Of a reply that cannot be read the reader may complain in words
of its own, so that two errors about such replies are the same if they are of the same call; an error that a key lacks
its output is none of them. -/
inductive SameEnd :
    Except Error (List (String × CommandOutput)) → Except Error (List (String × CommandOutput)) → Prop where
  | unreadable {method reason reason' : String} (h : ∀ key, .malformedResult method reason ≠ lacking key)
      (h' : ∀ key, .malformedResult method reason' ≠ lacking key) :
      SameEnd (.error (.malformedResult method reason)) (.error (.malformedResult method reason'))
  | error (e : Error) : SameEnd (.error e) (.error e)
  | ok {outputs outputs' : List (String × CommandOutput)} (hperm : outputs.Perm outputs') :
      SameEnd (.ok outputs) (.ok outputs')

/-- A batch ends with an error about a reply that cannot be read. -/
def Unreadable (r : Except Error (List (String × CommandOutput))) : Prop :=
  ∃ method reason, r = .error (.malformedResult method reason) ∧ ∀ key, .malformedResult method reason ≠ lacking key

theorem SameEnd.unreadable_iff {r r' : Except Error (List (String × CommandOutput))} (h : SameEnd r r') :
    Unreadable r ↔ Unreadable r' := by
  cases h with
  | unreadable h h' => exact iff_of_true ⟨_, _, rfl, h⟩ ⟨_, _, rfl, h'⟩
  | error e => exact Iff.rfl
  | ok hperm =>
    refine iff_of_false ?_ ?_
    · rintro ⟨_, _, hsame, -⟩
      contradiction
    · rintro ⟨_, _, hsame, -⟩
      contradiction

/-! ## Reading -/

theorem any_key_iff {key : String} : commands.any (·.key == key) = true ↔ ∃ c ∈ commands, c.key = key := by
  simp only [List.any_eq_true, beq_iff_eq]

theorem exists_map?_iff :
    (∃ all, Json.map? CommandOutput.ofJson? (.object fields) = some all) ↔ ∀ f ∈ fields, Readable f := by
  induction fields with
  | nil => exact iff_of_true ⟨[], rfl⟩ (List.forall_mem_nil _)
  | cons f fields ih =>
    rw [List.forall_mem_cons, ← ih]
    simp only [Json.map?_cons, Option.bind_eq_some_iff, Option.map_eq_some_iff, Readable,
      CommandOutput.ofJson?_eq_some_iff]
    constructor
    · rintro ⟨all, output, houtput, rest, hrest, rfl⟩
      exact ⟨⟨output, houtput⟩, rest, hrest⟩
    · rintro ⟨⟨output, houtput⟩, rest, hrest⟩
      exact ⟨_, output, houtput, rest, hrest, rfl⟩

theorem outputs_of_unreadable {f : String × Json} (hf : f ∈ fields) (hread : ¬Readable f) :
    (answered (.object fields)).outputs commands = .error spoiled := by
  cases hall : Json.map? CommandOutput.ofJson? (.object fields) with
  | some all => exact absurd (exists_map?_iff.1 ⟨all, hall⟩ f hf) hread
  | none =>
    unfold Reply.outputs
    dsimp only
    rw [decode_answered rfl, hall]
    rfl

/-- The first command of a batch for which a reply has no entry. -/
def missing? (commands : List CommandSpec) (fields : List (String × Json)) : Option CommandSpec :=
  commands.find? fun c => decide (c.key ∉ fields.map (·.1))

/-- What is taken from a reply that can be read. -/
theorem outputs_of_readable {all : List (String × CommandOutput)}
    (hall : Json.map? CommandOutput.ofJson? (.object fields) = some all) :
    (answered (.object fields)).outputs commands =
      match missing? commands fields with
      | some c => .error (lacking c.key)
      | none => .ok (all.filter fun e => commands.any (·.key == e.1)) := by
  have hmissing : commands.find? (fun c => !(all.filter fun e => commands.any (·.key == e.1)).any (·.1 == c.key)) =
      missing? commands fields := by
    refine List.find?_congr fun c hc => ?_
    have hhas :
        (all.filter fun e => commands.any (·.key == e.1)).any (·.1 == c.key) = true ↔ c.key ∈ all.map (·.1) := by
      rw [List.any_eq_true, List.mem_map]
      constructor
      · rintro ⟨e, he, hkey⟩
        exact ⟨e, (List.mem_filter.1 he).1, beq_iff_eq.1 hkey⟩
      · rintro ⟨e, he, hkey⟩
        exact ⟨e, List.mem_filter.2 ⟨he, any_key_iff.2 ⟨c, hc, hkey.symm⟩⟩, beq_iff_eq.2 hkey⟩
    rw [Json.keys_of_map? hall] at hhas
    rw [Bool.eq_iff_iff, Bool.not_eq_true', ← Bool.not_eq_true, hhas, decide_eq_true_iff]
  rw [outputs_answered rfl hall, hmissing]
  rfl

theorem lacking_ne_spoiled (key : String) : lacking key ≠ spoiled := fun h => by
  have hdetail : "no result for key " ++ Text.quoted key = "not of the expected form" := (Error.malformedResult.inj h).2
  have hstart := congrArg (fun s : String => s.toList.take 3) hdetail
  rw [String.toList_append, List.take_append_of_le_length (by decide)] at hstart
  exact absurd hstart (by decide)

/-- An entry that cannot be read spoils a batch, and nothing else does. -/
theorem unreadable_outputs_iff :
    Unreadable ((answered (.object fields)).outputs commands) ↔ ∃ f ∈ fields, ¬Readable f := by
  constructor
  · rintro ⟨method, reason, hend, hother⟩
    by_contra hread
    push Not at hread
    obtain ⟨all, hall⟩ := exists_map?_iff.2 hread
    rw [outputs_of_readable hall] at hend
    split at hend
    · exact hother _ (Except.error.inj hend).symm
    · contradiction
  · rintro ⟨f, hf, hread⟩
    exact ⟨_, _, outputs_of_unreadable hf hread, fun key h => lacking_ne_spoiled key h.symm⟩

theorem exists_unreadable_iff (commands : List CommandSpec) (fields : List (String × Json)) :
    (∃ f ∈ fields, ¬Readable f) ↔
      (∃ f ∈ requested commands fields, ¬Readable f) ∨ ∃ f ∈ strays commands fields, ¬Readable f := by
  constructor
  · rintro ⟨f, hf, hread⟩
    cases hasked : commands.any (·.key == f.1) with
    | true => exact Or.inl ⟨f, List.mem_filter.2 ⟨hf, hasked⟩, hread⟩
    | false => exact Or.inr ⟨f, List.mem_filter.2 ⟨hf, by rw [hasked]; rfl⟩, hread⟩
  · rintro (⟨f, hf, hread⟩ | ⟨f, hf, hread⟩)
    · exact ⟨f, (List.mem_filter.1 hf).1, hread⟩
    · exact ⟨f, (List.mem_filter.1 hf).1, hread⟩

/-! ## How it ends -/

section Taken

variable {all : List (String × CommandOutput)}

theorem nodup_taken (hkeys : (fields.map (·.1)).Nodup)
    (hall : Json.map? CommandOutput.ofJson? (.object fields) = some all) :
    ((all.filter fun e => commands.any (·.key == e.1)).map (·.1)).Nodup := by
  rw [← Json.keys_of_map? hall] at hkeys
  exact hkeys.sublist (List.filter_sublist.map _)

theorem mem_taken_iff (hkeys : (fields.map (·.1)).Nodup)
    (hall : Json.map? CommandOutput.ofJson? (.object fields) = some all) {e : String × CommandOutput} :
    e ∈ all.filter (fun e => commands.any (·.key == e.1)) ↔
      (∃ c ∈ commands, c.key = e.1) ∧ Gives fields e.1 e.2 := by
  rw [← Json.keys_of_map? hall] at hkeys
  rw [List.mem_filter, any_key_iff, and_comm, ← lookup_eq_some_iff_gives hall, lookup_eq_some_iff_mem hkeys]

theorem ends_outputs (commands : List CommandSpec) (hkeys : (fields.map (·.1)).Nodup) :
    Ends commands fields ((answered (.object fields)).outputs commands) := by
  by_cases hread : ∀ f ∈ fields, Readable f
  · obtain ⟨all, hall⟩ := exists_map?_iff.2 hread
    rw [outputs_of_readable hall]
    cases hmissing : missing? commands fields with
    | some c =>
      obtain ⟨hc, before, after, hbatch, hbefore⟩ := List.find?_eq_some_iff_append.1 hmissing
      exact .lacking before c after hread hbatch (fun b hb => by simpa using hbefore b hb) (of_decide_eq_true hc)
    | none =>
      refine .complete _ hread (nodup_taken hkeys hall) (fun key => ⟨fun hkey => ?_, ?_⟩) fun key output he => ?_
      · obtain ⟨e, he, rfl⟩ := List.mem_map.1 hkey
        exact ((mem_taken_iff hkeys hall).1 he).1
      · rintro ⟨c, hc, rfl⟩
        have hthere : c.key ∈ all.map (·.1) := by
          rw [Json.keys_of_map? hall]
          simpa using List.find?_eq_none.1 hmissing c hc
        obtain ⟨e, he, hkey⟩ := List.mem_map.1 hthere
        exact List.mem_map.2 ⟨e, List.mem_filter.2 ⟨he, any_key_iff.2 ⟨c, hc, hkey.symm⟩⟩, hkey⟩
      · exact ((mem_taken_iff hkeys hall).1 he).2
  · push Not at hread
    obtain ⟨f, hf, hread⟩ := hread
    rw [outputs_of_unreadable hf hread]
    exact .spoiled f hf hread

end Taken

/-! ## Replies that differ in strays only -/

section Strays

variable (hkeys : (fields.map (·.1)).Nodup) (hkeys' : (fields'.map (·.1)).Nodup)
  (hsame : ∀ c ∈ commands, fields.lookup c.key = fields'.lookup c.key)

include hkeys hkeys' hsame

theorem mem_requested_iff {f : String × Json} : f ∈ requested commands fields ↔ f ∈ requested commands fields' := by
  unfold requested
  rw [List.mem_filter, List.mem_filter, and_congr_left_iff]
  intro hasked
  obtain ⟨c, hc, hkey⟩ := any_key_iff.1 hasked
  have hlookup : fields.lookup f.1 = fields'.lookup f.1 := hkey ▸ hsame c hc
  rw [← lookup_eq_some_iff_mem hkeys, ← lookup_eq_some_iff_mem hkeys', hlookup]

omit hkeys hkeys' in
theorem missing?_congr : missing? commands fields = missing? commands fields' := by
  refine List.find?_congr fun c hc => ?_
  have hnone (fields : List (String × Json)) : c.key ∉ fields.map (·.1) ↔ fields.lookup c.key = none := by
    rw [List.lookup_eq_none_iff, List.mem_map, not_exists]
    refine forall_congr' fun f => ?_
    rw [not_and, bne_iff_ne, ne_comm]
  rw [decide_eq_decide, hnone, hnone, hsame c hc]

/-- Replies that differ in strays only come to the same end if both spoil the batch, or neither does. -/
theorem sameEnd_iff :
    SameEnd ((answered (.object fields)).outputs commands) ((answered (.object fields')).outputs commands) ↔
    ((∃ f ∈ fields, ¬Readable f) ↔ ∃ f ∈ fields', ¬Readable f) := by
  constructor
  · intro h
    rw [← unreadable_outputs_iff, ← unreadable_outputs_iff]
    exact h.unreadable_iff
  · intro h
    by_cases hread : ∃ f ∈ fields, ¬Readable f
    · obtain ⟨f, hf, hbad⟩ := hread
      obtain ⟨f', hf', hbad'⟩ := h.1 ⟨f, hf, hbad⟩
      rw [outputs_of_unreadable hf hbad, outputs_of_unreadable hf' hbad']
      exact .error _
    · have hread' := mt h.2 hread
      push Not at hread hread'
      obtain ⟨all, hall⟩ := exists_map?_iff.2 hread
      obtain ⟨all', hall'⟩ := exists_map?_iff.2 hread'
      rw [outputs_of_readable hall, outputs_of_readable hall', missing?_congr hsame]
      cases missing? commands fields' with
      | some c => exact .error _
      | none =>
        refine .ok ((List.perm_ext_iff_of_nodup ?_ ?_).2 fun e => ?_)
        · exact (nodup_taken hkeys hall).of_map _
        · exact (nodup_taken hkeys' hall').of_map _
        · rw [mem_taken_iff hkeys hall, mem_taken_iff hkeys' hall', and_congr_right_iff]
          rintro ⟨c, hc, hkey⟩
          unfold Gives
          rw [← hkey, hsame c hc]

end Strays

/-- How the batch ends, and when another reply that has the same entries under the keys of the batch, and any others
beside them, makes it end the same way: if an entry that was requested cannot be read, or the replies both have a stray
that cannot be read, or neither has. -/
theorem strays_without_influence_iff (hkeys : (fields.map (·.1)).Nodup) (hkeys' : (fields'.map (·.1)).Nodup)
    (hsame : ∀ c ∈ commands, fields.lookup c.key = fields'.lookup c.key) :
    Ends commands fields ((answered (.object fields)).outputs commands) ∧
      (SameEnd ((answered (.object fields)).outputs commands) ((answered (.object fields')).outputs commands) ↔
        (∃ f ∈ requested commands fields, ¬Readable f) ∨
          ((∃ f ∈ strays commands fields, ¬Readable f) ↔ ∃ f ∈ strays commands fields', ¬Readable f)) := by
  refine ⟨ends_outputs commands hkeys, ?_⟩
  have hrequested : (∃ f ∈ requested commands fields, ¬Readable f) ↔ ∃ f ∈ requested commands fields', ¬Readable f :=
    exists_congr fun f => and_congr_left fun _ => mem_requested_iff hkeys hkeys' hsame
  rw [sameEnd_iff hkeys hkeys' hsame, exists_unreadable_iff commands fields, exists_unreadable_iff commands fields',
    ← hrequested]
  by_cases hread : ∃ f ∈ requested commands fields, ¬Readable f
  · exact iff_of_true (iff_of_true (Or.inl hread) (Or.inl hread)) (Or.inl hread)
  · rw [or_iff_right hread, or_iff_right hread, or_iff_right hread]

/-- One command, a reply that answers it, and the same reply with a note beside the answer. -/
theorem strays_influence_of_note :
    let commands : List CommandSpec := [⟨"rev-parse HEAD", "git", ["rev-parse", "HEAD"], ⟨"/repo"⟩⟩]
    let answer : String × Json := ("rev-parse HEAD", .object [("exit_code", .int 0), ("stdout", .text "abc\n")])
    ((answered (.object [answer])).outputs commands).toOption.map (·.map (·.1)) = some ["rev-parse HEAD"] ∧
      ¬SameEnd ((answered (.object [answer])).outputs commands)
        ((answered (.object [answer, ("note", .text "cached")])).outputs commands) := by
  intro commands answer
  have hread : Readable answer := ⟨⟨0, _, []⟩, .named ⟨rfl, by decide, .text "abc\n", .absent⟩⟩
  have hunread : ¬Readable ("note", .text "cached") := by
    rintro ⟨output, houtput⟩
    cases houtput
  have hkeys : ∀ c ∈ commands, [answer].lookup c.key = [answer, ("note", .text "cached")].lookup c.key := by
    intro c hc
    obtain rfl := List.mem_singleton.1 hc
    rfl
  refine ⟨by decide +kernel, fun hsame => ?_⟩
  rcases (strays_without_influence_iff (by decide +kernel) (by decide +kernel) hkeys).2.1 hsame with
    ⟨f, hf, hbad⟩ | hiff
  · obtain rfl := List.mem_singleton.1 hf
    exact hbad hread
  · obtain ⟨f, hf, -⟩ := hiff.2 ⟨_, List.mem_singleton_self _, hunread⟩
    contradiction

end RemoteFacts.Rpc.Reply
