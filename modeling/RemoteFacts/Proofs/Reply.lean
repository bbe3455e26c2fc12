import Mathlib.Data.List.Forall2
import RemoteFacts.Rpc.Call

/-!
# What a reply says

Which values of a reply stand for what is read from them, said of the values alone.

* `CommandOutput.Shows`, `CommandOutput.Given` : a field stands for bytes, and a value for the output of a command
  (`orDefault_bytes?_iff`, `ofJson?_eq_some_iff` : just these are read so);
* `Rpc.Reply.Gives` : the answer to a batch holds an output under a key (`Gives.unique`);
* `Rpc.Reply.Finds` : the answer to a scan tells for each marker where it was found (`markers_eq_ok_iff`).
-/

namespace RemoteFacts

/-! ## Outputs -/

namespace CommandOutput

variable {v : Json} {code out err : Option Json} {bytes : List UInt8} {o : CommandOutput}

/-- A field stands for these bytes: a string for those of its UTF-8, an array of numbers for one byte each; `null` and a
field that is left out for none. -/
inductive Shows : Option Json → List UInt8 → Prop where
  | absent : Shows none []
  | null : Shows (some .null) []
  | text (s : String) : Shows (some (.text s)) s.toUTF8.data.toList
  | numbers (bytes : List UInt8) : Shows (some (.array (bytes.map fun b => .int b.toNat))) bytes

/-- The three fields of a record, where they are given, stand for an output. -/
structure Fields (code out err : Option Json) (o : CommandOutput) : Prop where
  exitCode : code = some (.int o.exitCode)
  /-- The exit code is a number of 32 bits with a sign. -/
  range : -2147483648 ≤ o.exitCode ∧ o.exitCode ≤ 2147483647
  stdout : Shows out o.stdout
  stderr : Shows err o.stderr

/-- A value stands for an output: an object by the names of its fields, an array by their places. -/
inductive Given : Json → CommandOutput → Prop where
  | named {fields : List (String × Json)} {o : CommandOutput}
      (h : Fields (fields.lookup "exit_code") (fields.lookup "stdout") (fields.lookup "stderr") o) :
      Given (.object fields) o
  | placed {items : List Json} {o : CommandOutput} (hlength : items.length ≤ 3)
      (h : Fields items[0]? items[1]? items[2]? o) : Given (.array items) o

theorem succeeded_eq_decide (o : CommandOutput) : o.succeeded = decide (o.exitCode = 0) := by
  rw [succeeded, Bool.eq_iff_iff, beq_iff_eq, decide_eq_true_iff]

theorem toUTF8_eq_encode (s : String) : s.toUTF8.data.toList = Text.Utf8.encode s := by
  rw [String.toUTF8, ← String.utf8Encode_toList, List.utf8Encode, List.data_toByteArray]
  rfl

theorem byte?_eq_some_iff {b : UInt8} : (v.natUpTo? 255).map UInt8.ofNat = some b ↔ v = .int b.toNat := by
  constructor
  · intro h
    obtain ⟨n, hn, rfl⟩ := Option.map_eq_some_iff.1 h
    cases v with
    | int i =>
      replace hn : (if 0 ≤ i ∧ i ≤ (255 : Nat) then some i.toNat else none) = some n := hn
      rw [Option.ite_none_right_eq_some] at hn
      obtain ⟨hi, hn⟩ := hn
      cases hn
      have hbyte : (UInt8.ofNat i.toNat).toNat = i.toNat := by
        rw [UInt8.toNat_ofNat', Nat.mod_eq_of_lt (by omega)]
      rw [hbyte, Int.toNat_of_nonneg hi.1]
    | null | bool b | real s | text s | array items | object fields => contradiction
  · rintro rfl
    have hb := b.toNat_lt
    have hread : Json.natUpTo? 255 (.int b.toNat) = some b.toNat :=
      if_pos ⟨Int.natCast_nonneg _, by omega⟩
    rw [hread, Option.map_some, UInt8.ofNat_toNat]

theorem mapM_byte?_iff {items : List Json} :
    (items.mapM fun v => (v.natUpTo? 255).map UInt8.ofNat) = some bytes ↔ items = bytes.map fun b => .int b.toNat := by
  induction items generalizing bytes with
  | nil =>
    rw [List.mapM_nil]
    exact ⟨fun h => by cases h; rfl, fun h => congrArg some (List.map_eq_nil_iff.1 h.symm).symm⟩
  | cons v items ih =>
    rw [List.mapM_cons]
    constructor
    · intro h
      obtain ⟨b, hb, h⟩ := Option.bind_eq_some_iff.1 h
      obtain ⟨rest, hrest, h⟩ := Option.bind_eq_some_iff.1 h
      cases h
      rw [List.map_cons, ← byte?_eq_some_iff.1 hb, ← ih.1 hrest]
    · intro h
      cases bytes with
      | nil => contradiction
      | cons b rest =>
        obtain ⟨hv, hitems⟩ := List.cons.inj h
        exact Option.bind_eq_some_iff.2 ⟨b, byte?_eq_some_iff.2 hv, Option.bind_eq_some_iff.2 ⟨rest, ih.2 hitems, rfl⟩⟩

/-- A field is read as the bytes that it stands for. -/
theorem orDefault_bytes?_iff : Json.orDefault [] bytes? out = some bytes ↔ Shows out bytes := by
  constructor
  · intro h
    cases out with
    | none =>
      cases h
      exact .absent
    | some v =>
      cases v with
      | null =>
        cases h
        exact .null
      | text s =>
        cases h
        rw [← toUTF8_eq_encode]
        exact .text s
      | array items =>
        rw [mapM_byte?_iff.1 h]
        exact .numbers bytes
      | bool b => contradiction
      | int n => contradiction
      | real literal => contradiction
      | object fields => contradiction
  · intro h
    cases h with
    | absent => rfl
    | null => rfl
    | text s => exact congrArg some (toUTF8_eq_encode s).symm
    | numbers => exact mapM_byte?_iff.2 rfl

theorem intWithin?_eq_some_iff {n : Int} : v.intWithin? Width.minInt32 Width.maxInt32 = some n ↔
    v = .int n ∧ -2147483648 ≤ n ∧ n ≤ 2147483647 := by
  cases v with
  | int i =>
    unfold Json.intWithin? Width.minInt32 Width.maxInt32
    rw [Option.ite_none_right_eq_some]
    constructor
    · rintro ⟨hi, h⟩
      cases h
      exact ⟨rfl, by omega⟩
    · rintro ⟨h, hi⟩
      cases h
      exact ⟨by omega, rfl⟩
  | null | bool b | real s | text s | array items | object fields => simp [Json.intWithin?]

/-- The three fields of a record, where they are given, read as an output. -/
def ofFields? (code out err : Option Json) : Option CommandOutput := do
  let exitCode ← (← code).intWithin? Width.minInt32 Width.maxInt32
  let stdout ← Json.orDefault [] bytes? out
  let stderr ← Json.orDefault [] bytes? err
  pure { exitCode, stdout, stderr }

theorem ofFields?_eq_some_iff : ofFields? code out err = some o ↔ Fields code out err o := by
  unfold ofFields?
  simp only [Option.bind_eq_bind, Option.bind_eq_some_iff, orDefault_bytes?_iff, intWithin?_eq_some_iff]
  constructor
  · rintro ⟨v, hv, n, ⟨rfl, hrange⟩, bytes, hout, bytes', herr, h⟩
    cases h
    exact ⟨hv, hrange, hout, herr⟩
  · intro h
    exact ⟨_, h.exitCode, o.exitCode, ⟨rfl, h.range⟩, o.stdout, h.stdout, o.stderr, h.stderr, rfl⟩

theorem ofJson?_object (fields : List (String × Json)) : ofJson? (.object fields) =
    ofFields? (fields.lookup "exit_code") (fields.lookup "stdout") (fields.lookup "stderr") := rfl

theorem ofJson?_array {items : List Json} (h : items.length ≤ 3) :
    ofJson? (.array items) = ofFields? items[0]? items[1]? items[2]? := by
  obtain _ | ⟨code, _ | ⟨out, _ | ⟨err, rest⟩⟩⟩ := items
  · rfl
  · rfl
  · rfl
  · obtain rfl : rest = [] := by
      rw [List.length_cons, List.length_cons, List.length_cons] at h
      exact List.length_eq_zero_iff.1 (by omega)
    rfl

/-- A value is read as the output that it stands for. -/
theorem ofJson?_eq_some_iff : ofJson? v = some o ↔ Given v o := by
  constructor
  · intro h
    cases v with
    | object fields =>
      rw [ofJson?_object] at h
      exact .named (ofFields?_eq_some_iff.1 h)
    | array items =>
      by_cases hlength : items.length ≤ 3
      · rw [ofJson?_array hlength] at h
        exact .placed hlength (ofFields?_eq_some_iff.1 h)
      · have hnone : Json.record? ["exit_code", "stdout", "stderr"] (.array items) = none := if_neg hlength
        rw [ofJson?, hnone] at h
        contradiction
    | null => contradiction
    | bool b => contradiction
    | int n => contradiction
    | real literal => contradiction
    | text s => contradiction
  · intro h
    cases h with
    | named h => rw [ofJson?_object, ofFields?_eq_some_iff.2 h]
    | placed hlength h => rw [ofJson?_array hlength, ofFields?_eq_some_iff.2 h]

end CommandOutput

/-! ## Objects -/

namespace Json

variable {α : Type} {item? : Json → Option α} {fields : List (String × Json)} {all : List (String × α)}

theorem map?_cons {f : String × Json} : map? item? (.object (f :: fields)) =
    (item? f.2).bind fun a => (map? item? (.object fields)).map ((f.1, a) :: ·) := by
  simp only [map?, List.mapM_cons]
  cases item? f.2 with
  | none => rfl
  | some a =>
    cases fields.mapM fun f => (item? f.2).map (f.1, ·) with
    | none => rfl
    | some rest => rfl

/-- A decoded object has the keys of the object, in the same order. -/
theorem keys_of_map? (h : map? item? (.object fields) = some all) : all.map (·.1) = fields.map (·.1) := by
  induction fields generalizing all with
  | nil =>
    obtain rfl : [] = all := Option.some.inj h
    rfl
  | cons f fields ih =>
    rw [map?_cons] at h
    obtain ⟨a, -, h⟩ := Option.bind_eq_some_iff.1 h
    obtain ⟨rest, hrest, rfl⟩ := Option.map_eq_some_iff.1 h
    rw [List.map_cons, List.map_cons, ih hrest]

/-- Each key is decoded from its own field. -/
theorem lookup_of_map? (h : map? item? (.object fields) = some all) (key : String) :
    all.lookup key = (fields.lookup key).bind item? := by
  induction fields generalizing all with
  | nil =>
    obtain rfl : [] = all := Option.some.inj h
    rfl
  | cons f fields ih =>
    rw [map?_cons] at h
    obtain ⟨a, ha, h⟩ := Option.bind_eq_some_iff.1 h
    obtain ⟨rest, hrest, rfl⟩ := Option.map_eq_some_iff.1 h
    rw [List.lookup_cons, List.lookup_cons, ih hrest]
    cases key == f.1 with
    | true => exact ha.symm
    | false => rfl

/-- A part of an object that can be decoded can be decoded, to the same part. -/
theorem map?_filter (h : map? item? (.object fields) = some all) (p : String → Bool) :
    map? item? (.object (fields.filter (p ·.1))) = some (all.filter (p ·.1)) := by
  induction fields generalizing all with
  | nil =>
    obtain rfl : [] = all := Option.some.inj h
    rfl
  | cons f fields ih =>
    rw [map?_cons] at h
    obtain ⟨a, ha, h⟩ := Option.bind_eq_some_iff.1 h
    obtain ⟨rest, hrest, rfl⟩ := Option.map_eq_some_iff.1 h
    rw [List.filter_cons, List.filter_cons]
    cases p f.1 with
    | true =>
      rw [if_pos rfl, if_pos rfl, map?_cons, ha, ih hrest]
      rfl
    | false =>
      rw [if_neg Bool.false_ne_true, if_neg Bool.false_ne_true]
      exact ih hrest

end Json

/-! ## Replies -/

namespace Rpc.Reply

variable {r : Reply} {fields : List (String × Json)} {all : List (String × CommandOutput)} {key : String}
  {o o' : CommandOutput} {found : List (String × Option Path)}

theorem decode_answered {α : Type} {method : String} {read? : Json → Option α} {v : Json} (h : v.isNull = false) :
    (answered v).decode method read? = match read? v with
      | some a => .ok a
      | none => .error (.malformedResult method "not of the expected form") := by
  have hvalue : (answered v).value method = .ok v := by rw [value, h, if_neg Bool.false_ne_true]
  unfold decode
  rw [hvalue]
  rfl

/-- The answer to a batch, an object of these fields, holds an output under a key. -/
def Gives (fields : List (String × Json)) (key : String) (o : CommandOutput) : Prop :=
  ∃ v, fields.lookup key = some v ∧ CommandOutput.Given v o

theorem gives_iff : Gives fields key o ↔ (fields.lookup key).bind CommandOutput.ofJson? = some o := by
  rw [Option.bind_eq_some_iff]
  exact exists_congr fun v => and_congr_right fun _ => CommandOutput.ofJson?_eq_some_iff.symm

theorem Gives.unique (h : Gives fields key o) (h' : Gives fields key o') : o = o' :=
  Option.some.inj ((gives_iff.1 h).symm.trans (gives_iff.1 h'))

theorem lookup_eq_some_iff_gives (hall : Json.map? CommandOutput.ofJson? (.object fields) = some all) :
    all.lookup key = some o ↔ Gives fields key o := by
  rw [gives_iff, Json.lookup_of_map? hall]

/-- A value tells where a marker was found, if it was found at all. -/
inductive Locates : Json → Option Path → Prop where
  | found (s : String) : Locates (.text s) (some ⟨s⟩)
  | missing : Locates .null none

/-- The answer to a scan is an object that tells for each marker, in this order, where it was found. -/
def Finds (r : Reply) (found : List (String × Option Path)) : Prop :=
  ∃ fields, r = answered (.object fields) ∧ List.Forall₂ (fun f e => e.1 = f.1 ∧ Locates f.2 e.2) fields found

theorem nullable?_path?_iff {v : Json} {place : Option Path} :
    Json.nullable? path? v = some place ↔ Locates v place := by
  constructor
  · intro h
    cases v with
    | null =>
      cases h
      exact .missing
    | text s =>
      cases h
      exact .found s
    | bool b => contradiction
    | int n => contradiction
    | real literal => contradiction
    | array items => contradiction
    | object fields => contradiction
  · intro h
    cases h with
    | found s => rfl
    | missing => rfl

theorem map?_path?_iff : Json.map? (Json.nullable? path?) (.object fields) = some found ↔
    List.Forall₂ (fun f e => e.1 = f.1 ∧ Locates f.2 e.2) fields found := by
  induction fields generalizing found with
  | nil =>
    rw [List.forall₂_nil_left_iff]
    exact ⟨fun h => (Option.some.inj h).symm, fun h => congrArg some h.symm⟩
  | cons f fields ih =>
    rw [Json.map?_cons, List.forall₂_cons_left_iff]
    simp only [Option.bind_eq_some_iff, Option.map_eq_some_iff, nullable?_path?_iff]
    constructor
    · rintro ⟨place, hplace, rest, hrest, rfl⟩
      exact ⟨_, rest, ⟨rfl, hplace⟩, ih.1 hrest, rfl⟩
    · rintro ⟨⟨marker, place⟩, rest, ⟨rfl, hplace⟩, hrest, rfl⟩
      exact ⟨place, hplace, rest, ih.2 hrest, rfl⟩

/-- A scan is read from the answer that tells what it has found. -/
theorem markers_eq_ok_iff : r.markers = .ok found ↔ r.Finds found := by
  constructor
  · intro h
    cases r with
    | failed reason => contradiction
    | timedOut millis => contradiction
    | answered v =>
      cases v with
      | object fields =>
        rw [markers, decode_answered rfl] at h
        split at h
        · next found' hread =>
          cases h
          exact ⟨fields, rfl, map?_path?_iff.1 hread⟩
        · contradiction
      | null => contradiction
      | bool b => contradiction
      | int n => contradiction
      | real literal => contradiction
      | text s => contradiction
      | array items => contradiction
  · rintro ⟨fields, rfl, hfound⟩
    rw [markers, decode_answered rfl, map?_path?_iff.2 hfound]

end Rpc.Reply

end RemoteFacts
