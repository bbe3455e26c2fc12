import RemoteFacts.Config.Schema
import RemoteFacts.Json.Record
import RemoteFacts.Toml
import RemoteFacts.Width

/-!
# Reading a configuration

* `Config.Source` : what a format has to tell of its values for a configuration to be read from them, for TOML
  and for JSON;
* `Config.read?` : the configuration that a value stands for, `General.read?`, `Cache.read?`, `Watch.read?`,
  `Prefetch.read?` and `Rpc.read?` its sections.

What is left out has its default, and what is unknown is passed over. Some fields go by two names, of which
only one may be given. A section may also be written as an array of its values in order: in TOML with anything
after them, in JSON with nothing. In TOML a date or a time stands for a section in which nothing is given.
-/

namespace RemoteFacts.Config

/-- The value of a field that goes by any of `names`, if it is given; none if it is given twice. -/
def fieldNamed? {α : Type} (fields : List (String × α)) (names : List String) : Option (Option α) :=
  match names.filterMap fun name => fields.lookup name with
  | [] => some none
  | [v] => some (some v)
  | _ => none

/-- The first `n` values of an array, where there are so many. -/
def positions {α : Type} (n : Nat) (items : List α) : List (Option α) :=
  (List.range n).map fun i => items[i]?

/-- A format in which configurations are written, by its values. -/
class Source (α : Type) where
  /-- The fields of a record, each of which goes by any of some names, where they are given. -/
  record? : List (List String) → α → Option (List (Option α))
  text? : α → Option String
  boolean? : α → Option Bool
  /-- A whole number from zero up to a bound. -/
  natUpTo? : Nat → α → Option Nat
  texts? : α → Option (List String)

/-! ## Formats -/

namespace Source

/-- The fields of a record in TOML. -/
def tomlRecord? (names : List (List String)) : Toml → Option (List (Option Toml))
  | .table fields => names.mapM (fieldNamed? fields)
  | .array items => some (positions names.length items)
  | .moment _ => some (names.map fun _ => none)
  | _ => none

/-- The text of a string in TOML. -/
def tomlText? : Toml → Option String
  | .text s => some s
  | _ => none

/-- The truth value of a boolean in TOML. -/
def tomlBoolean? : Toml → Option Bool
  | .boolean b => some b
  | _ => none

/-- A whole number from zero up to a bound in TOML. -/
def tomlNatUpTo? (high : Nat) : Toml → Option Nat
  | .integer n => if 0 ≤ n ∧ n ≤ high then some n.toNat else none
  | _ => none

/-- A list of strings in TOML. -/
def tomlTexts? : Toml → Option (List String)
  | .array items => items.mapM tomlText?
  | _ => none

/-- The fields of a record in JSON. -/
def jsonRecord? (names : List (List String)) : Json → Option (List (Option Json))
  | .object fields => names.mapM (fieldNamed? fields)
  | .array items => if items.length ≤ names.length then some (positions names.length items) else none
  | _ => none

instance : Source Toml := ⟨tomlRecord?, tomlText?, tomlBoolean?, tomlNatUpTo?, tomlTexts?⟩

instance : Source Json := ⟨jsonRecord?, Json.text?, Json.bool?, Json.natUpTo?, Json.list? Json.text?⟩

end Source

/-! ## Sections -/

section
variable {α : Type} [Source α]

open Source

/-- A value that is `default` when it is left out. -/
def orDefault {β : Type} (default : β) (read? : α → Option β) : Option α → Option β
  | none => some default
  | some v => read? v

/-- Reads the section on reports. -/
def General.read? (v : α) : Option General := do
  match ← record? [["log_format"]] v with
  | [logFormat] =>
    let d : General := {}
    pure { logFormat := ← orDefault d.logFormat text? logFormat }
  | _ => none

/-- Reads the section on caches. -/
def Cache.read? (v : α) : Option Cache := do
  match ← record? [["ttl_seconds", "ttlSeconds"], ["max_entries", "maxEntries"]] v with
  | [ttl, max] =>
    let d : Cache := {}
    let ttlSeconds ← orDefault d.ttlSeconds (natUpTo? Width.maxNat64) ttl
    let maxEntries ← orDefault d.maxEntries (natUpTo? Width.maxNat64) max
    pure { ttlSeconds, maxEntries }
  | _ => none

/-- Reads the section on watches. -/
def Watch.read? (v : α) : Option Watch := do
  match ← record? [["debug_logging", "debugLogging"], ["auto_register"], ["recursive"]] v with
  | [debug, auto, rec] =>
    let d : Watch := {}
    let debugLogging ← orDefault d.debugLogging boolean? debug
    let autoRegister ← orDefault d.autoRegister boolean? auto
    let recursive ← orDefault d.recursive boolean? rec
    pure { debugLogging, autoRegister, recursive }
  | _ => none

/-- Reads the section on prefetches. -/
def Prefetch.read? (v : α) : Option Prefetch := do
  let names := [["enabled"], ["metadata_dir"], ["ancestor_markers"], ["ancestor_max_depth"]]
  match ← record? names v with
  | [on, dir, markers, depth] =>
    let d : Prefetch := {}
    let enabled ← orDefault d.enabled boolean? on
    let metadataDir ← orDefault d.metadataDir text? dir
    let ancestorMarkers ← orDefault d.ancestorMarkers texts? markers
    let ancestorMaxDepth ← orDefault d.ancestorMaxDepth (natUpTo? Width.maxNat32) depth
    pure { enabled, metadataDir, ancestorMarkers, ancestorMaxDepth }
  | _ => none

/-- Reads the section on calls. -/
def Rpc.read? (v : α) : Option Rpc := do
  match ← record? [["timeout_secs"]] v with
  | [timeout] =>
    let d : Rpc := {}
    pure { timeoutSecs := ← orDefault d.timeoutSecs (natUpTo? Width.maxNat64) timeout }
  | _ => none

/-- The configuration that a value stands for. -/
def read? (v : α) : Option Config := do
  match ← record? [["general"], ["cache"], ["watch"], ["prefetch"], ["rpc"]] v with
  | [g, c, w, p, r] =>
    let general ← orDefault {} General.read? g
    let cache ← orDefault {} Cache.read? c
    let watch ← orDefault {} Watch.read? w
    let prefetch ← orDefault {} Prefetch.read? p
    let rpc ← orDefault {} Rpc.read? r
    pure { general, cache, watch, prefetch, rpc }
  | _ => none

end

end RemoteFacts.Config
