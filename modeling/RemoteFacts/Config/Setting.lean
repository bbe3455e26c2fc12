import RemoteFacts.Config.Place
import RemoteFacts.Text.Blank
import RemoteFacts.Text.Decimal
import RemoteFacts.Text.Pieces

/-!
# Changing one value of a configuration

* `Config.Key`, `Config.Key.name`, `Config.Key.all`, `Config.Key.parse?` : the values that can be changed, and
  the names they go by;
* `Config.set` : a configuration with one value changed to what a text stands for.
-/

namespace RemoteFacts.Config

/-- A value that can be changed. -/
inductive Key where
  | logFormat
  | ttlSeconds
  | maxEntries
  | debugLogging
  | autoRegister
  | recursive
  | enabled
  | metadataDir
  | ancestorMarkers
  | ancestorMaxDepth
  | timeoutSecs
  deriving DecidableEq, Repr

namespace Key

/-- The name of a value: its section and its field. -/
def name : Key → String
  | logFormat => "general.log_format"
  | ttlSeconds => "cache.ttl_seconds"
  | maxEntries => "cache.max_entries"
  | debugLogging => "watch.debug_logging"
  | autoRegister => "watch.auto_register"
  | recursive => "watch.recursive"
  | enabled => "prefetch.enabled"
  | metadataDir => "prefetch.metadata_dir"
  | ancestorMarkers => "prefetch.ancestor_markers"
  | ancestorMaxDepth => "prefetch.ancestor_max_depth"
  | timeoutSecs => "rpc.timeout_secs"

/-- Every value that can be changed, in the order of the file. -/
def all : List Key :=
  [logFormat, ttlSeconds, maxEntries, debugLogging, autoRegister, recursive, enabled, metadataDir,
    ancestorMarkers, ancestorMaxDepth, timeoutSecs]

/-- The value that goes by a name. -/
def parse? (s : String) : Option Key := all.find? (·.name == s)

end Key

/-- A truth value as users write it, in letters of either case. -/
def boolOf (s : String) : Except Error Bool :=
  let lower := s.map Char.toLower
  if lower == "true" || lower == "1" || lower == "yes" then .ok true
  else if lower == "false" || lower == "0" || lower == "no" then .ok false
  else .error (.user s!"Invalid boolean value: {s}. Use true/false")

/-- A number as users write it, up to a bound. -/
def numberOf (high : Nat) (s : String) : Except Error Nat :=
  match Text.Decimal.parse? high s with
  | some n => .ok n
  | none => .error (.user s!"Invalid number: {s}")

/-- One of the two log formats. -/
def logFormatOf (s : String) : Except Error String :=
  if s == "text" || s == "json" then .ok s
  else .error (.user s!"Invalid log format: {s}. Use text or json")

/-- The names between commas, without the blanks around them; empty ones are left out. -/
def markersOf (s : String) : List String :=
  (((Text.pieces ',' s.toList).map Text.trimChars).filter fun cs => !cs.isEmpty).map String.ofList

/-- The name of a directory, which is not empty. -/
def metadataDirOf (s : String) : Except Error String :=
  if s.isEmpty then .error (.user "prefetch.metadata_dir must not be empty") else .ok s

/-- A configuration with one value changed to what a text stands for. -/
def set (c : Config) (key : Key) (s : String) : Except Error Config :=
  match key with
  | .logFormat => do pure { c with general.logFormat := ← logFormatOf s }
  | .ttlSeconds => do pure { c with cache.ttlSeconds := ← numberOf Width.maxNat64 s }
  | .maxEntries => do pure { c with cache.maxEntries := ← numberOf Width.maxNat64 s }
  | .debugLogging => do pure { c with watch.debugLogging := ← boolOf s }
  | .autoRegister => do pure { c with watch.autoRegister := ← boolOf s }
  | .recursive => do pure { c with watch.recursive := ← boolOf s }
  | .enabled => do pure { c with prefetch.enabled := ← boolOf s }
  | .metadataDir => do pure { c with prefetch.metadataDir := ← metadataDirOf s }
  | .ancestorMarkers => .ok { c with prefetch.ancestorMarkers := markersOf s }
  | .ancestorMaxDepth => do pure { c with prefetch.ancestorMaxDepth := ← numberOf Width.maxNat32 s }
  | .timeoutSecs => do pure { c with rpc.timeoutSecs := ← numberOf Width.maxNat64 s }

end RemoteFacts.Config
