import RemoteFacts.Config.Schema
import RemoteFacts.Error
import RemoteFacts.Toml.Printer

/-!
# Writing a configuration

* `Config.sections` : the sections of a configuration, as TOML values;
* `Config.render` : the document that stands for it.
-/

namespace RemoteFacts.Config

/-- A number as a TOML value. -/
def number (n : Nat) : Toml := .integer n

/-- The sections of a configuration, each with all its fields. -/
def sections (c : Config) : List (String × List (String × Toml)) := [
  ("general", [("log_format", .text c.general.logFormat)]),
  ("cache", [
    ("ttl_seconds", number c.cache.ttlSeconds),
    ("max_entries", number c.cache.maxEntries)]),
  ("watch", [
    ("debug_logging", .boolean c.watch.debugLogging),
    ("auto_register", .boolean c.watch.autoRegister),
    ("recursive", .boolean c.watch.recursive)]),
  ("prefetch", [
    ("enabled", .boolean c.prefetch.enabled),
    ("metadata_dir", .text c.prefetch.metadataDir),
    ("ancestor_markers", .array (c.prefetch.ancestorMarkers.map Toml.text)),
    ("ancestor_max_depth", number c.prefetch.ancestorMaxDepth)]),
  ("rpc", [("timeout_secs", number c.rpc.timeoutSecs)])]

/-- The document that stands for a configuration, unless one of its numbers is too large to be written. -/
def render (c : Config) : Except Error String :=
  match Toml.Printer.document? c.sections with
  | some text => .ok text
  | none => .error (.unprintableToml "out-of-range value for u64 type")

end RemoteFacts.Config
