/-!
# Configuration

* `Config` and its five sections, each with the values that hold when nothing is configured;
* `Config.Cache.ttl?`, `Config.Cache.maxSize?`, `Config.Rpc.timeout?` : limits, none where zero is configured.
-/

namespace RemoteFacts

/-- How the program reports about itself. -/
structure Config.General where
  logFormat : String := "text"
  deriving Repr, DecidableEq, Inhabited

/-- Bounds of the caches. -/
structure Config.Cache where
  ttlSeconds : Nat := 300
  maxEntries : Nat := 10000
  deriving Repr, DecidableEq, Inhabited

/-- How watches are registered. -/
structure Config.Watch where
  debugLogging : Bool := false
  autoRegister : Bool := true
  recursive : Bool := true
  deriving Repr, DecidableEq, Inhabited

/-- The names that an ancestor scan looks for when nothing else is configured. -/
def Config.defaultMarkers : List String :=
  [".git", ".hg", ".svn", ".bzr", "_darcs", ".projectile", ".dir-locals.el", ".editorconfig"]

/-- What a prefetch asks for. -/
structure Config.Prefetch where
  enabled : Bool := true
  metadataDir : String := ".git"
  ancestorMarkers : List String := Config.defaultMarkers
  ancestorMaxDepth : Nat := 32
  deriving Repr, DecidableEq, Inhabited

/-- Limits of calls. -/
structure Config.Rpc where
  timeoutSecs : Nat := 30
  deriving Repr, DecidableEq, Inhabited

/-- A configuration. -/
structure Config where
  general : Config.General := {}
  cache : Config.Cache := {}
  watch : Config.Watch := {}
  prefetch : Config.Prefetch := {}
  rpc : Config.Rpc := {}
  deriving Repr, DecidableEq, Inhabited

namespace Config

/-- The limit that a configured number stands for: zero is none. -/
def limit? (n : Nat) : Option Nat := if n = 0 then none else some n

/-- How many seconds a fact lives. -/
def Cache.ttl? (c : Config.Cache) : Option Nat := limit? c.ttlSeconds

/-- How many facts a cache holds. -/
def Cache.maxSize? (c : Config.Cache) : Option Nat := limit? c.maxEntries

/-- How many seconds a call may take. -/
def Rpc.timeout? (c : Config.Rpc) : Option Nat := limit? c.timeoutSecs

end Config

end RemoteFacts
