import RemoteFacts.Path

/-!
# Bounded caches

A cache maps paths to values for at most `ttl` after their insertion and holds at most `maxSize` of them.
Expired entries stay until they are looked up or their room is needed. When a new path meets a full cache,
the expired entries leave first; if it is still full, the oldest quarter leaves too.

* `Cache`, `Cache.Entry`, `Cache.Stats`;
* `Cache.get`, `Cache.put`, `Cache.invalidate`, `Cache.clear`;
* `Cache.purgeExpired`, `Cache.evictOldest`, `Cache.makeRoom` : what `put` does to a full cache.

Moments are counted from a common origin and may come in any order.
-/

namespace RemoteFacts

/-- A value with the path it is kept under and the moment of its insertion. -/
structure Cache.Entry (α : Type) where
  key : Path
  insertedAt : Nat
  value : α

/-- An entry is expired when more than `ttl` has passed since its insertion. -/
def Cache.Entry.isExpired {α : Type} (ttl : Option Nat) (now : Nat) (e : Entry α) : Bool :=
  match ttl with
  | some ttl => decide (ttl < now - e.insertedAt)
  | none => false

/-- What has happened to a cache. -/
structure Cache.Stats where
  hits : Nat
  misses : Nat
  inserts : Nat
  evictions : Nat
  expirations : Nat
  invalidations : Nat
  deriving Repr, DecidableEq

/-- The counters of a cache to which nothing has happened. -/
def Cache.Stats.zero : Stats := ⟨0, 0, 0, 0, 0, 0⟩

/-- A map from paths to values, bounded in age and size. -/
structure Cache (α : Type) where
  entries : List (Cache.Entry α)
  /-- How long an entry lives; without it, forever. -/
  ttl : Option Nat
  /-- How many entries there may be; without it, any number. -/
  maxSize : Option Nat
  stats : Cache.Stats

namespace Cache

variable {α : Type}

/-- An empty cache; a size bound of zero bounds nothing. -/
def empty (ttl maxSize : Option Nat) : Cache α where
  entries := []
  ttl := ttl
  maxSize := maxSize.filter (0 < ·)
  stats := Stats.zero

/-- The number of entries, expired ones included. -/
def size (c : Cache α) : Nat := c.entries.length

/-- The entry of a path. -/
def find? (c : Cache α) (key : Path) : Option (Entry α) := c.entries.find? (·.key == key)

/-- Whether a path has an entry, expired or not. -/
def contains (c : Cache α) (key : Path) : Bool := c.entries.any (·.key == key)

/-- The entries without that of a path. -/
def without (key : Path) (entries : List (Entry α)) : List (Entry α) :=
  entries.filter fun e => !(e.key == key)

/-! ## Looking up -/

/-- The value of a path, unless it has expired; an expired one is dropped. -/
def get (key : Path) (now : Nat) (c : Cache α) : Option α × Cache α :=
  match c.find? key with
  | none => (none, { c with stats := { c.stats with misses := c.stats.misses + 1 } })
  | some e =>
    if e.isExpired c.ttl now then
      (none, { c with
        entries := without key c.entries
        stats := { c.stats with
          misses := c.stats.misses + 1
          expirations := c.stats.expirations + 1 } })
    else (some e.value, { c with stats := { c.stats with hits := c.stats.hits + 1 } })

/-! ## Inserting -/

/-- Drops every expired entry. -/
def purgeExpired (now : Nat) (c : Cache α) : Cache α :=
  let kept := c.entries.filter fun e => !e.isExpired c.ttl now
  { c with
    entries := kept
    stats := { c.stats with expirations := c.stats.expirations + (c.size - kept.length) } }

/-- The entries, oldest first. -/
def byAge (c : Cache α) : List (Entry α) :=
  c.entries.mergeSort fun a b => decide (a.insertedAt ≤ b.insertedAt)

/-- Drops the `n` oldest entries. -/
def evictOldest (n : Nat) (c : Cache α) : Cache α :=
  let victims := c.byAge.take n
  { c with
    entries := c.entries.filter fun e => !victims.any (·.key == e.key)
    stats := { c.stats with evictions := c.stats.evictions + victims.length } }

/-- A quarter of a number of entries, rounded up. -/
def quarter (n : Nat) : Nat := (n + 3) / 4

/-- Whether the cache holds as many entries as it may. -/
def isFull (c : Cache α) : Bool :=
  match c.maxSize with
  | some max => decide (max ≤ c.size)
  | none => false

/-- Drops what has to leave before a new path enters at `now`. -/
def makeRoom (now : Nat) (c : Cache α) : Cache α :=
  if c.isFull then
    let c := c.purgeExpired now
    if c.isFull then c.evictOldest (quarter c.size) else c
  else c

/-- The entries with `e` in them, in the place and under the spelling of the one it replaces. -/
def write (e : Entry α) (entries : List (Entry α)) : List (Entry α) :=
  if entries.any (·.key == e.key) then
    entries.map fun old => if old.key == e.key then { e with key := old.key } else old
  else entries ++ [e]

/-- Keeps `value` under a path from `now` on. -/
def put (key : Path) (value : α) (now : Nat) (c : Cache α) : Cache α :=
  let c := if c.contains key then c else c.makeRoom now
  { c with
    entries := write ⟨key, now, value⟩ c.entries
    stats := { c.stats with inserts := c.stats.inserts + 1 } }

/-! ## Dropping -/

/-- Drops the entry of a path, and tells whether there was one. -/
def invalidate (key : Path) (c : Cache α) : Bool × Cache α :=
  if c.contains key then
    (true, { c with
      entries := without key c.entries
      stats := { c.stats with invalidations := c.stats.invalidations + 1 } })
  else (false, c)

/-- Drops every entry. -/
def clear (c : Cache α) : Cache α :=
  { c with
    entries := []
    stats := { c.stats with invalidations := c.stats.invalidations + c.size } }

end Cache

end RemoteFacts
