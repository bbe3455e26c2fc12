import RemoteFacts.Cache.Bounded

/-!
# Histories of a cache

* `Cache.Op`, `Cache.Answer` : what is asked of a cache, and what it answers;
* `Cache.step` : one request;
* `Cache.run` : a history of requests, with the answers.
-/

namespace RemoteFacts.Cache

variable {α : Type}

/-- What is asked of a cache, each at its moment. -/
inductive Op (α : Type) where
  | put (key : Path) (value : α) (now : Nat)
  | get (key : Path) (now : Nat)
  | invalidate (key : Path)
  | clear

/-- What a cache answers. -/
inductive Answer (α : Type) where
  | nothing
  | value (v : Option α)
  | present (b : Bool)

/-- One request. -/
def step (c : Cache α) : Op α → Answer α × Cache α
  | .put key value now => (.nothing, c.put key value now)
  | .get key now =>
    let (v, c) := c.get key now
    (.value v, c)
  | .invalidate key =>
    let (b, c) := c.invalidate key
    (.present b, c)
  | .clear => (.nothing, c.clear)

/-- A history of requests, with the answer to each and the cache after it. -/
def run (c : Cache α) : List (Op α) → List (Answer α × Cache α)
  | [] => []
  | op :: ops =>
    let (answer, c) := c.step op
    (answer, c) :: run c ops

end RemoteFacts.Cache
