import RemoteFacts.Watch.Registry

/-!
# Histories of a registry

* `Watch.Op`, `Watch.Answer` : what a connection asks of the registry, and what it answers;
* `Watch.Registry.step` : one request of one connection;
* `Watch.Registry.run` : a history of requests, each at a moment of its own.
-/

namespace RemoteFacts.Watch

/-- What a connection asks of the registry. -/
inductive Op where
  | register (path : Path)
  | unregister (path : Path)
  | isWatched (path : Path)
  | clear
  | replace (paths : List Path)

/-- What the registry answers. -/
inductive Answer where
  | nothing
  | flag (b : Bool)
  | count (n : Nat)

namespace Registry

/-- One request of the connection `c` at the moment `now`. -/
def step (c : ConnectionId) (now : Nat) (r : Registry) : Op → Answer × Registry
  | .register path =>
    let (b, r) := r.register c path now
    (.flag b, r)
  | .unregister path =>
    let (b, r) := r.unregister c path
    (.flag b, r)
  | .isWatched path => (.flag (r.isWatched c path), r)
  | .clear =>
    let (n, r) := r.clearFor c
    (.count n, r)
  | .replace paths => (.nothing, r.replaceFor c paths now)

/-- A history of requests from the moment `now` on, with the answer to each and the registry after it. -/
def run (r : Registry) (now : Nat) : List (ConnectionId × Op) → List (Answer × Registry)
  | [] => []
  | (c, op) :: ops =>
    let (answer, r) := r.step c now op
    (answer, r) :: run r (now + 1) ops

end Registry

end RemoteFacts.Watch
