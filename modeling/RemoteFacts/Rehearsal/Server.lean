import RemoteFacts.Rpc.Call
import RemoteFacts.Rpc.Notification

/-!
# A remote side by the book

* `Rehearsal.Reaction` : how one call is answered, after what delay, and which notifications go with it;
* `Rehearsal.Behaviour` : the reaction to a request, which may depend on the path it names;
* `Rehearsal.Server`, `Rehearsal.Server.reactionTo` : the behaviour of each method;
* `Rehearsal.Reaction.reply` : the reply to a request.
-/

namespace RemoteFacts.Rehearsal

/-- A notification sent along with a call, to the session with this number. -/
structure Push where
  notification : Rpc.Notification
  session : Nat
  deriving Inhabited

/-- How a call ends. -/
inductive Ending where
  | value (v : Json)
  | fail (reason : String)
  /-- An object with an output for every requested key: a given one or else `default`, but none for the keys
  in `omitted`; and the outputs in `extra` besides. -/
  | batch (outputs : List (String × Json)) (default : Json) (omitted : List String)
      (extra : List (String × Json))
  deriving Inhabited

/-- How one call is answered: some notifications at once, the others after a delay, and then the reply. -/
structure Reaction where
  ending : Ending
  delayMillis : Nat
  before : List Push
  after : List Push
  deriving Inhabited

/-- The reaction to requests of one method. -/
inductive Behaviour where
  | always (r : Reaction)
  | byPath (cases : List (String × Behaviour)) (otherwise : Option Behaviour)

/-- The behaviour of each method. -/
abbrev Server := List (String × Behaviour)

/-- The reaction of one that answers `null` at once. -/
def Reaction.silent : Reaction := ⟨.value .null, 0, [], []⟩

mutual

/-- The reaction to a request that names `path`. -/
def Behaviour.reactionTo (path : Option String) : Behaviour → Option Reaction
  | always r => some r
  | byPath cases otherwise =>
    match Behaviour.caseFor path cases with
    | some r => some r
    | none => Behaviour.fallback path otherwise

/-- The reaction of the case for `path`, if there is one. -/
def Behaviour.caseFor (path : Option String) : List (String × Behaviour) → Option Reaction
  | [] => none
  | (p, b) :: cases => if path == some p then b.reactionTo path else Behaviour.caseFor path cases

/-- The reaction of what holds for all other paths. -/
def Behaviour.fallback (path : Option String) : Option Behaviour → Option Reaction
  | none => none
  | some b => b.reactionTo path

end

/-- The path that the parameters of a request name. -/
def requestPath? (r : Rpc.Request) : Option String :=
  match r.params.field? "path" with
  | some (.text s) => some s
  | _ => none

/-- The reaction to a request; a method without behaviour answers `null`. -/
def Server.reactionTo (s : Server) (r : Rpc.Request) : Reaction :=
  ((s.lookup r.method).bind (·.reactionTo (requestPath? r))).getD .silent

/-- Replaces the behaviour of some methods. -/
def Server.override (s news : Server) : Server := news ++ s

/-- The keys whose outputs a request asks for. -/
def requestedKeys : Rpc.Request → List String
  | .runParallel commands => commands.map (·.key)
  | _ => []

/-- The result of a batch. -/
def batchResult (outputs : List (String × Json)) (default : Json) (omitted : List String)
    (extra : List (String × Json)) (keys : List String) : Json :=
  let given := (keys.filter fun k => !omitted.contains k).foldl
    (fun fields k => Json.setField k ((outputs.lookup k).getD default) fields) []
  .object (extra.foldl (fun fields e => Json.setField e.1 e.2 fields) given)

/-- The reply to a request. -/
def Reaction.reply (r : Reaction) (request : Rpc.Request) : Rpc.Reply :=
  match r.ending with
  | .value v => .answered v
  | .fail reason => .failed reason
  | .batch outputs default omitted extra =>
    .answered (batchResult outputs default omitted extra (requestedKeys request))

end RemoteFacts.Rehearsal
