import RemoteFacts.CommandOutput
import RemoteFacts.Error
import RemoteFacts.Probe
import RemoteFacts.Text.Quoted

/-!
# Calls to the remote side

* `Rpc.Request`, `Rpc.Request.method`, `Rpc.Request.params` : what is asked, and how it travels;
* `Rpc.Reply` : how a call ends;
* `Rpc.Reply.value` : the result it brought, or the error it stands for;
* `Rpc.Reply.outputs`, `Rpc.Reply.markers`, `Rpc.Reply.flag`, `Rpc.Reply.watches` : results read as what the
  request asked for.

A batch is answered in full or not at all: one output that cannot be read, or one requested key without an
output, spoils it. Outputs under keys that were not requested are left out.
-/

namespace RemoteFacts.Rpc

/-- A request to the remote side. -/
inductive Request where
  | runParallel (commands : List CommandSpec)
  | scanAncestors (directory : Path) (markers : List String) (maxDepth : Nat)
  | watchAdd (path : Path) (recursive : Bool)
  | watchRemove (path : Path)
  | watchList

namespace Request

/-- The method that serves a request. -/
def method : Request → String
  | runParallel _ => "commands.run_parallel"
  | scanAncestors .. => "ancestors.scan"
  | watchAdd .. => "watch.add"
  | watchRemove _ => "watch.remove"
  | watchList => "watch.list"

/-- A command as it travels. -/
def commandJson (c : CommandSpec) : Json :=
  .object [("args", .array (c.args.map Json.text)), ("cmd", .text c.cmd), ("cwd", .text c.cwd.text),
    ("key", .text c.key)]

/-- The parameters of a request. -/
def params : Request → Json
  | runParallel commands => .array (commands.map commandJson)
  | scanAncestors directory markers maxDepth =>
    .object [("directory", .text directory.text), ("markers", .array (markers.map Json.text)),
      ("max_depth", .int maxDepth)]
  | watchAdd path recursive => .object [("path", .text path.text), ("recursive", .bool recursive)]
  | watchRemove path => .object [("path", .text path.text)]
  | watchList => .null

end Request

/-- How a call ends. -/
inductive Reply where
  | answered (result : Json)
  | failed (reason : String)
  /-- No answer came within the limit. -/
  | timedOut (millis : Nat)
  deriving Inhabited

namespace Reply

/-- The result that a call of `method` brought; `null` is none. -/
def value (method : String) : Reply → Except Error Json
  | answered result => if result.isNull then .error (.emptyResult method) else .ok result
  | failed reason => .error (.callFailed method reason)
  | timedOut millis => .error (.callTimedOut method millis)

/-- The result of a call, read by `read?`. -/
def decode {α : Type} (method : String) (read? : Json → Option α) (r : Reply) : Except Error α := do
  match read? (← r.value method) with
  | some a => .ok a
  | none => .error (.malformedResult method "not of the expected form")

/-- The outputs of a batch, one for each key that it requested. -/
def outputs (commands : List CommandSpec) (r : Reply) :
    Except Error (List (String × CommandOutput)) := do
  let method := (Request.runParallel commands).method
  let all ← r.decode method (Json.map? CommandOutput.ofJson?)
  let wanted := all.filter fun e => commands.any (·.key == e.1)
  match commands.find? fun c => !wanted.any (·.1 == c.key) with
  | some c => .error (.malformedResult method ("no result for key " ++ Text.quoted c.key))
  | none => .ok wanted

/-- A path as it travels. -/
def path? (v : Json) : Option Path := v.text?.map Path.mk

/-- The directories found by a scan of ancestors, by marker. -/
def markers (r : Reply) : Except Error (List (String × Option Path)) :=
  r.decode (Request.scanAncestors ⟨""⟩ [] 0).method (Json.map? (Json.nullable? path?))

/-- The answer to a request for a watch or its end. -/
def flag (method : String) (r : Reply) : Except Error Bool := r.decode method Json.bool?

/-- A watch in the list that the remote side keeps: its path, and whether it covers what lies below. -/
def watch? (v : Json) : Option (Path × Bool) := do
  match ← v.record? ["path", "recursive"] with
  | [path, recursive] => pure (← path? (← path), ← Json.orDefault false Json.bool? recursive)
  | _ => none

/-- The watches that the remote side keeps. -/
def watches (r : Reply) : Except Error (List (Path × Bool)) :=
  r.decode Request.watchList.method (Json.list? watch?)

end Reply

end RemoteFacts.Rpc
