import RemoteFacts.Json.Record
import RemoteFacts.Path

/-!
# Notifications from the remote side

* `Rpc.Notification`, `Rpc.Notification.ofJson?` : a method and its parameters, whatever they are;
* `Rpc.Notification.changedPaths` : the paths that a report of changes names.
-/

namespace RemoteFacts.Rpc

/-- A message that needs no reply. -/
structure Notification where
  method : String
  params : Json
  deriving Inhabited

namespace Notification

/-- The method under which changes are reported. -/
def changes : String := "fs.changed"

/-- A notification as it travels; parameters that are left out are `null`. -/
def ofJson? (v : Json) : Option Notification := do
  match ← v.record? ["method", "params"] with
  | [method, params] => pure { method := ← (← method).text?, params := params.getD .null }
  | _ => none

/-- The paths that the parameters of a report of changes name, if they have its form. -/
def paths? (params : Json) : Option (List Path) := do
  match ← params.record? ["paths"] with
  | [paths] => Json.orDefault [] (Json.list? fun v => v.text?.map Path.mk) paths
  | _ => none

/-- The distinct absolute paths that a notification reports as changed, in order, each in the spelling that comes
last. There are none if it reports no changes or has not the form of such a report. -/
def changedPaths (n : Notification) : List Path :=
  if n.method == changes then
    Path.sort (Path.latest (((paths? n.params).getD []).filter (·.isAbsolute)))
  else []

end Notification

end RemoteFacts.Rpc
