import RemoteFacts.Path

/-!
# Errors

* `Error` : every cause for which an operation can fail;
* `Error.message` : the text shown for it;
* `Error.isRetryable` : whether trying again may help;
* `Error.hint?` : what the user can do about it.

None of them is fatal to a session: whoever meets one asks the remote side again, without the caches.
-/

namespace RemoteFacts

/-- A cause for which an operation fails. -/
inductive Error where
  /-- The transport could not complete a call. -/
  | callFailed (method reason : String)
  /-- A call was not answered within its limit. -/
  | callTimedOut (method : String) (millis : Nat)
  /-- A call was answered by `null`. -/
  | emptyResult (method : String)
  /-- A call was answered by something that its result is not read from. -/
  | malformedResult (method reason : String)
  | connectionClosed
  | scopeActive
  | prefetchDisabled
  | configInvalid (path : Path) (reason : String)
  | configNotFound (path : Path)
  | configDirectory (path : Path) (cause : String)
  | fileAccess (context cause : String)
  | unprintableJson (reason : String)
  | unreadableToml (reason : String)
  | unprintableToml (reason : String)
  /-- A fault of the program itself. -/
  | internal (reason : String)
  /-- A request that the user has to change. -/
  | user (text : String)
  deriving Repr, Inhabited

namespace Error

/-- The text shown for an error. -/
def message : Error → String
  | callFailed method reason => s!"RPC call {method} failed: {reason}"
  | callTimedOut method millis => s!"RPC call {method} timed out after {millis}ms"
  | emptyResult method => s!"RPC call {method} returned no result"
  | malformedResult method reason => s!"RPC call {method} returned a malformed result: {reason}"
  | connectionClosed => "Connection closed"
  | scopeActive => "A suppressed scope is already active"
  | prefetchDisabled => "Prefetch is disabled by configuration"
  | configInvalid path reason => s!"Invalid configuration at {path.text}: {reason}"
  | configNotFound path => s!"Configuration file not found: {path.text}"
  | configDirectory path cause => s!"Failed to create config directory {path.text}: {cause}"
  | fileAccess context _ => s!"IO error: {context}"
  | unprintableJson reason => s!"JSON error: {reason}"
  | unreadableToml reason => s!"TOML parse error: {reason}"
  | unprintableToml reason => s!"TOML serialize error: {reason}"
  | internal reason => s!"Internal error: {reason}"
  | user text => text

/-- Whether trying again may help: only where the fault was the moment's. -/
def isRetryable : Error → Bool
  | callFailed .. => true
  | callTimedOut .. => true
  | scopeActive => true
  | _ => false

/-- What the user can do about an error. -/
def hint? : Error → Option String
  | callTimedOut .. => some "Raise rpc.timeout_secs or check the remote server"
  | configNotFound _ => some "Run: remcache config init"
  | prefetchDisabled => some "Set prefetch.enabled = true"
  | _ => none

end Error

end RemoteFacts
