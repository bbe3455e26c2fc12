import RemoteFacts.Path

/-!
# Ancestor scans

A scan for a directory says, for each marker, which directory at or above it holds the marker. The answer
carries over only to queries at or below the scanned directory, and only as far as the scan can prove it.

* `AncestorScan`, `MarkerAnswer`;
* `AncestorScan.queryDirectory?` : where the search for a query begins;
* `AncestorScan.resolve` : the answer for one query and marker;
* `AncestorScan.isAffectedBy` : whether a change may falsify the answers.
-/

namespace RemoteFacts

/-- The answer for one marker and one query. -/
inductive MarkerAnswer where
  /-- The marker lies in this directory, at or above the query. -/
  | present (directory : Path)
  /-- No directory at or above the query holds the marker. -/
  | absent
  /-- The scan cannot tell. -/
  | unknown
  deriving Repr

/-- For each marker, the nearest directory at or above the scanned one that holds it. -/
structure AncestorScan where
  directory : Path
  markers : List (String × Option Path)
  deriving Repr

namespace AncestorScan

/-- Whether a change at `path` may falsify the answers: it is named like one of the markers. -/
def isAffectedBy (scan : AncestorScan) (path : Path) : Bool :=
  match path.fileName? with
  | some name => scan.markers.any (·.1 == name)
  | none => false

/-- The directory from which the search for `query` begins. A relative query has none, nor has one whose
dots could lead out of the scanned tree. -/
def queryDirectory? (scan : AncestorScan) (query : Path) : Option Path :=
  if !query.isAbsolute then none
  else if query.parts.any (fun part => part == .up || part == .here) then none
  else if query == scan.directory then some query
  else query.parent?

/-- The answer for `marker` at the file or directory `query`. A marker that the scan did not find may still
lie in a directory below the scanned one. -/
def resolve (scan : AncestorScan) (query : Path) (marker : String) : MarkerAnswer :=
  match scan.queryDirectory? query with
  | none => .unknown
  | some dir =>
    if !dir.startsWith scan.directory then .unknown
    else match scan.markers.lookup marker with
      | none => .unknown
      | some (some found) => if dir.startsWith found then .present found else .unknown
      | some none => if query == scan.directory then .absent else .unknown

end AncestorScan

end RemoteFacts
