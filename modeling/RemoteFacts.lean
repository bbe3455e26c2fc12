import RemoteFacts.Cache.History
import RemoteFacts.Json.Reader
import RemoteFacts.Main
import RemoteFacts.Path.Lemmas
import RemoteFacts.Rehearsal.Script
import RemoteFacts.Suppression.History
import RemoteFacts.Watch.History
import RemoteFacts.Proofs.Cache.Entries
import RemoteFacts.Proofs.Change
import RemoteFacts.Proofs.Session.Advance
import RemoteFacts.Proofs.Session.Table
import RemoteFacts.Proofs.Coherence.Current
import RemoteFacts.Proofs.Coherence.Dates
import RemoteFacts.Proofs.Coherence.Facts
import RemoteFacts.Proofs.Coherence.Scan
import RemoteFacts.Proofs.Cache.Room
import RemoteFacts.Proofs.Prefetch.Batch
import RemoteFacts.Proofs.Prefetch.Course
import RemoteFacts.Proofs.Prefetch.Failure
import RemoteFacts.Proofs.Prefetch.Success
import RemoteFacts.Proofs.Coherence.OwnChange
import RemoteFacts.Proofs.Prefetch.Serial
import RemoteFacts.Proofs.Prefetch.Served
import RemoteFacts.Proofs.Session.Closed
import RemoteFacts.Proofs.Suppression.Scopes
import RemoteFacts.Proofs.Cache.Course
import RemoteFacts.Proofs.Cache.Latest
import RemoteFacts.Proofs.Cache.Alike
import RemoteFacts.Proofs.Cache.Expiry
import RemoteFacts.Proofs.Session.Asked
import RemoteFacts.Proofs.Session.Told
import RemoteFacts.Proofs.Session.Desk
import RemoteFacts.Proofs.Session.Accepted
import RemoteFacts.Proofs.Watch.Ledger
import RemoteFacts.Proofs.Watch.Exchange
import RemoteFacts.Proofs.Session.AtRest
import RemoteFacts.Proofs.Spelling.Paths
import RemoteFacts.Proofs.Spelling.Facts
import RemoteFacts.Proofs.Spelling.Watches
import RemoteFacts.Proofs.Spelling.Steps
import RemoteFacts.Proofs.Cache.Eviction
import RemoteFacts.Proofs.Prefetch.Strays
import RemoteFacts.Proofs.Coherence.Distinct
import RemoteFacts.Proofs.Coherence.Coverage
import RemoteFacts.Proofs.Marker.Tree
import RemoteFacts.Proofs.Marker.Change
import RemoteFacts.Proofs.Session.Counts
import RemoteFacts.Proofs.Session.Unwatched
import RemoteFacts.Proofs.Cache.Balance
import RemoteFacts.Proofs.Prefetch.Plan
import RemoteFacts.Proofs.Prefetch.Origin
import RemoteFacts.Proofs.Config.Setting
import RemoteFacts.Proofs.Prefetch.Root
