import Federlet.Library.Keyed
import Federlet.Library.Task
import Federlet.Library.Pool
import Federlet.Reasons
import Federlet.Time
import Federlet.Json
import Federlet.Models
import Federlet.Crypto
import Federlet.Library.Ledger
import Federlet.Membership
import Federlet.World
import Federlet.Net
import Federlet.Signing
import Federlet.Admission
import Federlet.Client
import Federlet.Refresh
import Federlet.Discovery
import Federlet.Node
import Federlet.Backoff
import Federlet.Canonical
import Federlet.Authentication
import Federlet.Replay
import Federlet.Continuity
import Federlet.Nonces
import Federlet.Operations
import Federlet.Revocation
import Federlet.Coherence
import Federlet.Eviction
import Federlet.Rollback
import Federlet.Failure
import Federlet.Library.Sift
import Federlet.Round
import Federlet.Hints
import Federlet.Alone
import Federlet.Convergence
import Federlet.Trust
import Federlet.Records
import Federlet.OwnRecord
import Federlet.Notices
import Federlet.Recovery
import Federlet.Disclosure
import Federlet.Isolation
import Federlet.Persistence
import Federlet.SigningKeys
import Federlet.Library.Assoc
import Federlet.NormalForm
import Federlet.Wire
import Federlet.Messages
import Federlet.Separation
import Federlet.Freshness
import Federlet.Library.Pieces
import Federlet.Domains
import Federlet.RequestPath
import Federlet.Certificates
import Federlet.Library.Reservoir
import Federlet.RateLimit
import Federlet.Fetches
import Federlet.OnePeer
import Federlet.Bystanders
import Federlet.Completion
import Federlet.Writes
import Federlet.Takeover
import Federlet.Overruling
import Federlet.Calls
import Federlet.Library.Gather
import Federlet.Departures
import Federlet.FanOut
import Federlet.Host
import Federlet.HostRequests
import Federlet.HostThreads
import Federlet.Republication
import Federlet.Interleavings
import Federlet.Probes
import Federlet.Urls
import Federlet.Sessions
