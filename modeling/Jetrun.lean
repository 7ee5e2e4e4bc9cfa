import Jetrun.Lib.Chunks
import Jetrun.Lib.Delimiting
import Jetrun.Lib.Hex
import Jetrun.Lib.LittleEndian
import Jetrun.Lib.Marking
import Jetrun.Lib.Runs
import Jetrun.Lib.SortedMap
import Jetrun.Proofs.Digest
import Jetrun.Proofs.Tree
import Jetrun.Proofs.Gc
import Jetrun.Proofs.Names
import Jetrun.Hashing
import Jetrun.Proofs.Hashing
import Jetrun.Collecting
import Jetrun.Proofs.Collecting
import Jetrun.Proofs.Conn
import Jetrun.Framing
import Jetrun.Proofs.Framing
import Jetrun.Negotiation
import Jetrun.Proofs.Negotiation
import Jetrun.Streams
import Jetrun.Proofs.Streams
import Jetrun.Requests
import Jetrun.Jrp
import Jetrun.Proofs.Jrp
import Jetrun.Replies
import Jetrun.Proofs.Replies
import Jetrun.Proofs.Staging
import Jetrun.Authorizer
import Jetrun.Lib.Memo
import Jetrun.Grants
import Jetrun.Proofs.Authz
import Jetrun.Revocation
import Jetrun.Proofs.Revocation
import Jetrun.Staleness
import Jetrun.Proofs.Staleness
import Jetrun.Lib.Recency
import Jetrun.Webhook
import Jetrun.Http
import Jetrun.Deliveries
import Jetrun.Proofs.Verify
import Jetrun.Proofs.Http
import Jetrun.Proofs.Providers
import Jetrun.Trigger
import Jetrun.Proofs.Trigger
import Jetrun.Dedupe
import Jetrun.Proofs.Dedupe
import Jetrun.Lib.Building
import Jetrun.Lib.Traced
import Jetrun.Link
import Jetrun.Materialize
import Jetrun.Proofs.Materialize
import Jetrun.Manifest
import Jetrun.Proofs.Manifest
import Jetrun.Grammar
import Jetrun.Proofs.Grammar
import Jetrun.Lib.Purge
import Jetrun.Pushes
import Jetrun.Vocabulary
import Jetrun.Proofs.Pushes
import Jetrun.Proofs.Vocabulary
import Jetrun.PutFile
import Jetrun.Proofs.PutFile
import Jetrun.Lib.Volumes
import Jetrun.Machine
import Jetrun.Storing
import Jetrun.Proofs.Machine
import Jetrun.Proofs.Storing
import Jetrun.FileTree
import Jetrun.Proofs.FileTree
import Jetrun.Proofs.Ingest
import Jetrun.Proofs.WriteOut
import Jetrun.Reflinks
import Jetrun.Proofs.Reflinks
import Jetrun.Proofs.RoundTrip
import Jetrun.Proofs.Sweep
import Jetrun.Ledger
import Jetrun.Proofs.Ledger
import Jetrun.Proofs.Depth
import Jetrun.Proofs.Unfold
import Jetrun.Tenancy
import Jetrun.Proofs.Tenancy
import Jetrun.Bootstrap
import Jetrun.Proofs.Bootstrap
import Jetrun.Lib.PowerLoss
import Jetrun.Durable
import Jetrun.Proofs.Durable
import Jetrun.Proofs.Retry
import Jetrun.PowerCut
import Jetrun.Proofs.PowerCut
import Jetrun.Proofs.Sizes
import Jetrun.Racing
import Jetrun.Proofs.Racing
import Jetrun.Sharing
import Jetrun.Proofs.Sharing
import Jetrun.Proofs.Reclaim
import Jetrun.Lib.Locking
import Jetrun.Lib.Referential
import Jetrun.Lib.Skew
import Jetrun.Migrations
import Jetrun.Proofs.Migrations
import Jetrun.Concurrent
import Jetrun.Proofs.Concurrent
import Jetrun.Lib.Dialogue
import Jetrun.Dialing
import Jetrun.Proofs.Dialing
import Jetrun.Lib.Watch
import Jetrun.Shutdown
import Jetrun.Proofs.Shutdown
import Jetrun.Starting
import Jetrun.Proofs.Starting
import Jetrun.Proofs.Resuming
import Jetrun.Promotion
import Jetrun.Proofs.Promotion
import Jetrun.Lib.Aging
import Jetrun.Unlocked
import Jetrun.Proofs.Unlocked
import Jetrun.Proofs.Undisturbed
