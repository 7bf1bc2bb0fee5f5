import IrohRooms.Lib.OrdMap
import IrohRooms.Lib.Staged
import IrohRooms.Lib.Worklist
import IrohRooms.Lib.Cursor
import IrohRooms.Lib.Ancestry
import IrohRooms.Lib.LastWrite
import IrohRooms.Lib.Sweep
import IrohRooms.Lib.Grouping
import IrohRooms.Event.Ids
import IrohRooms.Event.Content
import IrohRooms.Event.Validate
import IrohRooms.Event.Build
import IrohRooms.Event.Encrypted
import IrohRooms.Event.Cbor
import IrohRooms.Event.CborExact
import IrohRooms.Membership.Model
import IrohRooms.Membership.Fold
import IrohRooms.Membership.Graph
import IrohRooms.Membership.Invariant
import IrohRooms.Membership.Convergence
import IrohRooms.Membership.Snapshot
import IrohRooms.Membership.Authenticity
import IrohRooms.Membership.Join
import IrohRooms.Membership.Sticky
import IrohRooms.Membership.Access
import IrohRooms.Membership.Progress
import IrohRooms.Membership.Cap
import IrohRooms.Membership.Pending
import IrohRooms.Membership.Divergence
import IrohRooms.Store.EventStore
import IrohRooms.Store.Columns
import IrohRooms.Store.Rebuild
import IrohRooms.Sync.Keys
import IrohRooms.Sync.Reads
import IrohRooms.Sync.Engine
import IrohRooms.Sync.Invariant
import IrohRooms.Sync.Completeness
import IrohRooms.Net.Pipe
import IrohRooms.Net.Admission
import IrohRooms.Net.Blob
import IrohRooms.Net.Node
import IrohRooms.Sync.EpochSlot
import IrohRooms.Sync.KeyConvergence
import IrohRooms.Sync.Frame
import IrohRooms.Sync.KeyHistory
import IrohRooms.Sync.Suspicion
import IrohRooms.Governance.Model
import IrohRooms.Governance.State
import IrohRooms.Governance.Authz
import IrohRooms.Governance.Machine
import IrohRooms.Governance.Lineage
import IrohRooms.Governance.Resolution
import IrohRooms.Governance.Invariant
import IrohRooms.Governance.Soundness
import IrohRooms.Governance.Exactness
import IrohRooms.Governance.Audit
import IrohRooms.Governance.Convergence
import IrohRooms.Sync.Serve
import IrohRooms.Net.Links
import IrohRooms.Net.Pump
import IrohRooms.Net.Provisional
import IrohRooms.Net.Planes
import IrohRooms.Sync.Stored
import IrohRooms.Sync.Rest
import IrohRooms.Net.Unproven
import IrohRooms.Sync.Carried
import IrohRooms.Sync.Vigilance
import IrohRooms.Sync.Restart
import IrohRooms.Sync.KeyRestart
import IrohRooms.Event.Codec
import IrohRooms.Event.FieldsExact
import IrohRooms.Event.ContentExact
import IrohRooms.Event.SignedExact
import IrohRooms.Event.Wire
import IrohRooms.Sync.MoreKeys
import IrohRooms.Governance.WellFormed
import IrohRooms.Governance.ForkTree
import IrohRooms.Governance.ForkSet
import IrohRooms.Event.Delimited
import IrohRooms.Lib.MerkleTree
import IrohRooms.Governance.Fields
import IrohRooms.Member.Projected
import IrohRooms.Member.Sorted
import IrohRooms.Member.Levels
import IrohRooms.Member.MerkleMap
import IrohRooms.Member.Inclusion
import IrohRooms.Governance.Commitment
import IrohRooms.Governance.Decode
import IrohRooms.Governance.GenesisExact
import IrohRooms.Governance.EntryVerify
import IrohRooms.Lib.Rounds
import IrohRooms.RoomGovernance.Fork
import IrohRooms.RoomGovernance.Fold
import IrohRooms.RoomGovernance.Runs
import IrohRooms.RoomGovernance.Authorship
import IrohRooms.RoomGovernance.Quorum
import IrohRooms.Member.Position
import IrohRooms.Governance.CborV2
import IrohRooms.Member.ProofCodec
import IrohRooms.Member.Deltas
import IrohRooms.Sync.Projection
import IrohRooms.Governance.Successors
import IrohRooms.Member.MapProjection
import IrohRooms.Member.Tracking
import IrohRooms.Sync.Sends
import IrohRooms.Sync.Alike
import IrohRooms.Sync.Batch
import IrohRooms.Sync.Dedup
import IrohRooms.Event.CborNormal
import IrohRooms.Sync.Message
import IrohRooms.Lib.Batching
import IrohRooms.Lib.Rotation
import IrohRooms.Sync.Emission
import IrohRooms.Sync.Pulls
import IrohRooms.Sync.MembershipHave
import IrohRooms.Sync.Flood
import IrohRooms.Lib.Closure
import IrohRooms.Sync.Served
import IrohRooms.Lib.Journal
import IrohRooms.Sync.Journal
import IrohRooms.Sync.Amplification
import IrohRooms.Sync.Recovery
import IrohRooms.Sync.Causality
import IrohRooms.Sync.BatchSize
import IrohRooms.Event.Readback
import IrohRooms.Event.Sealed
import IrohRooms.Lib.Base32
import IrohRooms.Ticket
import IrohRooms.Net.PeerTable
import IrohRooms.Net.ConnEvents
import IrohRooms.Lib.Lanes
import IrohRooms.Net.Queue
import IrohRooms.Net.Shared
import IrohRooms.Net.Manager
import IrohRooms.Net.Lifecycle
import IrohRooms.Lib.Search
import IrohRooms.Membership.Heads
import IrohRooms.Membership.Memo
import IrohRooms.Lib.SparseTree
import IrohRooms.Member.Sparse
import IrohRooms.Member.SparseProof
import IrohRooms.RoomGovernance.EntryExact
import IrohRooms.RoomGovernance.Checkpoint
import IrohRooms.ContentV2.Validate
import IrohRooms.ContentV2.Body
import IrohRooms.ContentV2.Event
import IrohRooms.Lib.Turns
import IrohRooms.RoomGovernance.Chain
import IrohRooms.RoomGovernance.Equivocation
import IrohRooms.Net.Gossip
import IrohRooms.Lib.Framing
import IrohRooms.Net.Stream
import IrohRooms.Sync.Talk
import IrohRooms.Sync.Outbound
import IrohRooms.Sync.Provenance
import IrohRooms.Sync.Spending
import IrohRooms.Sync.Mesh
import IrohRooms.Sync.Traffic
import IrohRooms.Sync.Digest
import IrohRooms.Sync.CatchUp
import IrohRooms.Lib.Moments
import IrohRooms.Net.PipePlane
import IrohRooms.Net.PipeSupervision
import IrohRooms.Net.PipeGrants
import IrohRooms.Net.PipeWatch
