import Mathlib.Data.String.Basic
import IrohRooms.Lib.OrdMap
import IrohRooms.Event.Cbor

/-!
# Records of the governance log

Identifiers, the six components of a governance state, the closed registry of operations and the signed entries, each
with its canonical CBOR form. The registry's values never hold a `null`, so the codec is the one of the signed events.
-/

namespace IrohRooms.Governance

/-! ### Identifiers -/

/-- What a 32-byte identifier names. -/
inductive IdKind
  | community | governance | principal | device | replica | stream | stateRoot | digest
  deriving DecidableEq, Repr

/-- Thirty-two bytes, read as a big-endian number. -/
structure Id (kind : IdKind) where
  bits : BitVec 256
  deriving Repr

namespace Id

variable {kind : IdKind}

def num (x : Id kind) : Nat := x.bits.toNat

theorem num_injective : Function.Injective (num : Id kind → Nat) := by
  rintro ⟨x⟩ ⟨y⟩ h
  exact congrArg Id.mk (BitVec.eq_of_toNat_eq h)

instance : LinearOrder (Id kind) := LinearOrder.lift' num num_injective

def asBytes (x : Id kind) : Bytes := beBytes 32 x.num

def ofNat (n : Nat) : Id kind := ⟨BitVec.ofNat 256 n⟩

def toCbor (x : Id kind) : CborValue := .bytes x.asBytes

end Id

abbrev CommunityId := Id .community

/-- The hash of an entry's exact canonical signed bytes. -/
abbrev GovernanceId := Id .governance

/-- The Ed25519 key of a member, administrator or recovery principal. -/
abbrev PrincipalId := Id .principal

abbrev DeviceId := Id .device

abbrev ReplicaId := Id .replica

abbrev StreamId := Id .stream

abbrev StateRoot := Id .stateRoot

/-- Bare 32 bytes: invite ids, migration ids and component roots. -/
abbrev Digest := Id .digest

inductive Reject
  | nonCanonicalEncoding | unknownVersion | unknownRecordKind | unknownContentKind | invalidContent | idMismatch
  | badSignature | wrongDomain | missingDependency | insufficientAuthorization | invalidApproval | forkDetected
  | unresolvedFork | invalidForkResolution | stateRootMismatch | snapshotHashMismatch | invalidMerkleProof
  deriving DecidableEq, Repr

/-! ### Hashing -/

/-- `BLAKE3(context || payload)`. -/
def blake3Domain (env : Env) (context : String) (payload : Bytes) : BitVec 256 :=
  env.blake3 (contextBytes context ++ payload)

def signingMessage (context : String) (payload : Bytes) : Bytes := contextBytes context ++ payload

namespace Domain

def community : String := "iroh-room-v2/community"

def governanceEntry : String := "iroh-room-v2/governance-entry"

def governanceApproval : String := "iroh-room-v2/governance-approval"

def governanceState : String := "iroh-room-v2/governance-state"

def memberLeaf : String := "iroh-room-v2/member-leaf"

def merkleNode : String := "iroh-room-v2/merkle-node"

end Domain

/-! ### Roles and statuses -/

inductive Role
  | member | agent | admin
  deriving DecidableEq, Repr

def Role.asStr : Role → String
  | .member => "member"
  | .agent => "agent"
  | .admin => "admin"

def Role.toCbor (r : Role) : CborValue := .text r.asStr

inductive MemberStatus
  | active | revoked
  deriving DecidableEq, Repr

def MemberStatus.asStr : MemberStatus → String
  | .active => "active"
  | .revoked => "revoked"

inductive DeviceStatus
  | active | revoked
  deriving DecidableEq, Repr

inductive ReplicaStatus
  | active | disabled
  deriving DecidableEq, Repr

def ReplicaStatus.toCbor : ReplicaStatus → CborValue
  | .active => .text "active"
  | .disabled => .text "disabled"

/-! ### Configuration and state records -/

structure RecoveryConfig where
  threshold : UInt16
  recoveryKeys : List PrincipalId

namespace RecoveryConfig

def canonicalize (c : RecoveryConfig) : RecoveryConfig := { c with recoveryKeys := OrdSet.sortDedup c.recoveryKeys }

def toCbor (c : RecoveryConfig) : CborValue :=
  .map [("threshold", .uint c.threshold.toUInt64), ("recovery_keys", .array (c.recoveryKeys.map Id.toCbor))]

end RecoveryConfig

structure ReplicaDescriptor where
  replicaId : ReplicaId
  endpoint : Bytes
  capability : UInt8
  deriving DecidableEq

def ReplicaDescriptor.toCbor (d : ReplicaDescriptor) : CborValue :=
  .map [("replica_id", d.replicaId.toCbor), ("endpoint", .bytes d.endpoint),
    ("capability", .uint d.capability.toUInt64)]

structure StreamPolicy where
  access : UInt8

def StreamPolicy.toCbor (p : StreamPolicy) : CborValue := .map [("access", .uint p.access.toUInt64)]

/-- What a resolution leaves in the state. -/
structure ResolvedForkMarker where
  branchHeads : List GovernanceId
  selectedHead : GovernanceId
  selectedStateRoot : StateRoot
  createdAtMs : UInt64

namespace ResolvedForkMarker

def toCbor (m : ResolvedForkMarker) : CborValue :=
  .map [("branch_heads", .array (m.branchHeads.map Id.toCbor)), ("selected_head", m.selectedHead.toCbor),
    ("selected_state_root", m.selectedStateRoot.toCbor), ("created_at_ms", .uint m.createdAtMs)]

/-- Stable sort by the canonical encoding. -/
def sort (markers : List ResolvedForkMarker) : List ResolvedForkMarker :=
  markers.insertionSort fun a b => Cbor.encode a.toCbor ≤ Cbor.encode b.toCbor

end ResolvedForkMarker

structure CommunityPolicy where
  revokedInvites : OrdSet Digest
  forkMarkers : List ResolvedForkMarker
  migrations : OrdSet Digest

namespace CommunityPolicy

def empty : CommunityPolicy := ⟨OrdMap.empty, [], OrdMap.empty⟩

def toCbor (p : CommunityPolicy) : CborValue :=
  .map [("revoked_invites", .array (p.revokedInvites.toList.map Id.toCbor)),
    ("fork_markers", .array ((ResolvedForkMarker.sort p.forkMarkers).map ResolvedForkMarker.toCbor)),
    ("migrations", .array (p.migrations.toList.map Id.toCbor))]

end CommunityPolicy

structure AdministratorState where
  administrators : List PrincipalId
  threshold : UInt16

def AdministratorState.toCbor (a : AdministratorState) : CborValue :=
  .map [("administrators", .array (a.administrators.map Id.toCbor)), ("threshold", .uint a.threshold.toUInt64)]

structure RecoveryState where
  config : RecoveryConfig

structure ReplicaRecord where
  descriptor : ReplicaDescriptor
  status : ReplicaStatus

def ReplicaRecord.toCbor (r : ReplicaRecord) : CborValue :=
  .map [("descriptor", r.descriptor.toCbor), ("status", r.status.toCbor)]

structure DeviceRecord where
  deviceId : DeviceId
  status : DeviceStatus
  binding : Bytes

structure MemberRecord where
  memberId : PrincipalId
  roles : List Role
  status : MemberStatus
  devices : OrdMap DeviceId DeviceRecord
  grantSeq : UInt64
  revokeSeq : Option UInt64
  profile : Option Bytes

structure StreamRecord where
  streamId : StreamId
  policy : StreamPolicy
  archived : Bool
  createdAtMs : UInt64

def StreamRecord.toCbor (r : StreamRecord) : CborValue :=
  .map [("stream_id", r.streamId.toCbor), ("policy", r.policy.toCbor),
    ("archived", .uint (if r.archived then 1 else 0)), ("created_at_ms", .uint r.createdAtMs)]

/-! ### Operations -/

inductive GovernanceOperationKind
  | memberGrant | memberRevoke | memberRoleSet | deviceGrant | deviceRevoke | adminSet | recoverySet | replicaSet
  | streamCreate | streamPolicySet | streamArchive | inviteRevoke | policySet | forkResolve | migrationAccept
  deriving DecidableEq, Repr

/-- The wire name of an operation. -/
def GovernanceOperationKind.asStr : GovernanceOperationKind → String
  | .memberGrant => "member.grant"
  | .memberRevoke => "member.revoke"
  | .memberRoleSet => "member.role_set"
  | .deviceGrant => "device.grant"
  | .deviceRevoke => "device.revoke"
  | .adminSet => "admin.set"
  | .recoverySet => "recovery.set"
  | .replicaSet => "replica.set"
  | .streamCreate => "stream.create"
  | .streamPolicySet => "stream.policy_set"
  | .streamArchive => "stream.archive"
  | .inviteRevoke => "invite.revoke"
  | .policySet => "policy.set"
  | .forkResolve => "fork.resolve"
  | .migrationAccept => "migration.accept"

structure MemberGrant where
  memberId : PrincipalId
  roles : List Role
  profile : Option Bytes

structure MemberRevoke where
  memberId : PrincipalId

structure MemberRoleSet where
  memberId : PrincipalId
  roles : List Role

structure DeviceGrant where
  memberId : PrincipalId
  deviceId : DeviceId
  binding : Bytes

structure DeviceRevoke where
  memberId : PrincipalId
  deviceId : DeviceId

structure AdminSet where
  administrators : List PrincipalId
  threshold : UInt16

structure RecoverySet where
  recovery : RecoveryConfig

structure ReplicaSet where
  replica : ReplicaDescriptor
  status : ReplicaStatus

structure StreamCreate where
  streamId : StreamId
  policy : StreamPolicy
  createdAtMs : UInt64

structure StreamPolicySet where
  streamId : StreamId
  policy : StreamPolicy

structure StreamArchive where
  streamId : StreamId
  archived : Bool

structure InviteRevoke where
  inviteId : Digest

structure PolicySet where
  policy : CommunityPolicy

structure ForkResolve where
  branchHeads : List GovernanceId
  selectedHead : GovernanceId
  selectedStateRoot : StateRoot
  createdAtMs : UInt64

/-- The marker that a resolution folds into the community policy. -/
def ForkResolve.marker (p : ForkResolve) : ResolvedForkMarker :=
  ⟨p.branchHeads, p.selectedHead, p.selectedStateRoot, p.createdAtMs⟩

structure MigrationAccept where
  migrationId : Digest

inductive GovernanceOperationPayload
  | memberGrant (p : MemberGrant)
  | memberRevoke (p : MemberRevoke)
  | memberRoleSet (p : MemberRoleSet)
  | deviceGrant (p : DeviceGrant)
  | deviceRevoke (p : DeviceRevoke)
  | adminSet (p : AdminSet)
  | recoverySet (p : RecoverySet)
  | replicaSet (p : ReplicaSet)
  | streamCreate (p : StreamCreate)
  | streamPolicySet (p : StreamPolicySet)
  | streamArchive (p : StreamArchive)
  | inviteRevoke (p : InviteRevoke)
  | policySet (p : PolicySet)
  | forkResolve (p : ForkResolve)
  | migrationAccept (p : MigrationAccept)

namespace GovernanceOperationPayload

def kind : GovernanceOperationPayload → GovernanceOperationKind
  | memberGrant _ => .memberGrant
  | memberRevoke _ => .memberRevoke
  | memberRoleSet _ => .memberRoleSet
  | deviceGrant _ => .deviceGrant
  | deviceRevoke _ => .deviceRevoke
  | adminSet _ => .adminSet
  | recoverySet _ => .recoverySet
  | replicaSet _ => .replicaSet
  | streamCreate _ => .streamCreate
  | streamPolicySet _ => .streamPolicySet
  | streamArchive _ => .streamArchive
  | inviteRevoke _ => .inviteRevoke
  | policySet _ => .policySet
  | forkResolve _ => .forkResolve
  | migrationAccept _ => .migrationAccept

/-- The resolution an operation carries, if it is one. -/
def resolve? : GovernanceOperationPayload → Option ForkResolve
  | forkResolve p => some p
  | _ => none

def toCbor : GovernanceOperationPayload → CborValue
  | memberGrant p =>
    .map ([("member_id", p.memberId.toCbor), ("roles", .array (p.roles.map Role.toCbor))] ++
      (p.profile.map fun b => ("profile", CborValue.bytes b)).toList)
  | memberRevoke p => .map [("member_id", p.memberId.toCbor)]
  | memberRoleSet p => .map [("member_id", p.memberId.toCbor), ("roles", .array (p.roles.map Role.toCbor))]
  | deviceGrant p =>
    .map [("member_id", p.memberId.toCbor), ("device_id", p.deviceId.toCbor), ("binding", .bytes p.binding)]
  | deviceRevoke p => .map [("member_id", p.memberId.toCbor), ("device_id", p.deviceId.toCbor)]
  | adminSet p =>
    .map [("administrators", .array (p.administrators.map Id.toCbor)), ("threshold", .uint p.threshold.toUInt64)]
  | recoverySet p => p.recovery.toCbor
  | replicaSet p => .map [("replica", p.replica.toCbor), ("status", p.status.toCbor)]
  | streamCreate p =>
    .map [("stream_id", p.streamId.toCbor), ("policy", p.policy.toCbor), ("created_at_ms", .uint p.createdAtMs)]
  | streamPolicySet p => .map [("stream_id", p.streamId.toCbor), ("policy", p.policy.toCbor)]
  | streamArchive p => .map [("stream_id", p.streamId.toCbor), ("archived", .uint (if p.archived then 1 else 0))]
  | inviteRevoke p => .map [("invite_id", p.inviteId.toCbor)]
  | policySet p => p.policy.toCbor
  | forkResolve p => p.marker.toCbor
  | migrationAccept p => .map [("migration_id", p.migrationId.toCbor)]

end GovernanceOperationPayload

/-! ### Signed entries -/

structure GovernanceEntryBody where
  communityId : CommunityId
  seq : UInt64
  prev : Option GovernanceId
  createdAtMs : UInt64
  kind : GovernanceOperationKind
  payload : GovernanceOperationPayload
  stateRoot : StateRoot

namespace GovernanceEntryBody

def toCbor (b : GovernanceEntryBody) : CborValue :=
  .map ([("community_id", b.communityId.toCbor), ("seq", .uint b.seq), ("created_at_ms", .uint b.createdAtMs),
    ("kind", .text b.kind.asStr), ("payload", b.payload.toCbor), ("state_root", b.stateRoot.toCbor)] ++
      (b.prev.map fun id => ("prev", id.toCbor)).toList)

/-- What decoding guarantees: the kind is the payload's, the first entry and no other is without a predecessor, and a
resolution lists at least two branches in ascending order, the selected one among them. -/
structure Canonical (b : GovernanceEntryBody) : Prop where
  kind : b.kind = b.payload.kind
  seq : b.seq ≠ 0
  prev : b.prev = none ↔ b.seq = 1
  heads : ∀ p, b.payload.resolve? = some p →
    p.branchHeads.Pairwise (· < ·) ∧ 2 ≤ p.branchHeads.length ∧ p.selectedHead ∈ p.branchHeads

end GovernanceEntryBody

def entryCsb (body : GovernanceEntryBody) : Bytes := Cbor.encode body.toCbor

def entryIdFromCsb (env : Env) (csb : Bytes) : GovernanceId := ⟨blake3Domain env Domain.governanceEntry csb⟩

structure GovernanceApprovalBody where
  communityId : CommunityId
  entryId : GovernanceId
  stateRoot : StateRoot
  approver : PrincipalId
  createdAtMs : UInt64

def GovernanceApprovalBody.toCbor (b : GovernanceApprovalBody) : CborValue :=
  .map [("community_id", b.communityId.toCbor), ("entry_id", b.entryId.toCbor), ("state_root", b.stateRoot.toCbor),
    ("approver", b.approver.toCbor), ("created_at_ms", .uint b.createdAtMs)]

def approvalCsb (body : GovernanceApprovalBody) : Bytes := Cbor.encode body.toCbor

structure VerifiedGovernanceApprovalEvidence where
  body : GovernanceApprovalBody
  csb : Bytes
  signature : Signature

/-- An entry with its exact signed bytes, its signature and its approvals, as the audit keeps it. -/
structure AuthenticatedGovernanceEvidence where
  id : GovernanceId
  body : GovernanceEntryBody
  csb : Bytes
  signer : PrincipalId
  signature : Signature
  approvals : List VerifiedGovernanceApprovalEvidence

namespace AuthenticatedGovernanceEvidence

/-- The entry's signer and its approvers, each once. -/
def signers (e : AuthenticatedGovernanceEvidence) : OrdSet PrincipalId :=
  (OrdSet.ofList [e.signer]).extend (e.approvals.map fun a => a.body.approver)

/-- One approval signed by its approver over exactly this entry. -/
structure Approves (env : Env) (e : AuthenticatedGovernanceEvidence) (a : VerifiedGovernanceApprovalEvidence) :
    Prop where
  csb : a.csb = approvalCsb a.body
  signature : env.verify a.body.approver.bits (signingMessage Domain.governanceApproval a.csb) a.signature = true
  community : a.body.communityId = e.body.communityId
  entry : a.body.entryId = e.id
  root : a.body.stateRoot = e.body.stateRoot

/-- What verification establishes of an entry: the id and the signature are over the bytes that the canonical body
encodes to, and the approvers are distinct. -/
structure Verified (env : Env) (e : AuthenticatedGovernanceEvidence) : Prop where
  body : e.body.Canonical
  csb : e.csb = entryCsb e.body
  id : e.id = entryIdFromCsb env e.csb
  signature : env.verify e.signer.bits (signingMessage Domain.governanceEntry e.csb) e.signature = true
  approvers : (e.approvals.map fun a => a.body.approver).Nodup
  approvals : ∀ a ∈ e.approvals, Approves env e a

end AuthenticatedGovernanceEvidence

structure VerifiedGovernanceEntry (env : Env) where
  evidence : AuthenticatedGovernanceEvidence
  verified : evidence.Verified env

namespace VerifiedGovernanceEntry

variable {env : Env}

def id (e : VerifiedGovernanceEntry env) : GovernanceId := e.evidence.id

def body (e : VerifiedGovernanceEntry env) : GovernanceEntryBody := e.evidence.body

/-- A canonical body sealed by one key, without approvals. -/
def sign (env : Env) (key : SigningKey) (body : GovernanceEntryBody) (h : body.Canonical) :
    VerifiedGovernanceEntry env where
  evidence :=
    { id := entryIdFromCsb env (entryCsb body)
      body := body
      csb := entryCsb body
      signer := ⟨env.publicKey key⟩
      signature := env.sign key (signingMessage Domain.governanceEntry (entryCsb body))
      approvals := [] }
  verified := ⟨h, rfl, rfl, env.verify_sign _ _, List.nodup_nil, by simp⟩

end VerifiedGovernanceEntry

end IrohRooms.Governance
