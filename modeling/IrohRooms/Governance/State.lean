import IrohRooms.Governance.Model

/-!
# Governance state, its root and its transitions

The six components of a state, the root that commits to them, and one pure transition per operation. `applyEntry`
runs an operation at its authenticated sequence number.
-/

namespace IrohRooms.Governance

structure GovernanceState where
  communityId : CommunityId
  acceptedSeq : UInt64
  administrators : AdministratorState
  recovery : RecoveryState
  replicas : OrdMap ReplicaId ReplicaRecord
  members : OrdMap PrincipalId MemberRecord
  streams : OrdMap StreamId StreamRecord
  policy : CommunityPolicy

/-! ### Member tree -/

structure ActiveDevice where
  deviceId : DeviceId
  binding : Bytes

/-- The part of a member record that its leaf commits to. -/
structure ProjectedMemberRecord where
  memberId : PrincipalId
  status : MemberStatus
  roles : List String
  activeDevices : List ActiveDevice
  grantSeq : UInt64
  revokeSeq : Option UInt64
  profile : Option Bytes

def ProjectedMemberRecord.toCbor (r : ProjectedMemberRecord) : CborValue :=
  .map ([("member_id", r.memberId.toCbor), ("status", .text r.status.asStr),
    ("roles", .array (r.roles.map CborValue.text)),
    ("active_devices", .array (r.activeDevices.map fun d =>
      .map [("device_id", d.deviceId.toCbor), ("binding", .bytes d.binding)])),
    ("grant_seq", .uint r.grantSeq)] ++
      (r.revokeSeq.map fun seq => ("revoke_seq", CborValue.uint seq)).toList ++
      (r.profile.map fun b => ("profile", CborValue.bytes b)).toList)

def projectGovernanceMemberUnchecked (m : MemberRecord) : ProjectedMemberRecord where
  memberId := m.memberId
  status := m.status
  roles := OrdSet.sortDedup (m.roles.map Role.asStr)
  activeDevices := (m.devices.values.filter fun d => d.status = .active).map fun d => ⟨d.deviceId, d.binding⟩
  grantSeq := m.grantSeq
  revokeSeq := m.revokeSeq
  profile := m.profile

section Roots

variable (env : Env)

def memberLeafHash (canonicalRecord : Bytes) : Digest := ⟨blake3Domain env Domain.memberLeaf canonicalRecord⟩

def merkleNodeHash (left right : Digest) : Digest :=
  ⟨blake3Domain env Domain.merkleNode (left.asBytes ++ right.asBytes)⟩

def emptyMemberRoot : Digest := ⟨blake3Domain env Domain.merkleNode [0x40]⟩

/-- One level of the tree: neighbours paired, an odd last node promoted unchanged. -/
def pairLevel : List Digest → List Digest
  | left :: right :: rest => merkleNodeHash env left right :: pairLevel rest
  | rest => rest

/-- Level after level until one node is left; each level is shorter, so the length is fuel enough. -/
def reduceLevels : Nat → List Digest → Digest
  | _, [] => emptyMemberRoot env
  | _, [root] => root
  | 0, root :: _ => root
  | n + 1, level => reduceLevels n (pairLevel env level)

def membersDevicesRolesRoot (state : GovernanceState) : Digest :=
  let leaves := state.members.values.map fun m =>
    memberLeafHash env (Cbor.encode (projectGovernanceMemberUnchecked m).toCbor)
  reduceLevels env leaves.length leaves

/-! ### State root -/

def componentRoot (label : String) (value : CborValue) : Digest :=
  ⟨blake3Domain env Domain.governanceState (Cbor.encode (.map [("label", .text label), ("value", value)]))⟩

structure GovernanceStateRootRecord where
  administratorsRoot : Digest
  recoveryRoot : Digest
  replicasRoot : Digest
  membersDevicesRolesRoot : Digest
  streamManifestRoot : Digest
  communityPolicyRoot : Digest

def GovernanceStateRootRecord.toCbor (r : GovernanceStateRootRecord) : CborValue :=
  .array [r.administratorsRoot.toCbor, r.recoveryRoot.toCbor, r.replicasRoot.toCbor,
    r.membersDevicesRolesRoot.toCbor, r.streamManifestRoot.toCbor, r.communityPolicyRoot.toCbor]

def governanceStateRootRecord (state : GovernanceState) : GovernanceStateRootRecord where
  administratorsRoot := componentRoot env "administrators" state.administrators.toCbor
  recoveryRoot := componentRoot env "recovery" state.recovery.config.toCbor
  replicasRoot := componentRoot env "replicas" (.array (state.replicas.values.map ReplicaRecord.toCbor))
  membersDevicesRolesRoot := membersDevicesRolesRoot env state
  streamManifestRoot := componentRoot env "stream_manifest" (.array (state.streams.values.map StreamRecord.toCbor))
  communityPolicyRoot := componentRoot env "community_policy" state.policy.toCbor

def computeStateRoot (state : GovernanceState) : StateRoot :=
  ⟨blake3Domain env Domain.governanceState (Cbor.encode (governanceStateRootRecord env state).toCbor)⟩

def verifyStateRoot (state : GovernanceState) (expected : StateRoot) : Except Reject Unit :=
  if computeStateRoot env state = expected then .ok () else .error .stateRootMismatch

end Roots

/-! ### Transitions -/

/-- `checked_add(1)`. -/
def checkedSucc (n : UInt64) : Option UInt64 := if n.toNat + 1 < 2 ^ 64 then some (n + 1) else none

/-- Whether some neighbours of a list are related. -/
def windowsAny {α : Type} (r : α → α → Bool) : List α → Bool
  | a :: b :: l => r a b || windowsAny r (b :: l)
  | _ => false

/-- A role set that is empty, unsorted or has a duplicate. -/
def rolesMalformed (roles : List Role) : Bool :=
  roles.isEmpty || windowsAny (fun a b => decide (b.asStr ≤ a.asStr)) roles

def applyMemberGrantAt (old : GovernanceState) (p : MemberGrant) (seq : UInt64) : Except Reject GovernanceState :=
  if rolesMalformed p.roles then .error .invalidContent
  else
    let member : MemberRecord := match old.members.get? p.memberId with
      | some m =>
        { m with roles := p.roles, status := .active, grantSeq := seq, revokeSeq := none, profile := p.profile }
      | none => ⟨p.memberId, p.roles, .active, OrdMap.empty, seq, none, p.profile⟩
    .ok { old with members := old.members.insert p.memberId member }

def applyMemberRevokeAt (old : GovernanceState) (p : MemberRevoke) (seq : UInt64) : Except Reject GovernanceState :=
  match old.members.get? p.memberId with
  | some m =>
    if m.status = .active then
      let devices := m.devices.mapValues fun d => { d with status := .revoked }
      let member := { m with status := .revoked, revokeSeq := some seq, devices := devices }
      .ok { old with members := old.members.insert p.memberId member }
    else .error .invalidContent
  | none => .error .invalidContent

def applyMemberRoleSetAt (old : GovernanceState) (p : MemberRoleSet) : Except Reject GovernanceState :=
  if rolesMalformed p.roles then .error .invalidContent
  else match old.members.get? p.memberId with
    | some m =>
      if m.status = .active then .ok { old with members := old.members.insert p.memberId { m with roles := p.roles } }
      else .error .invalidContent
    | none => .error .invalidContent

/-- A device id is bound to at most one member, and never again after its revocation. -/
def applyDeviceGrantAt (old : GovernanceState) (p : DeviceGrant) : Except Reject GovernanceState :=
  match old.members.get? p.memberId with
  | some m =>
    if m.status ≠ .active then .error .invalidContent
    else if old.members.values.any fun m => m.devices.contains p.deviceId then .error .invalidContent
    else
      let member := { m with devices := m.devices.insert p.deviceId ⟨p.deviceId, .active, p.binding⟩ }
      .ok { old with members := old.members.insert p.memberId member }
  | none => .error .invalidContent

def applyDeviceRevokeAt (old : GovernanceState) (p : DeviceRevoke) : Except Reject GovernanceState :=
  match old.members.get? p.memberId with
  | some m =>
    if m.status ≠ .active then .error .invalidContent
    else match m.devices.get? p.deviceId with
      | some d =>
        if d.status ≠ .active then .error .invalidContent
        else
          let member := { m with devices := m.devices.insert p.deviceId { d with status := .revoked } }
          .ok { old with members := old.members.insert p.memberId member }
      | none => .error .invalidContent
  | none => .error .invalidContent

def applyAdminSetAt (old : GovernanceState) (p : AdminSet) : Except Reject GovernanceState :=
  if p.administrators.isEmpty then .error .invalidContent
  else if OrdSet.sortDedup p.administrators ≠ p.administrators then .error .invalidContent
  else if p.threshold = 0 then .error .invalidContent
  else if p.administrators.length ≥ 2 ^ 16 then .error .invalidContent
  else if p.threshold.toNat > p.administrators.length then .error .invalidContent
  else .ok { old with administrators := ⟨p.administrators, p.threshold⟩ }

def applyRecoverySetAt (old : GovernanceState) (p : RecoverySet) : GovernanceState :=
  { old with recovery := ⟨p.recovery.canonicalize⟩ }

def applyReplicaSetAt (old : GovernanceState) (p : ReplicaSet) : GovernanceState :=
  { old with replicas := old.replicas.insert p.replica.replicaId ⟨p.replica, p.status⟩ }

def applyStreamCreateAt (old : GovernanceState) (p : StreamCreate) : Except Reject GovernanceState :=
  if old.streams.contains p.streamId then .error .invalidContent
  else .ok { old with streams := old.streams.insert p.streamId ⟨p.streamId, p.policy, false, p.createdAtMs⟩ }

def applyStreamPolicySetAt (old : GovernanceState) (p : StreamPolicySet) : Except Reject GovernanceState :=
  match old.streams.get? p.streamId with
  | some s => .ok { old with streams := old.streams.insert p.streamId { s with policy := p.policy } }
  | none => .error .invalidContent

def applyStreamArchiveAt (old : GovernanceState) (p : StreamArchive) : Except Reject GovernanceState :=
  match old.streams.get? p.streamId with
  | some s => .ok { old with streams := old.streams.insert p.streamId { s with archived := p.archived } }
  | none => .error .invalidContent

def applyInviteRevokeAt (old : GovernanceState) (p : InviteRevoke) : GovernanceState :=
  { old with policy := { old.policy with revokedInvites := old.policy.revokedInvites.add p.inviteId } }

/-- The accumulated sets are history, not policy: the replacement extends them. -/
def applyPolicySetAt (old : GovernanceState) (p : PolicySet) : GovernanceState :=
  { old with policy :=
    { revokedInvites := p.policy.revokedInvites.extend old.policy.revokedInvites.toList
      forkMarkers := ResolvedForkMarker.sort (p.policy.forkMarkers ++ old.policy.forkMarkers)
      migrations := p.policy.migrations.extend old.policy.migrations.toList } }

def applyForkResolveAt (old : GovernanceState) (p : ForkResolve) : GovernanceState :=
  { old with policy :=
    { old.policy with forkMarkers := ResolvedForkMarker.sort (old.policy.forkMarkers ++ [p.marker]) } }

def applyMigrationAcceptAt (old : GovernanceState) (p : MigrationAccept) : Except Reject GovernanceState :=
  if p.migrationId ∈ old.policy.migrations then .error .invalidContent
  else .ok { old with policy := { old.policy with migrations := old.policy.migrations.add p.migrationId } }

/-- The transition of one operation, before its sequence number is recorded. -/
def applyOperation (old : GovernanceState) (seq : UInt64) : GovernanceOperationPayload → Except Reject GovernanceState
  | .memberGrant p => applyMemberGrantAt old p seq
  | .memberRevoke p => applyMemberRevokeAt old p seq
  | .memberRoleSet p => applyMemberRoleSetAt old p
  | .deviceGrant p => applyDeviceGrantAt old p
  | .deviceRevoke p => applyDeviceRevokeAt old p
  | .adminSet p => applyAdminSetAt old p
  | .recoverySet p => .ok (applyRecoverySetAt old p)
  | .replicaSet p => .ok (applyReplicaSetAt old p)
  | .streamCreate p => applyStreamCreateAt old p
  | .streamPolicySet p => applyStreamPolicySetAt old p
  | .streamArchive p => applyStreamArchiveAt old p
  | .inviteRevoke p => .ok (applyInviteRevokeAt old p)
  | .policySet p => .ok (applyPolicySetAt old p)
  | .forkResolve p => .ok (applyForkResolveAt old p)
  | .migrationAccept p => applyMigrationAcceptAt old p

def applyEntry (old : GovernanceState) (seq : UInt64) (op : GovernanceOperationPayload) :
    Except Reject GovernanceState := do
  if checkedSucc old.acceptedSeq ≠ some seq then .error .invalidContent
  else
    let next ← applyOperation old seq op
    pure { next with acceptedSeq := seq }

/-- The next sequence number, and the declared predecessor unless it is the first. -/
def checkChainLink (body : GovernanceEntryBody) (expectedPrev : Option GovernanceId) (expectedSeq : UInt64) :
    Except Reject Unit :=
  if body.seq ≠ expectedSeq then .error .invalidContent
  else if body.seq = 1 then if body.prev.isSome then .error .invalidContent else .ok ()
  else if body.prev ≠ expectedPrev then .error .invalidContent
  else .ok ()

/-! ### What a transition keeps -/

section Lemmas

variable {old next : GovernanceState} {seq n : UInt64} {op : GovernanceOperationPayload}

theorem checkedSucc_eq_some : checkedSucc n = some seq ↔ seq.toNat = n.toNat + 1 := by
  have hlt := seq.toNat_lt
  rw [checkedSucc]
  split_ifs with h
  · have hadd : (n + 1).toNat = n.toNat + 1 := by
      rw [UInt64.toNat_add, UInt64.toNat_one]
      omega
    rw [Option.some_inj, ← UInt64.toNat_inj, hadd, eq_comm]
  · constructor
    · intro h'
      exact absurd h' (by simp)
    · intro h'
      omega

theorem applyEntry_eq_ok :
    applyEntry old seq op = .ok next ↔
      seq.toNat = old.acceptedSeq.toNat + 1 ∧
        ∃ mid, applyOperation old seq op = .ok mid ∧ next = { mid with acceptedSeq := seq } := by
  rw [applyEntry, ← checkedSucc_eq_some]
  split_ifs with h
  · simp [h]
  · rw [bind_eq_ok_iff]
    simp only [not_not] at h
    simp only [h, true_and, pure, Except.pure, Except.ok.injEq, eq_comm]

theorem applyOperation_communityId (h : applyOperation old seq op = .ok next) : next.communityId = old.communityId := by
  cases op <;>
    simp only [applyOperation, applyMemberGrantAt, applyMemberRevokeAt, applyMemberRoleSetAt, applyDeviceGrantAt,
      applyDeviceRevokeAt, applyAdminSetAt, applyStreamCreateAt, applyStreamPolicySetAt, applyStreamArchiveAt,
      applyMigrationAcceptAt, Except.ok.injEq] at h <;>
    first
    | (subst h; rfl)
    | (repeat' split at h) <;> cases h <;> rfl

theorem applyEntry_communityId (h : applyEntry old seq op = .ok next) : next.communityId = old.communityId := by
  obtain ⟨-, mid, hmid, rfl⟩ := applyEntry_eq_ok.mp h
  show mid.communityId = old.communityId
  exact applyOperation_communityId hmid

theorem applyEntry_acceptedSeq (h : applyEntry old seq op = .ok next) : next.acceptedSeq = seq := by
  obtain ⟨-, mid, -, rfl⟩ := applyEntry_eq_ok.mp h
  rfl

end Lemmas

end IrohRooms.Governance
