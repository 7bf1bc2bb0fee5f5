import IrohRooms.Governance.Authz
import IrohRooms.Governance.Fields

/-!
# Decoding governance records

The strict readers of the governance log. A missing field or one of the wrong type is invalid content, since the bytes
were canonical; an id of the wrong width is not canonical. Some readers keep what they read, others put it in order:
administrators are sorted and deduplicated, replicas sorted, sets taken in any order, the heads of a resolution have to
be in order already. A value with a `null` is refused by the codec here and by a reader in the source, as no field of
the registry may hold one.
-/

namespace IrohRooms.Governance

deriving instance DecidableEq for RecoveryConfig, StreamPolicy, ResolvedForkMarker, CommunityPolicy, GenesisConfig,
  MemberGrant, MemberRevoke, MemberRoleSet, DeviceGrant, DeviceRevoke, AdminSet, RecoverySet, ReplicaSet, StreamCreate,
  StreamPolicySet, StreamArchive, InviteRevoke, PolicySet, ForkResolve, MigrationAccept, GovernanceOperationPayload,
  GovernanceEntryBody, GovernanceApprovalBody

/-! ### Fields -/

abbrev readUintField (entries : List (String × CborValue)) (key : String) : Except Reject UInt64 :=
  field .invalidContent .invalidContent CborValue.asUint entries key

def readU8Field (entries : List (String × CborValue)) (key : String) : Except Reject UInt8 := do
  let n ← readUintField entries key
  if n.toNat < 2 ^ 8 then pure n.toUInt8 else .error .invalidContent

def readU16Field (entries : List (String × CborValue)) (key : String) : Except Reject UInt16 := do
  let n ← readUintField entries key
  if n.toNat < 2 ^ 16 then pure n.toUInt16 else .error .invalidContent

abbrev readTextField (entries : List (String × CborValue)) (key : String) : Except Reject String :=
  field .invalidContent .invalidContent CborValue.asText entries key

abbrev readBytesField (entries : List (String × CborValue)) (key : String) : Except Reject Bytes :=
  field .invalidContent .invalidContent CborValue.asBytes entries key

/-- The readers of principals, devices, communities, entries, replicas, streams, roots and bare digests. -/
abbrev readIdField {kind : IdKind} (entries : List (String × CborValue)) (key : String) : Except Reject (Id kind) :=
  idField .invalidContent .invalidContent .nonCanonicalEncoding entries key

/-- `read_principal_array` and `read_governance_id_array`. -/
def readIdArray {kind : IdKind} (entries : List (String × CborValue)) (key : String) : Except Reject (List (Id kind)) := do
  let items ← field .invalidContent .invalidContent CborValue.asArray entries key
  items.mapM (idOf .invalidContent .nonCanonicalEncoding)

/-- A set is listed in any order, but without repetition. -/
def readSetItems : List CborValue → OrdSet Digest → Except Reject (OrdSet Digest)
  | [], set => .ok set
  | value :: rest, set => do
    let x ← idOf .invalidContent .nonCanonicalEncoding value
    if x ∈ set then .error .nonCanonicalEncoding else readSetItems rest (set.add x)

def readByteArraySet (entries : List (String × CborValue)) (key : String) : Except Reject (OrdSet Digest) := do
  let items ← field .invalidContent .invalidContent CborValue.asArray entries key
  readSetItems items OrdMap.empty

/-- At least two heads in ascending order, the selected one among them. -/
def readCanonicalBranchSet (entries : List (String × CborValue)) (code : Reject) :
    Except Reject (List GovernanceId × GovernanceId) := do
  let branchHeads : List GovernanceId ← readIdArray entries "branch_heads"
  if branchHeads.length < 2 then .error code
  else if OrdSet.sortDedup branchHeads ≠ branchHeads then .error code
  else
    let selectedHead ← readIdField entries "selected_head"
    if branchHeads.count selectedHead ≠ 1 then .error code else pure (branchHeads, selectedHead)

section Fields

variable {entries : List (String × CborValue)} {key : String} {kind : IdKind}

theorem readU8Field_eq_ok {n : UInt8} : readU8Field entries key = .ok n ↔ entries.lookup key = some (.uint n.toUInt64) := by
  simp only [readU8Field, bind_eq_ok_iff, uint_field_eq_ok]
  constructor
  · rintro ⟨m, hm, h⟩
    split_ifs at h with hlt
    obtain rfl : m.toUInt8 = n := Except.ok.inj h
    have hback : m.toUInt8.toUInt64 = m := UInt64.toNat_inj.mp (by simpa using Nat.mod_eq_of_lt hlt)
    rw [hback, hm]
  · intro h
    refine ⟨_, h, ?_⟩
    rw [if_pos (by simpa using n.toNat_lt)]
    simp [pure, Except.pure]

theorem readU16Field_eq_ok {n : UInt16} :
    readU16Field entries key = .ok n ↔ entries.lookup key = some (.uint n.toUInt64) := by
  simp only [readU16Field, bind_eq_ok_iff, uint_field_eq_ok]
  constructor
  · rintro ⟨m, hm, h⟩
    split_ifs at h with hlt
    obtain rfl : m.toUInt16 = n := Except.ok.inj h
    have hback : m.toUInt16.toUInt64 = m := UInt64.toNat_inj.mp (by simpa using Nat.mod_eq_of_lt hlt)
    rw [hback, hm]
  · intro h
    refine ⟨_, h, ?_⟩
    rw [if_pos (by simpa using n.toNat_lt)]
    simp [pure, Except.pure]

theorem mapM_idOf_eq_ok {items : List CborValue} {l : List (Id kind)} {shape width : Reject} :
    items.mapM (idOf shape width) = .ok l ↔ items = l.map Id.toCbor := by
  rw [mapM_eq_ok_iff]
  simp only [idOf_eq_ok]
  rw [← List.forall₂_eq_eq_eq, List.forall₂_map_right_iff]

theorem readIdArray_eq_ok {l : List (Id kind)} :
    readIdArray entries key = .ok l ↔ entries.lookup key = some (.array (l.map Id.toCbor)) := by
  simp only [readIdArray, bind_eq_ok_iff, field_eq_ok, asArray_eq_some, mapM_idOf_eq_ok]
  constructor
  · rintro ⟨items, ⟨v, hv, rfl⟩, rfl⟩
    exact hv
  · intro h
    exact ⟨_, ⟨_, h, rfl⟩, rfl⟩

theorem readSetItems_eq_ok {items : List CborValue} {set out : OrdSet Digest} (h : readSetItems items set = .ok out) :
    ∃ l : List Digest, items = l.map Id.toCbor ∧ l.Nodup ∧ (∀ x ∈ l, x ∉ set) ∧ out = set.extend l := by
  induction items generalizing set with
  | nil => exact ⟨[], rfl, .nil, by simp, (Except.ok.inj h).symm⟩
  | cons value rest ih =>
    obtain ⟨x, hx, h⟩ := bind_eq_ok_iff.mp h
    split_ifs at h with hmem
    obtain ⟨l, rfl, hnodup, hnew, rfl⟩ := ih h
    have hxl : x ∉ l := fun hxl => hnew x hxl (OrdSet.mem_add.mpr (.inl rfl))
    refine ⟨x :: l, by rw [idOf_eq_ok.mp hx]; rfl, List.nodup_cons.mpr ⟨hxl, hnodup⟩, ?_, rfl⟩
    intro y hy
    rcases List.mem_cons.mp hy with rfl | hy
    · exact hmem
    · exact fun hys => hnew y hy (OrdSet.mem_add.mpr (.inr hys))

theorem readByteArraySet_eq_ok {out : OrdSet Digest} (h : readByteArraySet entries key = .ok out) :
    ∃ l : List Digest, entries.lookup key = some (.array (l.map Id.toCbor)) ∧ out.toList = OrdSet.sortDedup l := by
  obtain ⟨items, hitems, h⟩ := bind_eq_ok_iff.mp h
  obtain ⟨v, hv, hitems⟩ := field_eq_ok.mp hitems
  rw [asArray_eq_some] at hitems
  obtain ⟨l, rfl, -, -, rfl⟩ := readSetItems_eq_ok h
  exact ⟨l, by rw [hv, hitems], rfl⟩

theorem readCanonicalBranchSet_eq_ok {code : Reject} {heads : List GovernanceId} {selected : GovernanceId}
    (h : readCanonicalBranchSet entries code = .ok (heads, selected)) :
    entries.lookup "branch_heads" = some (.array (heads.map Id.toCbor)) ∧
      entries.lookup "selected_head" = some selected.toCbor ∧
      heads.Pairwise (· < ·) ∧ 2 ≤ heads.length ∧ selected ∈ heads := by
  obtain ⟨l, hl, h⟩ := bind_eq_ok_iff.mp h
  split_ifs at h with hlen hsorted
  obtain ⟨x, hx, h⟩ := bind_eq_ok_iff.mp h
  split_ifs at h with hcount
  obtain ⟨rfl, rfl⟩ := Prod.mk.inj (Except.ok.inj h)
  refine ⟨readIdArray_eq_ok.mp hl, idField_eq_ok.mp hx, OrdSet.sortDedup_eq_self.mp (not_not.mp hsorted), by omega, ?_⟩
  exact List.count_pos_iff.mp (by omega)

end Fields

/-! ### Configuration records -/

namespace RecoveryConfig

def keys : List String := ["threshold", "recovery_keys"]

def fromCanonical (value : CborValue) : Except Reject RecoveryConfig := do
  let entries ← orReject .invalidContent value.asMap
  rejectUnknownKeys entries keys .invalidContent
  let threshold ← readU16Field entries "threshold"
  let recoveryKeys ← readIdArray entries "recovery_keys"
  pure ⟨threshold, recoveryKeys⟩

end RecoveryConfig

namespace ReplicaDescriptor

def keys : List String := ["replica_id", "endpoint", "capability"]

def fromCanonical (value : CborValue) : Except Reject ReplicaDescriptor := do
  let entries ← orReject .invalidContent value.asMap
  rejectUnknownKeys entries keys .invalidContent
  let replicaId ← readIdField entries "replica_id"
  let endpoint ← readBytesField entries "endpoint"
  let capability ← readU8Field entries "capability"
  pure ⟨replicaId, endpoint, capability⟩

end ReplicaDescriptor

def readReplicaArray (value : CborValue) : Except Reject (List ReplicaDescriptor) := do
  let items ← orReject .nonCanonicalEncoding value.asArray
  let out ← items.mapM ReplicaDescriptor.fromCanonical
  if (OrdSet.sortDedup (out.map ReplicaDescriptor.replicaId)).length ≠ out.length then .error .nonCanonicalEncoding
  else pure (out.insertionSort fun a b => a.replicaId ≤ b.replicaId)

def StreamPolicy.fromCanonical (value : CborValue) : Except Reject StreamPolicy := do
  let entries ← orReject .invalidContent value.asMap
  rejectUnknownKeys entries ["access"] .invalidContent
  let access ← readU8Field entries "access"
  pure ⟨access⟩

/-- The fields shared by a resolution and its marker, which differ in the code of a malformed one. -/
def readResolution (code : Reject) (value : CborValue) : Except Reject ForkResolve := do
  let entries ← orReject code value.asMap
  rejectUnknownKeys entries ["branch_heads", "selected_head", "selected_state_root", "created_at_ms"] code
  let (branchHeads, selectedHead) ← readCanonicalBranchSet entries code
  let selectedStateRoot ← readIdField entries "selected_state_root"
  let createdAtMs ← readUintField entries "created_at_ms"
  pure ⟨branchHeads, selectedHead, selectedStateRoot, createdAtMs⟩

def ForkResolve.fromCanonical (value : CborValue) : Except Reject ForkResolve :=
  readResolution .invalidForkResolution value

def ResolvedForkMarker.fromCanonical (value : CborValue) : Except Reject ResolvedForkMarker :=
  (readResolution .invalidContent value).map ForkResolve.marker

def readMarkerArray (entries : List (String × CborValue)) (key : String) : Except Reject (List ResolvedForkMarker) := do
  let items ← field .invalidContent .invalidContent CborValue.asArray entries key
  items.mapM ResolvedForkMarker.fromCanonical

namespace CommunityPolicy

def keys : List String := ["revoked_invites", "fork_markers", "migrations"]

def fromCanonical (value : CborValue) : Except Reject CommunityPolicy := do
  let entries ← orReject .invalidContent value.asMap
  rejectUnknownKeys entries keys .invalidContent
  let revokedInvites ← readByteArraySet entries "revoked_invites"
  let forkMarkers ← readMarkerArray entries "fork_markers"
  let migrations ← readByteArraySet entries "migrations"
  pure ⟨revokedInvites, forkMarkers, migrations⟩

end CommunityPolicy

namespace GenesisConfig

def keys : List String :=
  ["schema_version", "created_at_ms", "genesis_nonce", "admin_threshold", "administrators", "recovery", "replicas",
    "community_policy"]

def fromCanonical (value : CborValue) : Except Reject GenesisConfig := do
  let entries ← orReject .nonCanonicalEncoding value.asMap
  rejectUnknownKeys entries keys .nonCanonicalEncoding
  let schemaVersion ← readUintField entries "schema_version"
  if schemaVersion ≠ genesisSchemaVersion then .error .unknownVersion
  else
    let createdAtMs ← readUintField entries "created_at_ms"
    let genesisNonce ← readIdField entries "genesis_nonce"
    let adminThreshold ← readU16Field entries "admin_threshold"
    let administrators ← readIdArray entries "administrators"
    let recoveryVal ← orReject .nonCanonicalEncoding (entries.lookup "recovery")
    let recovery ← RecoveryConfig.fromCanonical recoveryVal
    let replicasVal ← orReject .nonCanonicalEncoding (entries.lookup "replicas")
    let replicas ← readReplicaArray replicasVal
    let policyVal ← orReject .nonCanonicalEncoding (entries.lookup "community_policy")
    let communityPolicy ← CommunityPolicy.fromCanonical policyVal
    pure ⟨schemaVersion, createdAtMs, genesisNonce, adminThreshold, OrdSet.sortDedup administrators, recovery, replicas,
      communityPolicy⟩

end GenesisConfig

/-! ### Operations -/

def GovernanceOperationKind.parse : String → Except Reject GovernanceOperationKind
  | "member.grant" => .ok .memberGrant
  | "member.revoke" => .ok .memberRevoke
  | "member.role_set" => .ok .memberRoleSet
  | "device.grant" => .ok .deviceGrant
  | "device.revoke" => .ok .deviceRevoke
  | "admin.set" => .ok .adminSet
  | "recovery.set" => .ok .recoverySet
  | "replica.set" => .ok .replicaSet
  | "stream.create" => .ok .streamCreate
  | "stream.policy_set" => .ok .streamPolicySet
  | "stream.archive" => .ok .streamArchive
  | "invite.revoke" => .ok .inviteRevoke
  | "policy.set" => .ok .policySet
  | "fork.resolve" => .ok .forkResolve
  | "migration.accept" => .ok .migrationAccept
  | _ => .error .unknownRecordKind

def validateRoles (roles : List Role) : Except Reject Unit :=
  if rolesMalformed roles then .error .invalidContent else .ok ()

/-- The roles of a grant or a change of roles. -/
def readRoles (entries : List (String × CborValue)) : Except Reject (List Role) := do
  let items ← field .invalidContent .invalidContent CborValue.asArray entries "roles"
  let roles ← items.mapM fun value => do Role.parse (← orReject .invalidContent value.asText)
  validateRoles roles
  pure roles

def GovernanceOperationPayload.fromCanonical (kind : GovernanceOperationKind) (value : CborValue) :
    Except Reject GovernanceOperationPayload := do
  let entries ← orReject .invalidContent value.asMap
  match kind with
  | .memberGrant =>
    rejectUnknownKeys entries ["member_id", "roles", "profile"] .invalidContent
    let roles ← readRoles entries
    let profile ← optionalField .invalidContent CborValue.asBytes entries "profile"
    let memberId ← readIdField entries "member_id"
    pure (.memberGrant ⟨memberId, roles, profile⟩)
  | .memberRevoke =>
    rejectUnknownKeys entries ["member_id"] .invalidContent
    let memberId ← readIdField entries "member_id"
    pure (.memberRevoke ⟨memberId⟩)
  | .memberRoleSet =>
    rejectUnknownKeys entries ["member_id", "roles"] .invalidContent
    let roles ← readRoles entries
    let memberId ← readIdField entries "member_id"
    pure (.memberRoleSet ⟨memberId, roles⟩)
  | .deviceGrant =>
    rejectUnknownKeys entries ["member_id", "device_id", "binding"] .invalidContent
    let memberId ← readIdField entries "member_id"
    let deviceId ← readIdField entries "device_id"
    let binding ← readBytesField entries "binding"
    pure (.deviceGrant ⟨memberId, deviceId, binding⟩)
  | .deviceRevoke =>
    rejectUnknownKeys entries ["member_id", "device_id"] .invalidContent
    let memberId ← readIdField entries "member_id"
    let deviceId ← readIdField entries "device_id"
    pure (.deviceRevoke ⟨memberId, deviceId⟩)
  | .adminSet =>
    rejectUnknownKeys entries ["administrators", "threshold"] .invalidContent
    let administrators ← readIdArray entries "administrators"
    let threshold ← readU16Field entries "threshold"
    pure (.adminSet ⟨OrdSet.sortDedup administrators, threshold⟩)
  | .recoverySet =>
    let recovery ← RecoveryConfig.fromCanonical value
    pure (.recoverySet ⟨recovery⟩)
  | .replicaSet =>
    rejectUnknownKeys entries ["replica", "status"] .invalidContent
    let replicaVal ← orReject .invalidContent (entries.lookup "replica")
    let statusVal ← orReject .invalidContent (entries.lookup "status")
    let replica ← ReplicaDescriptor.fromCanonical replicaVal
    let status ← ReplicaStatus.parse (← orReject .invalidContent statusVal.asText)
    pure (.replicaSet ⟨replica, status⟩)
  | .streamCreate =>
    rejectUnknownKeys entries ["stream_id", "policy", "created_at_ms"] .invalidContent
    let policyVal ← orReject .invalidContent (entries.lookup "policy")
    let streamId ← readIdField entries "stream_id"
    let policy ← StreamPolicy.fromCanonical policyVal
    let createdAtMs ← readUintField entries "created_at_ms"
    pure (.streamCreate ⟨streamId, policy, createdAtMs⟩)
  | .streamPolicySet =>
    rejectUnknownKeys entries ["stream_id", "policy"] .invalidContent
    let policyVal ← orReject .invalidContent (entries.lookup "policy")
    let streamId ← readIdField entries "stream_id"
    let policy ← StreamPolicy.fromCanonical policyVal
    pure (.streamPolicySet ⟨streamId, policy⟩)
  | .streamArchive =>
    rejectUnknownKeys entries ["stream_id", "archived"] .invalidContent
    let archived ← readUintField entries "archived"
    if archived.toNat > 1 then .error .invalidContent
    else
      let streamId ← readIdField entries "stream_id"
      pure (.streamArchive ⟨streamId, decide (archived = 1)⟩)
  | .inviteRevoke =>
    rejectUnknownKeys entries ["invite_id"] .invalidContent
    let inviteId ← readIdField entries "invite_id"
    pure (.inviteRevoke ⟨inviteId⟩)
  | .policySet =>
    let policy ← CommunityPolicy.fromCanonical value
    pure (.policySet ⟨policy⟩)
  | .forkResolve =>
    let resolve ← ForkResolve.fromCanonical value
    pure (.forkResolve resolve)
  | .migrationAccept =>
    rejectUnknownKeys entries ["migration_id"] .invalidContent
    let migrationId ← readIdField entries "migration_id"
    pure (.migrationAccept ⟨migrationId⟩)

/-! ### Entries and approvals -/

def readPrev (entries : List (String × CborValue)) : Except Reject (Option GovernanceId) :=
  match entries.lookup "prev" with
  | some v => (idOf .nonCanonicalEncoding .nonCanonicalEncoding v).map some
  | none => .ok none

def GovernanceEntryBody.fromCanonical (value : CborValue) : Except Reject GovernanceEntryBody := do
  let entries ← orReject .nonCanonicalEncoding value.asMap
  rejectUnknownKeys entries ["community_id", "seq", "created_at_ms", "kind", "payload", "state_root", "prev"]
    .nonCanonicalEncoding
  let communityId ← readIdField entries "community_id"
  let seq ← readUintField entries "seq"
  if seq = 0 then .error .invalidContent
  else
    let createdAtMs ← readUintField entries "created_at_ms"
    let kind ← GovernanceOperationKind.parse (← readTextField entries "kind")
    let payloadVal ← orReject .nonCanonicalEncoding (entries.lookup "payload")
    let payload ← GovernanceOperationPayload.fromCanonical kind payloadVal
    let stateRoot ← readIdField entries "state_root"
    let prev ← readPrev entries
    if decide (seq = 1) ≠ prev.isNone then .error .invalidContent
    else if payload.kind ≠ kind then .error .invalidContent
    else pure ⟨communityId, seq, prev, createdAtMs, kind, payload, stateRoot⟩

def decodeEntryCsb (csb : Bytes) : Except Reject GovernanceEntryBody :=
  match Cbor.decodeCanonical csb with
  | .ok value => GovernanceEntryBody.fromCanonical value
  | .error _ => .error .nonCanonicalEncoding

def GovernanceApprovalBody.fromCanonical (value : CborValue) : Except Reject GovernanceApprovalBody := do
  let entries ← orReject .nonCanonicalEncoding value.asMap
  rejectUnknownKeys entries ["community_id", "entry_id", "state_root", "approver", "created_at_ms"]
    .nonCanonicalEncoding
  let communityId ← readIdField entries "community_id"
  let entryId ← readIdField entries "entry_id"
  let stateRoot ← readIdField entries "state_root"
  let approver ← readIdField entries "approver"
  let createdAtMs ← readUintField entries "created_at_ms"
  pure ⟨communityId, entryId, stateRoot, approver, createdAtMs⟩

def decodeApprovalCsb (csb : Bytes) : Except Reject GovernanceApprovalBody :=
  match Cbor.decodeCanonical csb with
  | .ok value => GovernanceApprovalBody.fromCanonical value
  | .error _ => .error .nonCanonicalEncoding

end IrohRooms.Governance
