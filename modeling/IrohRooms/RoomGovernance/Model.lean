import IrohRooms.Governance.Decode

/-!
# Records of a room's governance

A room has one admin and an approval policy. Its governance entries form one chain for each author; approvals of an
entry and resolutions of forks are records of their own. Every record is signed in an envelope that keeps the exact
canonical bytes, and a record is read only from an envelope that verifies. Some readers keep what they read; the
approvers of a policy are sorted and deduplicated. A `null` is refused by the codec here and by the readers in the
source, as no field may hold one.
-/

namespace IrohRooms.RoomGovernance

open Governance (Id IdKind DeviceId StateRoot Reject orReject orReject_eq_ok field uint_field_eq_ok text_field_eq_ok idOf
  idOf_eq_ok idField idField_eq_ok rejectUnknownKeys rejectUnknownKeys_eq_ok blake3Domain signingMessage)

abbrev RoomId := Id .community

abbrev GovernanceEntryId := Id .governance

/-- The Ed25519 key of a member. -/
abbrev MemberId := Id .principal

namespace Domain

def governanceEntrySign : String := "iroh-rooms:v2:governance-entry:sign:v1"

def governanceEntryId : String := "iroh-rooms:v2:governance-entry:id:v1"

def governanceApprovalSign : String := "iroh-rooms:v2:governance-approval:sign:v1"

def governanceApprovalId : String := "iroh-rooms:v2:governance-approval:id:v1"

def forkResolveSign : String := "iroh-rooms:v2:fork-resolve:sign:v1"

def forkResolveId : String := "iroh-rooms:v2:fork-resolve:id:v1"

end Domain

/-! ### Signed records -/

/-- A record body with its canonical form and the contexts of its signature and id. -/
class SignedBody (β : Type) (kind : outParam IdKind) where
  signContext : String
  idContext : String
  toCbor : β → CborValue
  fromCanonical : CborValue → Except Reject β

/-- The exact signed bytes of a record, with the id and the signer they are claimed to have. -/
structure Envelope (kind : IdKind) where
  id : Id kind
  signed : Bytes
  sig : Signature
  signer : MemberId

section Signed

variable {β : Type} {kind : IdKind}

def toCsb [SignedBody β kind] (body : β) : Bytes := Cbor.encode (SignedBody.toCbor body)

variable (env : Env)

def idFromCsb (β : Type) {kind : IdKind} [SignedBody β kind] (csb : Bytes) : Id kind :=
  ⟨blake3Domain env (SignedBody.idContext β) csb⟩

def idOfBody [SignedBody β kind] (body : β) : Id kind := idFromCsb env β (toCsb body)

/-- A body sealed by a key, under the key's own principal. -/
def sealed [SignedBody β kind] (body : β) (secret : SigningKey) : Envelope kind where
  id := idFromCsb env β (toCsb body)
  signed := toCsb body
  sig := env.sign secret (signingMessage (SignedBody.signContext β) (toCsb body))
  signer := ⟨env.publicKey secret⟩

def verifyEnvelope (β : Type) {kind : IdKind} [SignedBody β kind] (e : Envelope kind) : Except Reject β :=
  match Cbor.decodeCanonical e.signed with
  | .error _ => .error .nonCanonicalEncoding
  | .ok value =>
    if idFromCsb env β e.signed ≠ e.id then .error .idMismatch
    else if env.verify e.signer.bits (signingMessage (SignedBody.signContext β) e.signed) e.sig = false then
      .error .badSignature
    else SignedBody.fromCanonical value

variable {env}

theorem verifyEnvelope_eq_ok [SignedBody β kind] {e : Envelope kind} {body : β} :
    verifyEnvelope env β e = .ok body ↔ ∃ value, Cbor.decodeCanonical e.signed = .ok value ∧
      idFromCsb env β e.signed = e.id ∧
      env.verify e.signer.bits (signingMessage (SignedBody.signContext β) e.signed) e.sig = true ∧
      SignedBody.fromCanonical value = .ok body := by
  unfold verifyEnvelope
  cases Cbor.decodeCanonical e.signed with
  | error err => simp
  | ok value =>
    dsimp only
    constructor
    · intro h
      split_ifs at h with hid hsig
      exact ⟨value, rfl, not_not.mp hid, by simpa using hsig, h⟩
    · rintro ⟨value', hvalue, hid, hsig, h⟩
      rw [if_neg (not_not.mpr hid), hsig, Except.ok.inj hvalue]
      exact h

end Signed

/-! ### Field readers -/

abbrev readIdField {kind : IdKind} (entries : List (String × CborValue)) (key : String) : Except Reject (Id kind) :=
  idField .nonCanonicalEncoding .nonCanonicalEncoding .nonCanonicalEncoding entries key

abbrev uintField (entries : List (String × CborValue)) (key : String) : Except Reject UInt64 :=
  field .nonCanonicalEncoding .nonCanonicalEncoding CborValue.asUint entries key

abbrev textField (entries : List (String × CborValue)) (key : String) : Except Reject String :=
  field .nonCanonicalEncoding .nonCanonicalEncoding CborValue.asText entries key

/-- An id that may be absent. -/
def optId {kind : IdKind} (entries : List (String × CborValue)) (key : String) : Except Reject (Option (Id kind)) :=
  match entries.lookup key with
  | none => .ok none
  | some value => (idOf .nonCanonicalEncoding .nonCanonicalEncoding value).map some

theorem optId_eq_ok {kind : IdKind} {entries : List (String × CborValue)} {key : String} {o : Option (Id kind)} :
    optId entries key = .ok o ↔ entries.lookup key = o.map Id.toCbor := by
  unfold optId
  cases entries.lookup key with
  | none => cases o <;> simp
  | some value =>
    dsimp only
    rw [map_eq_ok_iff]
    simp only [idOf_eq_ok]
    cases o <;> simp

/-- `read_member` and `read_device`, of the map of an action. -/
abbrev readMember {kind : IdKind} (entries : List (String × CborValue)) (key : String) : Except Reject (Id kind) :=
  idField .invalidContent .invalidContent .invalidContent entries key

/-! ### Members and policy -/

inductive Role
  | none | member | agent | admin
  deriving DecidableEq, Repr

namespace Role

def asStr : Role → String
  | .none => "none"
  | .member => "member"
  | .agent => "agent"
  | .admin => "admin"

def parse : String → Except Reject Role
  | "none" => .ok .none
  | "member" => .ok .member
  | "agent" => .ok .agent
  | "admin" => .ok .admin
  | _ => .error .invalidContent

end Role

inductive ApprovalPolicy
  | adminAlone
  /-- `m` of the listed principals must approve. -/
  | mOfN (m : UInt64) (approvers : List MemberId)
  deriving DecidableEq

namespace ApprovalPolicy

def default : ApprovalPolicy := .adminAlone

def toCbor : ApprovalPolicy → CborValue
  | .adminAlone => .map [("type", .text "admin_alone")]
  | .mOfN m approvers => .map [("type", .text "m_of_n"), ("m", .uint m), ("approvers", .array (approvers.map Id.toCbor))]

/-- The listed approvers are sorted and deduplicated, and there have to be enough of them. -/
def mOfNFrom (entries : List (String × CborValue)) : Except Reject ApprovalPolicy := do
  rejectUnknownKeys entries ["type", "m", "approvers"] .invalidContent
  let m ← uintField entries "m"
  let items ← field .invalidContent .invalidContent CborValue.asArray entries "approvers"
  let approvers : List MemberId ← items.mapM (idOf .invalidContent .invalidContent)
  if m = 0 ∨ (OrdSet.sortDedup approvers).length < m.toNat then .error .invalidContent
  else pure (.mOfN m (OrdSet.sortDedup approvers))

def fromCbor (entries : List (String × CborValue)) : Except Reject ApprovalPolicy := do
  let type ← textField entries "type"
  match type with
  | "admin_alone" => if entries.length ≠ 1 then .error .invalidContent else pure .adminAlone
  | "m_of_n" => mOfNFrom entries
  | _ => .error .invalidContent

end ApprovalPolicy

inductive MemberStatus
  | removed | invited | active
  deriving DecidableEq, Repr

structure MemberRecord where
  memberId : MemberId
  role : Role
  status : MemberStatus
  devices : List DeviceId
  governanceCursor : GovernanceEntryId
  deriving DecidableEq

/-! ### Entries -/

inductive GovernanceAction
  | initRoom (admin : MemberId) (adminDevice : DeviceId) (roomName : String)
  | addMember (member : MemberId) (device : DeviceId) (role : Role)
  | removeMember (member : MemberId)
  | setRole (member : MemberId) (role : Role)
  | rotateDevice (member : MemberId) (device : DeviceId)
  | setPolicy (policy : ApprovalPolicy)
  deriving DecidableEq

namespace GovernanceAction

def kindStr : GovernanceAction → String
  | .initRoom .. => "init_room"
  | .addMember .. => "add_member"
  | .removeMember .. => "remove_member"
  | .setRole .. => "set_role"
  | .rotateDevice .. => "rotate_device"
  | .setPolicy .. => "set_policy"

/-- `matches!(entry.action, GovernanceAction::InitRoom { .. })`. -/
def isInitRoom : GovernanceAction → Bool
  | .initRoom .. => true
  | _ => false

def toCbor : GovernanceAction → CborValue
  | .initRoom admin adminDevice roomName =>
    .map [("admin", admin.toCbor), ("admin_device", adminDevice.toCbor), ("room_name", .text roomName)]
  | .addMember member device role =>
    .map [("member", member.toCbor), ("device", device.toCbor), ("role", .text role.asStr)]
  | .removeMember member => .map [("member", member.toCbor)]
  | .setRole member role => .map [("member", member.toCbor), ("role", .text role.asStr)]
  | .rotateDevice member device => .map [("member", member.toCbor), ("device", device.toCbor)]
  | .setPolicy policy => policy.toCbor

def initRoomFrom (entries : List (String × CborValue)) : Except Reject GovernanceAction := do
  rejectUnknownKeys entries ["admin", "admin_device", "room_name"] .invalidContent
  let admin ← readMember entries "admin"
  let adminDevice ← readMember entries "admin_device"
  let roomName ← textField entries "room_name"
  if roomName.toList.any isControl then .error .invalidContent else pure (.initRoom admin adminDevice roomName)

def addMemberFrom (entries : List (String × CborValue)) : Except Reject GovernanceAction := do
  rejectUnknownKeys entries ["member", "device", "role"] .invalidContent
  let member ← readMember entries "member"
  let device ← readMember entries "device"
  let role ← textField entries "role"
  let role ← Role.parse role
  pure (.addMember member device role)

def removeMemberFrom (entries : List (String × CborValue)) : Except Reject GovernanceAction := do
  rejectUnknownKeys entries ["member"] .invalidContent
  let member ← readMember entries "member"
  pure (.removeMember member)

def setRoleFrom (entries : List (String × CborValue)) : Except Reject GovernanceAction := do
  rejectUnknownKeys entries ["member", "role"] .invalidContent
  let member ← readMember entries "member"
  let role ← textField entries "role"
  let role ← Role.parse role
  pure (.setRole member role)

def rotateDeviceFrom (entries : List (String × CborValue)) : Except Reject GovernanceAction := do
  rejectUnknownKeys entries ["member", "device"] .invalidContent
  let member ← readMember entries "member"
  let device ← readMember entries "device"
  pure (.rotateDevice member device)

def fromCbor (kind : String) (value : CborValue) : Except Reject GovernanceAction := do
  let entries ← orReject .invalidContent value.asMap
  match kind with
  | "init_room" => initRoomFrom entries
  | "add_member" => addMemberFrom entries
  | "remove_member" => removeMemberFrom entries
  | "set_role" => setRoleFrom entries
  | "rotate_device" => rotateDeviceFrom entries
  | "set_policy" => (ApprovalPolicy.fromCbor entries).map .setPolicy
  | _ => .error .unknownRecordKind

/-- An action is read under its own discriminant. -/
theorem kindStr_of_fromCbor {kind : String} {value : CborValue} {action : GovernanceAction}
    (h : fromCbor kind value = .ok action) : action.kindStr = kind := by
  obtain ⟨entries, -, h⟩ := bind_eq_ok_iff.mp h
  split at h
  · obtain ⟨_, -, h⟩ := bind_eq_ok_iff.mp h
    obtain ⟨admin, -, h⟩ := bind_eq_ok_iff.mp h
    obtain ⟨adminDevice, -, h⟩ := bind_eq_ok_iff.mp h
    obtain ⟨roomName, -, h⟩ := bind_eq_ok_iff.mp h
    split_ifs at h
    exact congrArg kindStr (Except.ok.inj h).symm
  · obtain ⟨_, -, h⟩ := bind_eq_ok_iff.mp h
    obtain ⟨member, -, h⟩ := bind_eq_ok_iff.mp h
    obtain ⟨device, -, h⟩ := bind_eq_ok_iff.mp h
    obtain ⟨text, -, h⟩ := bind_eq_ok_iff.mp h
    obtain ⟨role, -, h⟩ := bind_eq_ok_iff.mp h
    exact congrArg kindStr (Except.ok.inj h).symm
  · obtain ⟨_, -, h⟩ := bind_eq_ok_iff.mp h
    obtain ⟨member, -, h⟩ := bind_eq_ok_iff.mp h
    exact congrArg kindStr (Except.ok.inj h).symm
  · obtain ⟨_, -, h⟩ := bind_eq_ok_iff.mp h
    obtain ⟨member, -, h⟩ := bind_eq_ok_iff.mp h
    obtain ⟨text, -, h⟩ := bind_eq_ok_iff.mp h
    obtain ⟨role, -, h⟩ := bind_eq_ok_iff.mp h
    exact congrArg kindStr (Except.ok.inj h).symm
  · obtain ⟨_, -, h⟩ := bind_eq_ok_iff.mp h
    obtain ⟨member, -, h⟩ := bind_eq_ok_iff.mp h
    obtain ⟨device, -, h⟩ := bind_eq_ok_iff.mp h
    exact congrArg kindStr (Except.ok.inj h).symm
  · obtain ⟨policy, -, h⟩ := map_eq_ok_iff.mp h
    exact congrArg kindStr h.symm
  · cases h

end GovernanceAction

def schemaVersion : UInt64 := 2

structure GovernanceEntryBody where
  schemaVersion : UInt64
  roomId : RoomId
  /-- The principal the entry is attributed to. -/
  author : MemberId
  /-- The position in the author's own chain, from `1`. -/
  seq : UInt64
  parent : Option GovernanceEntryId
  epoch : UInt64
  action : GovernanceAction
  deriving DecidableEq

namespace GovernanceEntryBody

def toCbor (b : GovernanceEntryBody) : CborValue :=
  .map ([("schema_version", .uint b.schemaVersion), ("room_id", b.roomId.toCbor), ("author", b.author.toCbor),
    ("seq", .uint b.seq), ("epoch", .uint b.epoch), ("kind", .text b.action.kindStr)] ++
      (b.parent.map fun id => ("parent", id.toCbor)).toList ++ [("action", b.action.toCbor)])

def keys : List String := ["schema_version", "room_id", "author", "seq", "epoch", "kind", "parent", "action"]

def fromCanonical (value : CborValue) : Except Reject GovernanceEntryBody := do
  let entries ← orReject .nonCanonicalEncoding value.asMap
  rejectUnknownKeys entries keys .nonCanonicalEncoding
  let version ← uintField entries "schema_version"
  if version ≠ RoomGovernance.schemaVersion then .error .unknownVersion
  else
    let roomId ← readIdField entries "room_id"
    let author ← readIdField entries "author"
    let seq ← uintField entries "seq"
    let epoch ← uintField entries "epoch"
    let kind ← textField entries "kind"
    let parent ← optId entries "parent"
    let actionVal ← orReject .nonCanonicalEncoding (entries.lookup "action")
    let action ← GovernanceAction.fromCbor kind actionVal
    pure ⟨version, roomId, author, seq, parent, epoch, action⟩

/-- What a successful read says of the map. -/
theorem of_fromCanonical {value : CborValue} {body : GovernanceEntryBody} (h : fromCanonical value = .ok body) :
    ∃ entries kind actionVal, value = .map entries ∧ (∀ e ∈ entries, e.1 ∈ keys) ∧
      entries.lookup "schema_version" = some (.uint body.schemaVersion) ∧
      body.schemaVersion = RoomGovernance.schemaVersion ∧
      entries.lookup "room_id" = some body.roomId.toCbor ∧ entries.lookup "author" = some body.author.toCbor ∧
      entries.lookup "seq" = some (.uint body.seq) ∧ entries.lookup "epoch" = some (.uint body.epoch) ∧
      entries.lookup "kind" = some (.text kind) ∧ entries.lookup "parent" = body.parent.map Id.toCbor ∧
      entries.lookup "action" = some actionVal ∧ GovernanceAction.fromCbor kind actionVal = .ok body.action := by
  obtain ⟨entries, hentries, h⟩ := bind_eq_ok_iff.mp h
  obtain ⟨_, hkeys, h⟩ := bind_eq_ok_iff.mp h
  obtain ⟨version, hversion, h⟩ := bind_eq_ok_iff.mp h
  split_ifs at h with htwo
  obtain ⟨roomId, hroomId, h⟩ := bind_eq_ok_iff.mp h
  obtain ⟨author, hauthor, h⟩ := bind_eq_ok_iff.mp h
  obtain ⟨seq, hseq, h⟩ := bind_eq_ok_iff.mp h
  obtain ⟨epoch, hepoch, h⟩ := bind_eq_ok_iff.mp h
  obtain ⟨kind, hkind, h⟩ := bind_eq_ok_iff.mp h
  obtain ⟨parent, hparent, h⟩ := bind_eq_ok_iff.mp h
  obtain ⟨actionVal, hactionVal, h⟩ := bind_eq_ok_iff.mp h
  obtain ⟨action, haction, h⟩ := bind_eq_ok_iff.mp h
  obtain rfl := Except.ok.inj h
  exact ⟨entries, kind, actionVal, asMap_eq_some.mp (orReject_eq_ok.mp hentries), rejectUnknownKeys_eq_ok.mp hkeys,
    uint_field_eq_ok.mp hversion, not_not.mp htwo, idField_eq_ok.mp hroomId, idField_eq_ok.mp hauthor,
    uint_field_eq_ok.mp hseq, uint_field_eq_ok.mp hepoch, text_field_eq_ok.mp hkind, optId_eq_ok.mp hparent,
    orReject_eq_ok.mp hactionVal, haction⟩

instance : SignedBody GovernanceEntryBody .governance where
  signContext := Domain.governanceEntrySign
  idContext := Domain.governanceEntryId
  toCbor := toCbor
  fromCanonical := fromCanonical

end GovernanceEntryBody

abbrev SignedGovernanceEntry := Envelope .governance

def GovernanceEntryBody.decodeVerified (env : Env) (e : SignedGovernanceEntry) : Except Reject GovernanceEntryBody :=
  verifyEnvelope env GovernanceEntryBody e

/-! ### Approvals -/

structure ApprovalBody where
  schemaVersion : UInt64
  roomId : RoomId
  entryId : GovernanceEntryId
  approver : MemberId
  proposedStateRoot : Option StateRoot
  epoch : UInt64
  deriving DecidableEq

namespace ApprovalBody

def toCbor (b : ApprovalBody) : CborValue :=
  .map ([("schema_version", .uint b.schemaVersion), ("room_id", b.roomId.toCbor), ("entry_id", b.entryId.toCbor),
    ("approver", b.approver.toCbor), ("epoch", .uint b.epoch)] ++
      (b.proposedStateRoot.map fun root => ("proposed_state_root", root.toCbor)).toList)

def keys : List String := ["schema_version", "room_id", "entry_id", "approver", "epoch", "proposed_state_root"]

def fromCanonical (value : CborValue) : Except Reject ApprovalBody := do
  let entries ← orReject .nonCanonicalEncoding value.asMap
  rejectUnknownKeys entries keys .nonCanonicalEncoding
  let version ← uintField entries "schema_version"
  if version ≠ RoomGovernance.schemaVersion then .error .unknownVersion
  else
    let roomId ← readIdField entries "room_id"
    let entryId ← readIdField entries "entry_id"
    let approver ← readIdField entries "approver"
    let epoch ← uintField entries "epoch"
    let proposedStateRoot ← optId entries "proposed_state_root"
    pure ⟨version, roomId, entryId, approver, proposedStateRoot, epoch⟩

/-- What a successful read says of the map. -/
theorem of_fromCanonical {value : CborValue} {body : ApprovalBody} (h : fromCanonical value = .ok body) :
    ∃ entries, value = .map entries ∧ (∀ e ∈ entries, e.1 ∈ keys) ∧
      entries.lookup "schema_version" = some (.uint body.schemaVersion) ∧
      body.schemaVersion = RoomGovernance.schemaVersion ∧
      entries.lookup "room_id" = some body.roomId.toCbor ∧ entries.lookup "entry_id" = some body.entryId.toCbor ∧
      entries.lookup "approver" = some body.approver.toCbor ∧ entries.lookup "epoch" = some (.uint body.epoch) ∧
      entries.lookup "proposed_state_root" = body.proposedStateRoot.map Id.toCbor := by
  obtain ⟨entries, hentries, h⟩ := bind_eq_ok_iff.mp h
  obtain ⟨_, hkeys, h⟩ := bind_eq_ok_iff.mp h
  obtain ⟨version, hversion, h⟩ := bind_eq_ok_iff.mp h
  split_ifs at h with htwo
  obtain ⟨roomId, hroomId, h⟩ := bind_eq_ok_iff.mp h
  obtain ⟨entryId, hentryId, h⟩ := bind_eq_ok_iff.mp h
  obtain ⟨approver, happrover, h⟩ := bind_eq_ok_iff.mp h
  obtain ⟨epoch, hepoch, h⟩ := bind_eq_ok_iff.mp h
  obtain ⟨root, hroot, h⟩ := bind_eq_ok_iff.mp h
  obtain rfl := Except.ok.inj h
  exact ⟨entries, asMap_eq_some.mp (orReject_eq_ok.mp hentries), rejectUnknownKeys_eq_ok.mp hkeys,
    uint_field_eq_ok.mp hversion, not_not.mp htwo, idField_eq_ok.mp hroomId, idField_eq_ok.mp hentryId,
    idField_eq_ok.mp happrover, uint_field_eq_ok.mp hepoch, optId_eq_ok.mp hroot⟩

instance : SignedBody ApprovalBody .digest where
  signContext := Domain.governanceApprovalSign
  idContext := Domain.governanceApprovalId
  toCbor := toCbor
  fromCanonical := fromCanonical

end ApprovalBody

abbrev SignedApproval := Envelope .digest

def ApprovalBody.decodeVerified (env : Env) (e : SignedApproval) : Except Reject ApprovalBody :=
  verifyEnvelope env ApprovalBody e

end IrohRooms.RoomGovernance
