import IrohRooms.Event.Ids

/-!
# Event content

The twelve event types, their typed content after the strict parse, and the checks that compare content with
its envelope: `checkFieldRules` (sender-bound fields) and `verifyBindings` (the embedded device bindings).
A role text is one of three accepted words, so it is the enumeration `Role`; the other texts stay strings.
-/

namespace IrohRooms

/-- A participant role, ordered from least to most privileged. -/
inductive Role
  | agent | member | admin
  deriving DecidableEq, Repr

namespace Role

def rank : Role → Nat
  | agent => 0
  | member => 1
  | admin => 2

theorem rank_injective : Function.Injective rank := by
  intro a b h
  cases a <;> cases b <;> first | rfl | exact absurd h (by decide)

instance : LinearOrder Role := LinearOrder.lift' rank rank_injective

end Role

inductive EventType
  | roomCreated | memberInvited | memberJoined | memberLeft | memberRemoved | messageText | fileShared
  | pipeOpened | pipeClosed | agentStatus | contentEncrypted | memberKeyDistribution
  deriving DecidableEq, Repr

/-- The types whose device is resolved from membership state: they carry no binding of their own. -/
def EventType.requiresMembershipDeviceBinding : EventType → Bool
  | messageText | fileShared | pipeOpened | pipeClosed | agentStatus | contentEncrypted | memberInvited
  | memberLeft | memberKeyDistribution => true
  | roomCreated | memberJoined | memberRemoved => false

/-- A device attested by an identity's signature. -/
structure DeviceBinding where
  identityKey : IdentityKey
  deviceKey : DeviceKey
  sig : Signature
  deriving DecidableEq, Repr

structure WrappedKeyEntry where
  ephemeralPublic : BitVec 256
  nonce : BitVec 96
  ciphertext : BitVec 384
  deriving DecidableEq, Repr

structure MemberKeyDistribution where
  newEpoch : Nat
  keyCommitment : BitVec 256
  wrappedKeys : List (DeviceKey × WrappedKeyEntry)
  deriving DecidableEq, Repr

structure RoomCreated where
  roomName : String
  roomNonce : ShortId
  admins : List IdentityKey
  deviceBinding : DeviceBinding
  deriving DecidableEq, Repr

structure MemberInvited where
  inviteId : ShortId
  capabilityHash : BitVec 256
  role : Role
  inviteeKey : IdentityKey
  expiresAt : Option Nat
  inviteeHint : Option String
  deriving DecidableEq, Repr

structure MemberJoined where
  viaInviteId : ShortId
  capabilitySecret : ShortId
  role : Role
  deviceBinding : DeviceBinding
  displayName : Option String
  deriving DecidableEq, Repr

structure MemberLeft where
  memberId : IdentityKey
  reason : Option String
  deriving DecidableEq, Repr

structure MemberRemoved where
  memberId : IdentityKey
  removedBy : IdentityKey
  reason : Option String
  deviceBinding : Option DeviceBinding
  rotation : Option MemberKeyDistribution
  deriving DecidableEq, Repr

structure MessageText where
  body : String
  format : Option String
  inReplyTo : Option EventId
  mentions : Option (List IdentityKey)
  deriving DecidableEq, Repr

structure FileShared where
  fileId : ShortId
  name : String
  mimeType : String
  sizeBytes : Nat
  blobHash : HashRef
  blobFormat : Option String
  providers : Option (List DeviceKey)
  deriving DecidableEq, Repr

structure PipeOpened where
  pipeId : ShortId
  ownerId : IdentityKey
  ownerEndpoint : DeviceKey
  kind : String
  label : String
  targetHint : String
  alpn : String
  allowedMembers : List IdentityKey
  expiresAt : Option Nat
  deriving DecidableEq, Repr

structure PipeClosed where
  pipeId : ShortId
  reason : Option String
  deriving DecidableEq, Repr

structure AgentStatus where
  status : String
  message : Option String
  relatedArtifactIds : Option (List ShortId)
  progressPct : Option Nat
  deriving DecidableEq, Repr

/-- An envelope around one of the five content bodies, sealed under an epoch's room key. -/
structure EncryptedContent where
  innerType : EventType
  keyEpoch : Nat
  suite : UInt8
  nonce : BitVec 96
  ciphertext : Bytes
  deriving DecidableEq, Repr

/-- Typed, strictly parsed event content. -/
inductive Content
  | roomCreated (c : RoomCreated)
  | memberInvited (c : MemberInvited)
  | memberJoined (c : MemberJoined)
  | memberLeft (c : MemberLeft)
  | memberRemoved (c : MemberRemoved)
  | messageText (c : MessageText)
  | fileShared (c : FileShared)
  | pipeOpened (c : PipeOpened)
  | pipeClosed (c : PipeClosed)
  | agentStatus (c : AgentStatus)
  | encrypted (c : EncryptedContent)
  | memberKeyDistribution (c : MemberKeyDistribution)
  deriving DecidableEq, Repr

def Content.eventType : Content → EventType
  | roomCreated _ => .roomCreated
  | memberInvited _ => .memberInvited
  | memberJoined _ => .memberJoined
  | memberLeft _ => .memberLeft
  | memberRemoved _ => .memberRemoved
  | messageText _ => .messageText
  | fileShared _ => .fileShared
  | pipeOpened _ => .pipeOpened
  | pipeClosed _ => .pipeClosed
  | agentStatus _ => .agentStatus
  | encrypted _ => .contentEncrypted
  | memberKeyDistribution _ => .memberKeyDistribution

/-- Why an event is rejected, by the stateless checks or by the membership fold. -/
inductive RejectReason
  | unknownSchemaVersion | unknownEventType | nonCanonicalEncoding | idMismatch | badSignature
  | roomIdMismatch | invalidContent | tooManyParents | notGenesisDescended
  | unboundDevice | notAMember | insufficientRole | expiredInvite | badCapability | roomFull
  deriving DecidableEq, Repr

/-- Advisory flags: they never change a verdict. -/
inductive Flag
  | clockSkew | equivocation | fromRemovedMember
  deriving DecidableEq, Repr

/-! ### Checks against the envelope -/

/-- The binding's signature verifies under its identity key for this room. -/
def DeviceBinding.verify (env : Env) (b : DeviceBinding) (roomId : RoomId) : Except RejectReason Unit :=
  if env.verify b.identityKey.bits (bindingMessage roomId b.identityKey b.deviceKey) b.sig then .ok ()
  else .error .invalidContent

/-- An embedded binding attests exactly this sender and device, and verifies. -/
def checkBinding (env : Env) (b : DeviceBinding) (senderId : IdentityKey) (deviceId : DeviceKey)
    (roomId : RoomId) : Except RejectReason Unit :=
  if b.identityKey ≠ senderId ∨ b.deviceKey ≠ deviceId then .error .invalidContent else b.verify env roomId

/-- The binding a content carries, if any. -/
def Content.deviceBinding? : Content → Option DeviceBinding
  | roomCreated c => some c.deviceBinding
  | memberJoined c => some c.deviceBinding
  | memberRemoved c => c.deviceBinding
  | _ => none

/-- Verify the self-contained binding of the three carrying types. -/
def verifyBindings (env : Env) (content : Content) (senderId : IdentityKey) (deviceId : DeviceKey)
    (roomId : RoomId) : Except RejectReason Unit :=
  match content with
  | .roomCreated c => checkBinding env c.deviceBinding senderId deviceId roomId
  | .memberJoined c => checkBinding env c.deviceBinding senderId deviceId roomId
  | .memberRemoved c =>
    match c.deviceBinding with
    | some binding => checkBinding env binding senderId deviceId roomId
    | none => .ok ()
  | _ => .ok ()

/-- The per-type rules that need only the sender's identity. -/
def checkFieldRules (content : Content) (senderId : IdentityKey) : Except RejectReason Unit :=
  match content with
  | .roomCreated c => if c.admins ≠ [senderId] then .error .invalidContent else .ok ()
  | .memberLeft c => if c.memberId ≠ senderId then .error .invalidContent else .ok ()
  | .memberRemoved c =>
    if c.removedBy ≠ senderId ∨ c.memberId = senderId then .error .invalidContent else .ok ()
  | .pipeOpened c => if c.ownerId ≠ senderId then .error .invalidContent else .ok ()
  | _ => .ok ()

theorem checkBinding_ok {env : Env} {b : DeviceBinding} {s : IdentityKey} {d : DeviceKey} {room : RoomId}
    (h : checkBinding env b s d room = .ok ()) :
    b.identityKey = s ∧ b.deviceKey = d ∧ b.verify env room = .ok () := by
  unfold checkBinding at h
  split at h
  · cases h
  · rename_i hne
    obtain ⟨h₁, h₂⟩ := not_or.mp hne
    exact ⟨not_not.mp h₁, not_not.mp h₂, h⟩

/-- Every binding that a checked content carries attests the envelope's sender and device. -/
theorem verifyBindings_ok {env : Env} {content : Content} {s : IdentityKey} {d : DeviceKey} {room : RoomId}
    (h : verifyBindings env content s d room = .ok ()) {b : DeviceBinding}
    (hb : content.deviceBinding? = some b) :
    b.identityKey = s ∧ b.deviceKey = d ∧ b.verify env room = .ok () := by
  cases content with
  | roomCreated c =>
    cases hb
    exact checkBinding_ok h
  | memberJoined c =>
    cases hb
    exact checkBinding_ok h
  | memberRemoved c =>
    simp only [Content.deviceBinding?] at hb
    simp only [verifyBindings, hb] at h
    exact checkBinding_ok h
  | _ => cases hb

end IrohRooms
