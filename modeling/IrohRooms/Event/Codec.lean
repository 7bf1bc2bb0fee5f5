import IrohRooms.Event.Cbor
import IrohRooms.Event.Validate

/-!
# Event codec

How the typed event is read from a canonical CBOR value and written back. A content map goes through the strict field
reader `Fields`, which marks the keys that were asked for and refuses the rest; the signed event and a device binding are
read by a loop over their entries. Writing lists the fields and leaves the order to the encoder.
-/

namespace IrohRooms

namespace CborValue

def asUint : CborValue → Option UInt64
  | .uint n => some n
  | _ => none

def asBytes : CborValue → Option Bytes
  | .bytes b => some b
  | _ => none

def asText : CborValue → Option String
  | .text s => some s
  | _ => none

def asArray : CborValue → Option (List CborValue)
  | .array items => some items
  | _ => none

def asMap : CborValue → Option (List (String × CborValue))
  | .map entries => some entries
  | _ => none

end CborValue

def okOr {α : Type} (o : Option α) (reason : RejectReason) : Except RejectReason α :=
  match o with
  | some a => .ok a
  | none => .error reason

/-- Refuse unless the condition holds. -/
def ensure (c : Prop) [Decidable c] : Except RejectReason Unit := if c then .ok () else .error .invalidContent

/-! ### Names -/

def Role.asStr : Role → String
  | member => "member"
  | agent => "agent"
  | admin => "admin"

def Role.ofStr : String → Option Role
  | "member" => some member
  | "agent" => some agent
  | "admin" => some admin
  | _ => none

namespace EventType

/-- The registry string of a type. -/
def asStr : EventType → String
  | roomCreated => "room.created"
  | memberInvited => "member.invited"
  | memberJoined => "member.joined"
  | memberLeft => "member.left"
  | memberRemoved => "member.removed"
  | messageText => "message.text"
  | fileShared => "file.shared"
  | pipeOpened => "pipe.opened"
  | pipeClosed => "pipe.closed"
  | agentStatus => "agent.status"
  | contentEncrypted => "content.encrypted"
  | memberKeyDistribution => "member.key_distribution"

def fromRegistry : String → Option EventType
  | "room.created" => some roomCreated
  | "member.invited" => some memberInvited
  | "member.joined" => some memberJoined
  | "member.left" => some memberLeft
  | "member.removed" => some memberRemoved
  | "message.text" => some messageText
  | "file.shared" => some fileShared
  | "pipe.opened" => some pipeOpened
  | "pipe.closed" => some pipeClosed
  | "agent.status" => some agentStatus
  | "content.encrypted" => some contentEncrypted
  | "member.key_distribution" => some memberKeyDistribution
  | _ => none

/-- The plaintext cap of a type inside an envelope; `none` means that it may not be sealed. -/
def maxEncryptedPlaintextBytes : EventType → Option Nat
  | messageText => some (16384 + 4096)
  | fileShared => some 4096
  | pipeOpened => some 8192
  | pipeClosed => some 1024
  | agentStatus => some 8192
  | _ => none

end EventType

/-! ### Values -/

/-- A byte string of `n` bytes. -/
def fixedBytes (reason : RejectReason) (n : Nat) (value : CborValue) : Except RejectReason (BitVec (8 * n)) := do
  let b ← okOr value.asBytes reason
  if b.length = n then .ok (BitVec.ofNat (8 * n) (Cbor.fromBeBytes b)) else .error reason

/-- A digest or a public key. -/
def fixed32 {kind : Kind} (reason : RejectReason) (value : CborValue) : Except RejectReason (Bytes32 kind) :=
  (fixedBytes reason 32 value).map Bytes32.mk

def arrayOf {α : Type} (reason : RejectReason) (item : CborValue → Except RejectReason α) (value : CborValue) :
    Except RejectReason (List α) := do
  let items ← okOr value.asArray reason
  items.mapM item

def textOf (reason : RejectReason) (value : CborValue) : Except RejectReason String := okOr value.asText reason

def uintOf (reason : RejectReason) (value : CborValue) : Except RejectReason Nat :=
  (okOr value.asUint reason).map UInt64.toNat

def bytesValue {n : Nat} (x : BitVec (8 * n)) : CborValue := .bytes (beBytes n x.toNat)

def keyValue {kind : Kind} (x : Bytes32 kind) : CborValue := .bytes x.asBytes

def uintValue (n : Nat) : CborValue := .uint (UInt64.ofNat n)

/-! ### Strict field reader -/

/-- The entries of a map and which of them were asked for. -/
structure Fields where
  entries : List (String × CborValue)
  consumed : List Bool

abbrev FieldReader := StateT Fields (Except RejectReason)

namespace Fields

def new (value : CborValue) : Except RejectReason Fields := do
  let entries ← okOr value.asMap .invalidContent
  pure ⟨entries, List.replicate entries.length false⟩

/-- Look up an optional key, marking its first entry. -/
def opt (key : String) : FieldReader (Option CborValue) := fun f =>
  match f.entries.findIdx? fun e => e.1 == key with
  | some idx => .ok ((f.entries[idx]?).map Prod.snd, { f with consumed := f.consumed.set idx true })
  | none => .ok (none, f)

def require (key : String) : FieldReader CborValue := do
  let value ← opt key
  okOr value .invalidContent

/-- Refuse keys that were not asked for. -/
def finish (f : Fields) : Except RejectReason Unit := if f.consumed.all id then .ok () else .error .invalidContent

def requireWith {α : Type} (key : String) (read : CborValue → Except RejectReason α) : FieldReader α := do
  let value ← require key
  read value

def optWith {α : Type} (key : String) (read : CborValue → Except RejectReason α) : FieldReader (Option α) := do
  match ← opt key with
  | some value => return some (← read value)
  | none => return none

def requireText (key : String) : FieldReader String := requireWith key (textOf .invalidContent)

def optText (key : String) : FieldReader (Option String) := optWith key (textOf .invalidContent)

/-- An optional text out of a list. -/
def optEnum (key : String) (allowed : List String) : FieldReader (Option String) := do
  let text ← optText key
  ensure (∀ s, text = some s → s ∈ allowed)
  return text

def requireUint (key : String) : FieldReader Nat := requireWith key (uintOf .invalidContent)

def optUint (key : String) : FieldReader (Option Nat) := optWith key (uintOf .invalidContent)

def requireBytes (n : Nat) (key : String) : FieldReader (BitVec (8 * n)) := requireWith key (fixedBytes .invalidContent n)

def requireKey {kind : Kind} (key : String) : FieldReader (Bytes32 kind) := requireWith key (fixed32 .invalidContent)

def optKey {kind : Kind} (key : String) : FieldReader (Option (Bytes32 kind)) := optWith key (fixed32 .invalidContent)

def requireKeyArray {kind : Kind} (key : String) : FieldReader (List (Bytes32 kind)) :=
  requireWith key (arrayOf .invalidContent (fixed32 .invalidContent))

/-- An optional array of identity or device keys. -/
def optKeyArray {kind : Kind} (key : String) : FieldReader (Option (List (Bytes32 kind))) :=
  optWith key (arrayOf .invalidContent (fixed32 .invalidContent))

def optShortIdArray (key : String) : FieldReader (Option (List ShortId)) :=
  optWith key (arrayOf .invalidContent (fixedBytes .invalidContent 16))

/-- The role of an invite or a join, one of three words. -/
def requireRole (key : String) : FieldReader Role :=
  requireWith key fun value => do okOr (Role.ofStr (← textOf .invalidContent value)) .invalidContent

end Fields

/-- Read a whole map, with no key left over. -/
def readFields {α : Type} (read : FieldReader α) (value : CborValue) : Except RejectReason α := do
  let f ← Fields.new value
  let (a, f) ← read f
  f.finish
  pure a

/-! ### Parsers -/

namespace DeviceBinding

/-- The fields of a binding that were seen so far. -/
structure Slots where
  identityKey : Option IdentityKey
  deviceKey : Option DeviceKey
  sig : Option Signature

def readEntry (s : Slots) (e : String × CborValue) : Except RejectReason Slots :=
  match e.1 with
  | "identity_key" => do return { s with identityKey := some (← fixed32 .invalidContent e.2) }
  | "device_key" => do return { s with deviceKey := some (← fixed32 .invalidContent e.2) }
  | "sig" => do return { s with sig := some (← fixedBytes .invalidContent 64 e.2) }
  | _ => .error .invalidContent

def fromCbor (value : CborValue) : Except RejectReason DeviceBinding := do
  let entries ← okOr value.asMap .invalidContent
  ensure (entries.length = 3)
  let s ← entries.foldlM readEntry ⟨none, none, none⟩
  let identityKey ← okOr s.identityKey .invalidContent
  let deviceKey ← okOr s.deviceKey .invalidContent
  let sig ← okOr s.sig .invalidContent
  return ⟨identityKey, deviceKey, sig⟩

end DeviceBinding

open Fields

def parseRoomCreated : FieldReader RoomCreated := do
  let roomName ← requireText "room_name"
  let roomNonce ← requireBytes 16 "room_nonce"
  let admins ← requireKeyArray "admins"
  let deviceBinding ← requireWith "device_binding" DeviceBinding.fromCbor
  return ⟨roomName, roomNonce, admins, deviceBinding⟩

def parseMemberInvited : FieldReader MemberInvited := do
  let inviteId ← requireBytes 16 "invite_id"
  let capabilityHash ← requireBytes 32 "capability_hash"
  let role ← requireRole "role"
  let inviteeKey ← requireKey "invitee_key"
  let expiresAt ← optUint "expires_at"
  let inviteeHint ← optText "invitee_hint"
  return ⟨inviteId, capabilityHash, role, inviteeKey, expiresAt, inviteeHint⟩

def parseMemberJoined : FieldReader MemberJoined := do
  let viaInviteId ← requireBytes 16 "via_invite_id"
  let capabilitySecret ← requireBytes 16 "capability_secret"
  let role ← requireRole "role"
  let deviceBinding ← requireWith "device_binding" DeviceBinding.fromCbor
  let displayName ← optText "display_name"
  return ⟨viaInviteId, capabilitySecret, role, deviceBinding, displayName⟩

def parseMemberLeft : FieldReader MemberLeft := do
  let memberId ← requireKey "member_id"
  let reason ← optText "reason"
  return ⟨memberId, reason⟩

/-- One recipient: a device and a record, of which three keys are looked up. -/
def parseWrappedKey (item : CborValue) : Except RejectReason (DeviceKey × WrappedKeyEntry) := do
  match ← okOr item.asArray .invalidContent with
  | [device, wrapped] =>
    let device ← fixed32 .invalidContent device
    let record ← okOr wrapped.asMap .invalidContent
    let ephemeralPublic ← fixedBytes .invalidContent 32 (← okOr (record.lookup "ephemeral_public") .invalidContent)
    let nonce ← fixedBytes .invalidContent 12 (← okOr (record.lookup "nonce") .invalidContent)
    let ciphertext ← fixedBytes .invalidContent 48 (← okOr (record.lookup "ciphertext") .invalidContent)
    return (device, ⟨ephemeralPublic, nonce, ciphertext⟩)
  | _ => .error .invalidContent

def parseWrappedKeys (value : CborValue) : Except RejectReason (List (DeviceKey × WrappedKeyEntry)) :=
  arrayOf .invalidContent parseWrappedKey value

def parseMemberKeyDistribution : FieldReader MemberKeyDistribution := do
  let newEpoch ← requireUint "new_epoch"
  let keyCommitment ← requireBytes 32 "key_commitment"
  let wrappedKeys ← requireWith "wrapped_keys" parseWrappedKeys
  return ⟨newEpoch, keyCommitment, wrappedKeys⟩

def parseMemberKeyDistributionValue (value : CborValue) : Except RejectReason MemberKeyDistribution :=
  readFields parseMemberKeyDistribution value

def parseMemberRemoved : FieldReader MemberRemoved := do
  let memberId ← requireKey "member_id"
  let removedBy ← requireKey "removed_by"
  let reason ← optText "reason"
  let deviceBinding ← optWith "device_binding" DeviceBinding.fromCbor
  let rotation ← optWith "rotation" parseMemberKeyDistributionValue
  return ⟨memberId, removedBy, reason, deviceBinding, rotation⟩

def maxMessageBodyBytes : Nat := 16384

def parseMessageText : FieldReader MessageText := do
  let body ← requireText "body"
  ensure (body.utf8ByteSize ≤ maxMessageBodyBytes)
  let format ← optEnum "format" ["plain", "markdown"]
  let inReplyTo ← optKey "in_reply_to"
  let mentions ← optKeyArray "mentions"
  return ⟨body, format, inReplyTo, mentions⟩

/-- A Unicode control character. -/
def isControl (c : Char) : Bool := c.toNat < 0x20 || 0x7F ≤ c.toNat && c.toNat ≤ 0x9F

/-- Two non-empty halves around the only slash, in printable ASCII without blanks. -/
def isWellFormedMime (s : String) : Bool :=
  let chars := s.toList
  let kind := chars.takeWhile (· ≠ '/')
  let rest := chars.dropWhile (· ≠ '/')
  chars.all (fun c => c.toNat < 0x80 && !isControl c && c ≠ ' ') &&
    rest ≠ [] && kind ≠ [] && rest.tail ≠ [] && !rest.tail.contains '/'

def maxSharedFileBytes : Nat := 104857600

def parseFileShared : FieldReader FileShared := do
  let fileId ← requireBytes 16 "file_id"
  let name ← requireText "name"
  ensure (name ≠ "" ∧ name.utf8ByteSize ≤ 255 ∧ name.toList.any isControl = false)
  let mimeType ← requireText "mime_type"
  ensure (mimeType ≠ "" ∧ mimeType.utf8ByteSize ≤ 255 ∧ isWellFormedMime mimeType = true)
  let sizeBytes ← requireUint "size_bytes"
  ensure (sizeBytes ≤ maxSharedFileBytes)
  let blobHash ← requireKey "blob_hash"
  let blobFormat ← optEnum "blob_format" ["raw", "hash_seq"]
  let providers ← optKeyArray "providers"
  ensure (∀ ps, providers = some ps → ps ≠ [] ∧ ps.length ≤ 16)
  return ⟨fileId, name, mimeType, sizeBytes, blobHash, blobFormat, providers⟩

def parsePipeOpened : FieldReader PipeOpened := do
  let pipeId ← requireBytes 16 "pipe_id"
  let ownerId ← requireKey "owner_id"
  let ownerEndpoint ← requireKey "owner_endpoint"
  let kind ← requireText "kind"
  ensure (kind = "tcp")
  let label ← requireText "label"
  let targetHint ← requireText "target_hint"
  let alpn ← requireText "alpn"
  let allowedMembers ← requireKeyArray "allowed_members"
  ensure (allowedMembers ≠ [])
  let expiresAt ← optUint "expires_at"
  return ⟨pipeId, ownerId, ownerEndpoint, kind, label, targetHint, alpn, allowedMembers, expiresAt⟩

def parsePipeClosed : FieldReader PipeClosed := do
  let pipeId ← requireBytes 16 "pipe_id"
  let reason ← optEnum "reason" ["closed", "expired", "owner_exit", "error"]
  return ⟨pipeId, reason⟩

def encryptedSuiteV1 : Nat := 1

def encryptedTagLen : Nat := 16

/-- A registered type that may be sealed, with its cap. -/
def sealedType (value : CborValue) : Except RejectReason (EventType × Nat) := do
  let innerType ← okOr (EventType.fromRegistry (← textOf .invalidContent value)) .invalidContent
  let plaintextCap ← okOr innerType.maxEncryptedPlaintextBytes .invalidContent
  return (innerType, plaintextCap)

def parseEncrypted : FieldReader EncryptedContent := do
  let (innerType, plaintextCap) ← requireWith "inner_type" sealedType
  let keyEpoch ← requireUint "key_epoch"
  let suite ← requireUint "suite"
  ensure (suite = encryptedSuiteV1)
  let nonce ← requireBytes 12 "nonce"
  let ciphertext ← requireWith "ciphertext" fun value => okOr value.asBytes .invalidContent
  ensure (encryptedTagLen ≤ ciphertext.length ∧ ciphertext.length ≤ plaintextCap + encryptedTagLen)
  return ⟨innerType, keyEpoch, UInt8.ofNat suite, nonce, ciphertext⟩

def parseAgentStatus : FieldReader AgentStatus := do
  let status ← requireText "status"
  ensure (status ≠ "" ∧ status.utf8ByteSize ≤ 64 ∧ status.toList.any isControl = false)
  let message ← optText "message"
  ensure (∀ m, message = some m → m.utf8ByteSize ≤ 4096)
  let relatedArtifactIds ← optShortIdArray "related_artifact_ids"
  ensure (∀ ids, relatedArtifactIds = some ids → ids ≠ [] ∧ ids.length ≤ 16)
  let progressPct ← optUint "progress_pct"
  ensure (∀ pct, progressPct = some pct → pct ≤ 100)
  return ⟨status, message, relatedArtifactIds, progressPct⟩

/-- Strictly parse a content map of the given type. -/
def Content.parse (eventType : EventType) (value : CborValue) : Except RejectReason Content :=
  match eventType with
  | .roomCreated => (readFields parseRoomCreated value).map .roomCreated
  | .memberInvited => (readFields parseMemberInvited value).map .memberInvited
  | .memberJoined => (readFields parseMemberJoined value).map .memberJoined
  | .memberLeft => (readFields parseMemberLeft value).map .memberLeft
  | .memberRemoved => (readFields parseMemberRemoved value).map .memberRemoved
  | .messageText => (readFields parseMessageText value).map .messageText
  | .fileShared => (readFields parseFileShared value).map .fileShared
  | .pipeOpened => (readFields parsePipeOpened value).map .pipeOpened
  | .pipeClosed => (readFields parsePipeClosed value).map .pipeClosed
  | .agentStatus => (readFields parseAgentStatus value).map .agentStatus
  | .contentEncrypted => (readFields parseEncrypted value).map .encrypted
  | .memberKeyDistribution => (readFields parseMemberKeyDistribution value).map .memberKeyDistribution

/-! ### Writers -/

/-- Canonical key order: by length, then bytewise. -/
def keyLe (a b : String) : Bool :=
  a.utf8ByteSize < b.utf8ByteSize || a.utf8ByteSize = b.utf8ByteSize && decide (Cbor.asBytes a ≤ Cbor.asBytes b)

def sortIntoMap (entries : List (String × CborValue)) : CborValue :=
  .map (entries.insertionSort fun a b => keyLe a.1 b.1)

def textEntry (key value : String) : String × CborValue := (key, .text value)

def bytesEntry {n : Nat} (key : String) (value : BitVec (8 * n)) : String × CborValue := (key, bytesValue value)

def keyEntry {kind : Kind} (key : String) (value : Bytes32 kind) : String × CborValue := (key, keyValue value)

def uintEntry (key : String) (value : Nat) : String × CborValue := (key, uintValue value)

/-- An entry that is written only when present. -/
def pushOpt {α : Type} (entry : α → String × CborValue) (value : Option α) : List (String × CborValue) :=
  (value.map entry).toList

def pushOptText (key : String) (value : Option String) : List (String × CborValue) := pushOpt (textEntry key) value

def pushOptUint (key : String) (value : Option Nat) : List (String × CborValue) := pushOpt (uintEntry key) value

def keyArray {kind : Kind} (keys : List (Bytes32 kind)) : CborValue := .array (keys.map keyValue)

def DeviceBinding.toCbor (b : DeviceBinding) : CborValue :=
  .map [keyEntry "identity_key" b.identityKey, keyEntry "device_key" b.deviceKey, ("sig", bytesValue (n := 64) b.sig)]

def wrappedKeyRecord (entry : WrappedKeyEntry) : CborValue :=
  .map [("ephemeral_public", bytesValue (n := 32) entry.ephemeralPublic), ("nonce", bytesValue (n := 12) entry.nonce),
    ("ciphertext", bytesValue (n := 48) entry.ciphertext)]

/-- The recipients in the order of their devices; the sort is stable. -/
def wrappedKeysToCbor (keys : List (DeviceKey × WrappedKeyEntry)) : CborValue :=
  .array ((keys.insertionSort fun a b => a.1 ≤ b.1).map fun p => .array [keyValue p.1, wrappedKeyRecord p.2])

def MemberKeyDistribution.toCbor (d : MemberKeyDistribution) : CborValue :=
  sortIntoMap [uintEntry "new_epoch" d.newEpoch, ("key_commitment", bytesValue (n := 32) d.keyCommitment),
    ("wrapped_keys", wrappedKeysToCbor d.wrappedKeys)]

def Content.toCbor : Content → CborValue
  | .roomCreated c => sortIntoMap [textEntry "room_name" c.roomName, bytesEntry (n := 16) "room_nonce" c.roomNonce,
      ("admins", keyArray c.admins), ("device_binding", c.deviceBinding.toCbor)]
  | .memberInvited c => sortIntoMap ([bytesEntry (n := 16) "invite_id" c.inviteId,
      bytesEntry (n := 32) "capability_hash" c.capabilityHash, textEntry "role" c.role.asStr,
      keyEntry "invitee_key" c.inviteeKey] ++ pushOptUint "expires_at" c.expiresAt ++
      pushOptText "invitee_hint" c.inviteeHint)
  | .memberJoined c => sortIntoMap ([bytesEntry (n := 16) "via_invite_id" c.viaInviteId,
      bytesEntry (n := 16) "capability_secret" c.capabilitySecret, textEntry "role" c.role.asStr,
      ("device_binding", c.deviceBinding.toCbor)] ++ pushOptText "display_name" c.displayName)
  | .memberLeft c => sortIntoMap ([keyEntry "member_id" c.memberId] ++ pushOptText "reason" c.reason)
  | .memberRemoved c => sortIntoMap ([keyEntry "member_id" c.memberId, keyEntry "removed_by" c.removedBy] ++
      pushOptText "reason" c.reason ++ pushOpt (fun b => ("device_binding", b.toCbor)) c.deviceBinding ++
      pushOpt (fun d => ("rotation", d.toCbor)) c.rotation)
  | .messageText c => sortIntoMap ([textEntry "body" c.body] ++ pushOptText "format" c.format ++
      pushOpt (keyEntry "in_reply_to") c.inReplyTo ++ pushOpt (fun ks => ("mentions", keyArray ks)) c.mentions)
  | .fileShared c => sortIntoMap ([bytesEntry (n := 16) "file_id" c.fileId, textEntry "name" c.name,
      textEntry "mime_type" c.mimeType, uintEntry "size_bytes" c.sizeBytes, keyEntry "blob_hash" c.blobHash] ++
      pushOptText "blob_format" c.blobFormat ++ pushOpt (fun ks => ("providers", keyArray ks)) c.providers)
  | .pipeOpened c => sortIntoMap ([bytesEntry (n := 16) "pipe_id" c.pipeId, keyEntry "owner_id" c.ownerId,
      keyEntry "owner_endpoint" c.ownerEndpoint, textEntry "kind" c.kind, textEntry "label" c.label,
      textEntry "target_hint" c.targetHint, textEntry "alpn" c.alpn, ("allowed_members", keyArray c.allowedMembers)] ++
      pushOptUint "expires_at" c.expiresAt)
  | .pipeClosed c => sortIntoMap ([bytesEntry (n := 16) "pipe_id" c.pipeId] ++ pushOptText "reason" c.reason)
  | .agentStatus c => sortIntoMap ([textEntry "status" c.status] ++ pushOptText "message" c.message ++
      pushOpt (fun ids => ("related_artifact_ids", .array (ids.map (bytesValue (n := 16))))) c.relatedArtifactIds ++
      pushOptUint "progress_pct" c.progressPct)
  | .encrypted c => sortIntoMap [textEntry "inner_type" c.innerType.asStr, uintEntry "key_epoch" c.keyEpoch,
      uintEntry "suite" c.suite.toNat, bytesEntry (n := 12) "nonce" c.nonce, ("ciphertext", .bytes c.ciphertext)]
  | .memberKeyDistribution d => d.toCbor

/-! ### Signed events -/

namespace SignedEvent

/-- The canonical signed bytes. -/
def toCsb (e : SignedEvent) : Bytes :=
  Cbor.encode (.map [uintEntry "schema_version" e.schemaVersion, keyEntry "room_id" e.roomId,
    keyEntry "sender_id" e.senderId, keyEntry "device_id" e.deviceId, textEntry "event_type" e.eventType.asStr,
    uintEntry "created_at" e.createdAt, ("prev_events", keyArray e.prevEvents), ("content", e.content.toCbor)])

/-- The fields of a signed event that were seen so far. -/
structure Slots where
  schemaVersion : Option Nat
  roomId : Option RoomId
  senderId : Option IdentityKey
  deviceId : Option DeviceKey
  eventType : Option String
  createdAt : Option Nat
  prevEvents : Option (List EventId)
  content : Option CborValue

def readEntry (s : Slots) (e : String × CborValue) : Except RejectReason Slots :=
  match e.1 with
  | "schema_version" => do return { s with schemaVersion := some (← uintOf .nonCanonicalEncoding e.2) }
  | "room_id" => do return { s with roomId := some (← fixed32 .nonCanonicalEncoding e.2) }
  | "sender_id" => do return { s with senderId := some (← fixed32 .nonCanonicalEncoding e.2) }
  | "device_id" => do return { s with deviceId := some (← fixed32 .nonCanonicalEncoding e.2) }
  | "event_type" => do return { s with eventType := some (← textOf .nonCanonicalEncoding e.2) }
  | "created_at" => do return { s with createdAt := some (← uintOf .nonCanonicalEncoding e.2) }
  | "prev_events" => do
    return { s with prevEvents := some (← arrayOf .nonCanonicalEncoding (fixed32 .nonCanonicalEncoding) e.2) }
  | "content" => do
    let _ ← okOr e.2.asMap .nonCanonicalEncoding
    return { s with content := some e.2 }
  | _ => .error .nonCanonicalEncoding

/-- Exactly the eight typed keys, the schema version, a registered type and its content. -/
def fromCanonicalValue (value : CborValue) : Except RejectReason SignedEvent := do
  let entries ← okOr value.asMap .nonCanonicalEncoding
  if entries.length ≠ 8 then .error .nonCanonicalEncoding
  else
    let s ← entries.foldlM readEntry ⟨none, none, none, none, none, none, none, none⟩
    let version ← okOr s.schemaVersion .nonCanonicalEncoding
    let roomId ← okOr s.roomId .nonCanonicalEncoding
    let senderId ← okOr s.senderId .nonCanonicalEncoding
    let deviceId ← okOr s.deviceId .nonCanonicalEncoding
    let eventTypeStr ← okOr s.eventType .nonCanonicalEncoding
    let createdAt ← okOr s.createdAt .nonCanonicalEncoding
    let prevEvents ← okOr s.prevEvents .nonCanonicalEncoding
    let contentVal ← okOr s.content .nonCanonicalEncoding
    if version ≠ IrohRooms.schemaVersion then .error .unknownSchemaVersion
    else
      let eventType ← okOr (EventType.fromRegistry eventTypeStr) .unknownEventType
      let content ← Content.parse eventType contentVal
      return ⟨version, roomId, senderId, deviceId, eventType, createdAt, prevEvents, content⟩

def decode (signed : Bytes) : Except RejectReason SignedEvent :=
  match Cbor.decodeCanonical signed with
  | .error _ => .error .nonCanonicalEncoding
  | .ok value => fromCanonicalValue value

/-- The device named by a signed value, read before the rest. -/
def readDeviceId (value : CborValue) : Except RejectReason DeviceKey := do
  let entries ← okOr value.asMap .nonCanonicalEncoding
  fixed32 .nonCanonicalEncoding (← okOr (entries.lookup "device_id") .nonCanonicalEncoding)

end SignedEvent

end IrohRooms
