import IrohRooms.Event.Validate

/-!
# Authoring events

The builders a participant uses, one per event type. Each signs with the participant's own keys, so what it
builds passes the stateless checks (`buildEvent_checked` and the corollaries), whatever its parents.
-/

namespace IrohRooms

variable (env : Env)

/-- An identity's attestation of a device. -/
def DeviceBinding.create (roomId : RoomId) (identitySecret : SigningKey) (deviceKey : DeviceKey) : DeviceBinding :=
  ⟨env.identityKey identitySecret, deviceKey,
    env.sign identitySecret (bindingMessage roomId (env.identityKey identitySecret) deviceKey)⟩

/-- The envelope every builder fills in the same way. -/
def buildEvent (identitySecret deviceSecret : SigningKey) (roomId : RoomId) (content : Content)
    (prevEvents : List EventId) (createdAt : Nat) : SignedEvent :=
  ⟨schemaVersion, roomId, env.identityKey identitySecret, env.deviceKey deviceSecret, content.eventType, createdAt,
    prevEvents, content⟩

section Builders

variable (identitySecret deviceSecret : SigningKey) (roomId : RoomId)

def buildRoomCreated (roomName : String) (roomNonce : ShortId) (createdAt : Nat) : SignedEvent :=
  let senderId := env.identityKey identitySecret
  let roomId := env.deriveRoomId senderId roomNonce createdAt
  let binding := DeviceBinding.create env roomId identitySecret (env.deviceKey deviceSecret)
  buildEvent env identitySecret deviceSecret roomId (.roomCreated ⟨roomName, roomNonce, [senderId], binding⟩) []
    createdAt

def buildMemberInvited (inviteId : ShortId) (capabilityHash : BitVec 256) (role : Role) (inviteeKey : IdentityKey)
    (expiresAt : Option Nat) (inviteeHint : Option String) (prevEvents : List EventId) (createdAt : Nat) :
    SignedEvent :=
  buildEvent env identitySecret deviceSecret roomId
    (.memberInvited ⟨inviteId, capabilityHash, role, inviteeKey, expiresAt, inviteeHint⟩) prevEvents createdAt

def buildMemberJoined (viaInviteId capabilitySecret : ShortId) (role : Role) (deviceBinding : DeviceBinding)
    (displayName : Option String) (prevEvents : List EventId) (createdAt : Nat) : SignedEvent :=
  buildEvent env identitySecret deviceSecret roomId
    (.memberJoined ⟨viaInviteId, capabilitySecret, role, deviceBinding, displayName⟩) prevEvents createdAt

def buildMemberLeft (reason : Option String) (prevEvents : List EventId) (createdAt : Nat) : SignedEvent :=
  buildEvent env identitySecret deviceSecret roomId (.memberLeft ⟨env.identityKey identitySecret, reason⟩)
    prevEvents createdAt

def buildMemberRemoved (subject : IdentityKey) (reason : Option String) (deviceBinding : Option DeviceBinding)
    (prevEvents : List EventId) (createdAt : Nat) : SignedEvent :=
  buildEvent env identitySecret deviceSecret roomId
    (.memberRemoved ⟨subject, env.identityKey identitySecret, reason, deviceBinding, none⟩) prevEvents createdAt

def buildMessageText (body : String) (format : Option String) (inReplyTo : Option EventId)
    (mentions : List IdentityKey) (prevEvents : List EventId) (createdAt : Nat) : SignedEvent :=
  buildEvent env identitySecret deviceSecret roomId
    (.messageText ⟨body, format, inReplyTo, if mentions = [] then none else some mentions⟩) prevEvents createdAt

def buildFileShared (fileId : ShortId) (name mimeType : String) (sizeBytes : Nat) (blobHash : HashRef)
    (blobFormat : Option String) (providers : List DeviceKey) (prevEvents : List EventId) (createdAt : Nat) :
    SignedEvent :=
  buildEvent env identitySecret deviceSecret roomId
    (.fileShared ⟨fileId, name, mimeType, sizeBytes, blobHash, blobFormat,
      if providers = [] then none else some providers⟩) prevEvents createdAt

def buildPipeOpened (pipeId : ShortId) (ownerEndpoint : DeviceKey) (label targetHint alpn : String)
    (allowedMembers : List IdentityKey) (expiresAt : Option Nat) (prevEvents : List EventId) (createdAt : Nat) :
    SignedEvent :=
  buildEvent env identitySecret deviceSecret roomId
    (.pipeOpened ⟨pipeId, env.identityKey identitySecret, ownerEndpoint, "tcp", label, targetHint, alpn,
      allowedMembers, expiresAt⟩) prevEvents createdAt

def buildPipeClosed (pipeId : ShortId) (reason : Option String) (prevEvents : List EventId) (createdAt : Nat) :
    SignedEvent :=
  buildEvent env identitySecret deviceSecret roomId (.pipeClosed ⟨pipeId, reason⟩) prevEvents createdAt

end Builders

/-! ### What is built is valid -/

variable {env} {identitySecret deviceSecret : SigningKey} {roomId : RoomId}

theorem checkBinding_create : checkBinding env
    (DeviceBinding.create env roomId identitySecret (env.deviceKey deviceSecret)) (env.identityKey identitySecret)
    (env.deviceKey deviceSecret) roomId = .ok () := by
  have hverify := env.verify_sign identitySecret
    (bindingMessage roomId (env.identityKey identitySecret) (env.deviceKey deviceSecret))
  unfold checkBinding DeviceBinding.verify
  rw [if_neg (by simp [DeviceBinding.create])]
  exact if_pos hverify

theorem buildRoomCreated_checked (roomName : String) (roomNonce : ShortId) (createdAt : Nat) :
    checkDecoded env (env.deriveRoomId (env.identityKey identitySecret) roomNonce createdAt)
      (buildRoomCreated env identitySecret deviceSecret roomName roomNonce createdAt) = .ok () := by
  simp only [checkDecoded, buildRoomCreated, buildEvent, checkFieldRules, checkRoom, verifyBindings, checkCausal,
    checkBinding_create]
  simp [maxPrevEvents]
  rfl

/-- A content that is no genesis, obeys the field rules and whose binding checks is valid under any parents. -/
theorem buildEvent_checked {content : Content} {prevEvents : List EventId} (createdAt : Nat)
    (hgenesis : content.eventType ≠ .roomCreated)
    (hrules : checkFieldRules content (env.identityKey identitySecret) = .ok ())
    (hbinding : verifyBindings env content (env.identityKey identitySecret) (env.deviceKey deviceSecret) roomId
      = .ok ())
    (hne : prevEvents ≠ []) (hlen : prevEvents.length ≤ maxPrevEvents) :
    checkDecoded env roomId (buildEvent env identitySecret deviceSecret roomId content prevEvents createdAt)
      = .ok () := by
  have hroom : checkRoom env roomId
      (buildEvent env identitySecret deviceSecret roomId content prevEvents createdAt) = .ok () := by
    cases content <;> simp_all [checkRoom, buildEvent, Content.eventType]
  have hcausal : checkCausal
      (buildEvent env identitySecret deviceSecret roomId content prevEvents createdAt) = .ok () := by
    unfold checkCausal
    rw [if_neg (by simpa [buildEvent] using hlen)]
    cases content <;> simp_all [buildEvent, Content.eventType]
  simp only [checkDecoded, hroom, hcausal]
  simp only [buildEvent, hrules, hbinding]
  rfl

/-! ### A worked room

A build with a checksum in place of BLAKE3 and Ed25519, in which concrete rooms can be run: participant `k` has
identity seed `2 k` and device seed `2 k + 1`, and participant `1` creates the room. -/

def checksum (bs : Bytes) : Nat := bs.foldl (fun acc b => (acc * 257 + b.toNat + 1) % 2 ^ 256) 0

def toyEnv : Env where
  blake3 bs := BitVec.ofNat 256 (checksum bs)
  publicKey key := key
  sign key msg := BitVec.ofNat 512 (checksum (beBytes 32 key.toNat ++ msg))
  verify key msg sig := sig == BitVec.ofNat 512 (checksum (beBytes 32 key.toNat ++ msg))
  verify_sign _ _ := beq_self_eq_true _
  largeRooms := false

namespace Toy

def idSeed (k : Nat) : SigningKey := BitVec.ofNat 256 (2 * k)

def devSeed (k : Nat) : SigningKey := BitVec.ofNat 256 (2 * k + 1)

def identity (k : Nat) : IdentityKey := toyEnv.identityKey (idSeed k)

def device (k : Nat) : DeviceKey := toyEnv.deviceKey (devSeed k)

def room : RoomId := toyEnv.deriveRoomId (identity 1) 0 100

def binding (k : Nat) : DeviceBinding := DeviceBinding.create toyEnv room (idSeed k) (device k)

def genesis : SignedEvent := buildRoomCreated toyEnv (idSeed 1) (devSeed 1) "room" 0 100

/-- Invite `k` under invite id and secret `n`. -/
def invite (k n : Nat) (role : Role) (expiresAt : Option Nat) (prev : List Nat) : SignedEvent :=
  buildMemberInvited toyEnv (idSeed 1) (devSeed 1) room (BitVec.ofNat 128 n)
    (toyEnv.capabilityHash room (BitVec.ofNat 128 n) (BitVec.ofNat 128 n)) role (identity k) expiresAt none
    (prev.map Bytes32.ofNat) 101

def join (k n : Nat) (role : Role) (prev : List Nat) : SignedEvent :=
  buildMemberJoined toyEnv (idSeed k) (devSeed k) room (BitVec.ofNat 128 n) (BitVec.ofNat 128 n) role (binding k)
    none (prev.map Bytes32.ofNat) 102

/-- The admin's removal of `k`, signed by the device of `dev`, without a binding of its own. -/
def remove (k dev : Nat) (prev : List Nat) : SignedEvent :=
  buildMemberRemoved toyEnv (idSeed 1) (devSeed dev) room (identity k) none none (prev.map Bytes32.ofNat) 103

def leave (k dev : Nat) (prev : List Nat) : SignedEvent :=
  buildMemberLeft toyEnv (idSeed k) (devSeed dev) room none (prev.map Bytes32.ofNat) 104

def message (k : Nat) (body : String) (prev : List Nat) : SignedEvent :=
  buildMessageText toyEnv (idSeed k) (devSeed k) room body none none [] (prev.map Bytes32.ofNat) 105

/-- Validate a log of decoded events, each under its id. -/
def log (events : List (Nat × SignedEvent)) : List (ValidatedEvent toyEnv room) :=
  events.filterMap fun p => (validate toyEnv ⟨room, none⟩ (Bytes32.ofNat p.1) p.2).toOption

theorem mem_log_congr {events events' : List (Nat × SignedEvent)} (h : ∀ p, p ∈ events ↔ p ∈ events')
    {v : ValidatedEvent toyEnv room} : v ∈ log events ↔ v ∈ log events' := by
  simp only [log, List.mem_filterMap, h]

theorem mem_log {events : List (Nat × SignedEvent)} {v : ValidatedEvent toyEnv room} (h : v ∈ log events) :
    (v.eventId, v.event) ∈ events.map fun p => (Bytes32.ofNat p.1, p.2) := by
  obtain ⟨p, hp, hv⟩ := List.mem_filterMap.mp h
  cases hval : validate toyEnv ⟨room, none⟩ (Bytes32.ofNat p.1) p.2 with
  | error reason => simp [hval, Except.toOption] at hv
  | ok w =>
    simp only [hval, Except.toOption, Option.some.injEq] at hv
    obtain ⟨hid, hevent⟩ := validate_ok hval
    rw [← hv, hid, hevent]
    exact List.mem_map_of_mem hp

end Toy

end IrohRooms
