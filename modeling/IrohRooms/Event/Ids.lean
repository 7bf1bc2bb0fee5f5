import Mathlib.Algebra.Order.Ring.Nat

/-!
# Identifiers, keys and the build environment

Every 32-byte value of the protocol is a `Bytes32` tagged with its role, so an event id can not stand for a
key. The order is the bytewise one of the source's B-tree keys, which on 32 bytes is the order of the
big-endian number. `Env` collects what a build fixes from outside: BLAKE3, Ed25519 and the `large_rooms`
feature.
-/

namespace IrohRooms

abbrev Bytes := List UInt8

/-- What a 32-byte value stands for. -/
inductive Kind
  | event | room | hash | identity | device
  deriving DecidableEq, Repr

/-- Thirty-two bytes, read as a big-endian number. -/
structure Bytes32 (kind : Kind) where
  bits : BitVec 256
  deriving Repr

namespace Bytes32

variable {kind : Kind}

def num (x : Bytes32 kind) : Nat := x.bits.toNat

theorem num_injective : Function.Injective (num : Bytes32 kind → Nat) := by
  rintro ⟨x⟩ ⟨y⟩ h
  exact congrArg Bytes32.mk (BitVec.eq_of_toNat_eq h)

instance : LinearOrder (Bytes32 kind) := LinearOrder.lift' num num_injective

/-- The value of a small number, for concrete rooms. -/
def ofNat (n : Nat) : Bytes32 kind := ⟨BitVec.ofNat 256 n⟩

end Bytes32

/-- `BLAKE3(csb)` of a signed event. -/
abbrev EventId := Bytes32 .event

/-- A room's identifier, derived from its genesis. -/
abbrev RoomId := Bytes32 .room

abbrev HashRef := Bytes32 .hash

abbrev IdentityKey := Bytes32 .identity

/-- The Ed25519 key of a device, also its QUIC endpoint id. -/
abbrev DeviceKey := Bytes32 .device

/-- Sixteen bytes: invite ids, nonces, secrets, pipe and file handles. -/
abbrev ShortId := BitVec 128

abbrev Signature := BitVec 512

/-- The `n` bytes of a number, most significant first. -/
def beBytes (n x : Nat) : Bytes := (List.range n).map fun i => UInt8.ofNat (x >>> (8 * (n - 1 - i)))

def Bytes32.asBytes {kind : Kind} (x : Bytes32 kind) : Bytes := beBytes 32 x.num

/-- The seed of an Ed25519 key pair. -/
abbrev SigningKey := BitVec 256

/-- What a build fixes: the cryptographic libraries and the cargo feature that sets the room cap. -/
structure Env where
  blake3 : Bytes → BitVec 256
  publicKey : SigningKey → BitVec 256
  sign : SigningKey → Bytes → Signature
  verify : BitVec 256 → Bytes → Signature → Bool
  verify_sign : ∀ key msg, verify (publicKey key) msg (sign key msg) = true
  largeRooms : Bool

/-- The bytes of an ASCII context string. -/
def contextBytes (s : String) : Bytes := s.toList.map fun c => UInt8.ofNat c.toNat

def roomidContext : Bytes := contextBytes "iroh-rooms:room-id:v1"

def bindContext : Bytes := contextBytes "iroh-rooms:device-binding:v1"

def inviteContext : Bytes := contextBytes "iroh-rooms:invite:v1"

namespace Env

variable (env : Env)

/-- The room id a genesis commits to. -/
def deriveRoomId (creatorSenderId : IdentityKey) (roomNonce : ShortId) (createdAt : Nat) : RoomId :=
  ⟨env.blake3 (roomidContext ++ creatorSenderId.asBytes ++ beBytes 16 roomNonce.toNat ++ beBytes 8 createdAt)⟩

/-- The hash an invite publishes in place of its secret. -/
def capabilityHash (roomId : RoomId) (inviteId secret : ShortId) : BitVec 256 :=
  env.blake3 (inviteContext ++ roomId.asBytes ++ beBytes 16 inviteId.toNat ++ beBytes 16 secret.toNat)

def identityKey (key : SigningKey) : IdentityKey := ⟨env.publicKey key⟩

def deviceKey (key : SigningKey) : DeviceKey := ⟨env.publicKey key⟩

/-- The hard cap on active members. -/
def maxActiveMembers : Nat := if env.largeRooms then 40 else 5

end Env

/-- The message an identity signs to attest a device. -/
def bindingMessage (roomId : RoomId) (identityKey : IdentityKey) (deviceKey : DeviceKey) : Bytes :=
  bindContext ++ roomId.asBytes ++ identityKey.asBytes ++ deviceKey.asBytes

end IrohRooms
