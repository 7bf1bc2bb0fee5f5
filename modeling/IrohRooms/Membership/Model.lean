import IrohRooms.Lib.OrdMap
import IrohRooms.Event.Validate

/-!
# The membership model

Status and role are ordered so that the two merges of the fold are a maximum (Removed dominates) and a minimum
(least privilege). A `MembershipSnapshot` is what the access planes read: the members by identity, and the
identity bound to each device.
-/

namespace IrohRooms

/-- A subject's membership status; Removed dominates. -/
inductive Status
  | invited | active | removed
  deriving DecidableEq, Repr

namespace Status

def rank : Status → Nat
  | invited => 0
  | active => 1
  | removed => 2

theorem rank_inj {a b : Status} (h : a.rank = b.rank) : a = b := by
  cases a <;> cases b <;> first | rfl | exact absurd h (by decide)

instance : LinearOrder Status := LinearOrder.lift' rank fun _ _ => rank_inj

end Status

/-- The resolved state of one subject. -/
structure Member where
  identity : IdentityKey
  device : Option DeviceKey
  status : Status
  role : Role
  deriving DecidableEq, Repr

/-- The result of folding a set of accepted events. -/
structure MembershipSnapshot where
  roomId : RoomId
  admin : Option IdentityKey
  members : OrdMap IdentityKey Member
  byDevice : OrdMap DeviceKey IdentityKey
  deriving DecidableEq

namespace MembershipSnapshot

variable (s : MembershipSnapshot)

def member (id : IdentityKey) : Option Member := s.members.get? id

def status (id : IdentityKey) : Option Status := (s.member id).map Member.status

def isActive (id : IdentityKey) : Bool := s.status id == some .active

def identityOfDevice (dev : DeviceKey) : Option IdentityKey := s.byDevice.get? dev

/-- The Active members, in identity order. -/
def activeMembers : List Member := s.members.values.filter fun m => m.status == .active

def activeMemberCount : Nat := s.activeMembers.length

/-- The device the snapshot binds to an identity. -/
def boundDevice (id : IdentityKey) : Option DeviceKey := (s.member id).bind Member.device

theorem isActive_iff {s : MembershipSnapshot} {id : IdentityKey} :
    s.isActive id = true ↔ ∃ m, s.member id = some m ∧ m.status = .active := by
  simp [isActive, status, Option.map_eq_some_iff]

theorem boundDevice_eq_some {s : MembershipSnapshot} {id : IdentityKey} {d : DeviceKey} :
    s.boundDevice id = some d ↔ ∃ m, s.member id = some m ∧ m.device = some d := by
  simp [boundDevice, Option.bind_eq_some_iff]

end MembershipSnapshot

end IrohRooms
