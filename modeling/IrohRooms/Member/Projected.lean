import IrohRooms.Governance.Fields
import IrohRooms.Governance.State

/-!
# Projected member records

The strict reader of a member record: canonical bytes, a closed set of keys, and the rules that tie its fields together.
Its bytes are what a leaf of the member tree commits to. No field of the schema holds a `null`, so the codec is that of
the signed events.
-/

namespace IrohRooms.Member

open Governance

/-- Only known keys, each once. -/
def validateClosedKeys (entries : List (String × CborValue)) (allowed : List String) : Except Reject Unit :=
  if (entries.all fun e => allowed.contains e.1) ∧ (entries.map Prod.fst).Nodup then .ok () else .error .invalidContent

/-- Sorted and without duplicates. -/
def isSortedUnique (roles : List String) : Bool :=
  decide roles.Nodup && !windowsAny (fun a b => decide (b < a)) roles

def readActiveDevice (value : CborValue) : Except Reject ActiveDevice := do
  let entries ← orReject .nonCanonicalEncoding value.asMap
  validateClosedKeys entries ["device_id", "binding"]
  let deviceId ← idField .invalidContent .nonCanonicalEncoding .nonCanonicalEncoding entries "device_id"
  let binding ← field .invalidContent .nonCanonicalEncoding CborValue.asBytes entries "binding"
  pure ⟨deviceId, binding⟩

end IrohRooms.Member

namespace IrohRooms.Governance.ProjectedMemberRecord

open Member

def validate (r : ProjectedMemberRecord) : Except Reject Unit :=
  if r.status = .active ∧ r.roles = [] then .error .invalidContent
  else if isSortedUnique r.roles = false ∨ (r.roles.any fun role => (Role.parse role).isOk = false) then
    .error .invalidContent
  else if windowsAny (fun a b : ActiveDevice => decide (b.deviceId ≤ a.deviceId)) r.activeDevices then
    .error .invalidContent
  else match r.status, r.revokeSeq with
    | .active, some _ => .error .invalidContent
    | .revoked, none => .error .invalidContent
    | .revoked, some seq => if seq.toNat ≤ r.grantSeq.toNat then .error .invalidContent else .ok ()
    | .active, none => .ok ()

def fromCanonical (value : CborValue) : Except Reject ProjectedMemberRecord := do
  let entries ← orReject .nonCanonicalEncoding value.asMap
  validateClosedKeys entries ["member_id", "status", "roles", "active_devices", "grant_seq", "revoke_seq", "profile"]
  let memberId ← idField .invalidContent .nonCanonicalEncoding .nonCanonicalEncoding entries "member_id"
  let status ← MemberStatus.parse (← field .invalidContent .nonCanonicalEncoding CborValue.asText entries "status")
  let roleValues ← field .invalidContent .nonCanonicalEncoding CborValue.asArray entries "roles"
  let roles ← roleValues.mapM fun v => orReject .nonCanonicalEncoding v.asText
  let deviceValues ← field .invalidContent .nonCanonicalEncoding CborValue.asArray entries "active_devices"
  let activeDevices ← deviceValues.mapM readActiveDevice
  let grantSeq ← field .invalidContent .nonCanonicalEncoding CborValue.asUint entries "grant_seq"
  let revokeSeq ← optionalField .nonCanonicalEncoding CborValue.asUint entries "revoke_seq"
  let profile ← optionalField .nonCanonicalEncoding CborValue.asBytes entries "profile"
  let record : ProjectedMemberRecord := ⟨memberId, status, roles, activeDevices, grantSeq, revokeSeq, profile⟩
  record.validate
  pure record

def canonicalBytes (r : ProjectedMemberRecord) : Bytes := Cbor.encode r.toCbor

def fromBytes (input : Bytes) : Except Reject ProjectedMemberRecord :=
  match Cbor.decodeCanonical input with
  | .ok value => fromCanonical value
  | .error _ => .error .nonCanonicalEncoding

/-- The record of an administrator of the genesis. -/
def genesisAdmin (memberId : PrincipalId) (role : String) : ProjectedMemberRecord :=
  ⟨memberId, .active, [role], [], 0, none, none⟩

end IrohRooms.Governance.ProjectedMemberRecord
