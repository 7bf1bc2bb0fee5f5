import Mathlib.Data.List.Lex
import IrohRooms.RoomGovernance.Model

/-!
# Forks and their resolution

Two entries of one author at one position are a fork. Both are kept as evidence, and no winner is picked until the
admin resolves the fork. A resolution is read only under the key it names as its signer.
-/

namespace IrohRooms.RoomGovernance

open Governance (Id Reject orReject field idOf idField rejectUnknownKeys)

/-- Two entries of one author at one position, in ascending order. -/
structure ForkEvidence where
  author : MemberId
  conflicting : GovernanceEntryId × GovernanceEntryId
  seq : UInt64
  resolved : Bool
  deriving DecidableEq

namespace ForkEvidence

/-- Field by field, in the order of their declaration. -/
def rank (f : ForkEvidence) : List Nat :=
  [f.author.num, f.conflicting.1.num, f.conflicting.2.num, f.seq.toNat, f.resolved.toNat]

theorem rank_injective : Function.Injective rank := by
  rintro ⟨a, ⟨x, y⟩, s, r⟩ ⟨a', ⟨x', y'⟩, s', r'⟩ h
  simp only [rank, List.cons.injEq, and_true] at h
  obtain ⟨ha, hx, hy, hs, hr⟩ := h
  obtain rfl := Id.num_injective ha
  obtain rfl := Id.num_injective hx
  obtain rfl := Id.num_injective hy
  obtain rfl := UInt64.toNat_inj.mp hs
  obtain rfl : r = r' := by revert hr; cases r <;> cases r' <;> simp
  rfl

instance : LinearOrder ForkEvidence := LinearOrder.lift' rank rank_injective

end ForkEvidence

/-- The evidence that an entry forms with the tip of its author's chain, if it stands at the tip's position. -/
def detect (author : MemberId) (newId : GovernanceEntryId) (newSeq : UInt64)
    (existingTip : Option (UInt64 × GovernanceEntryId)) : Option ForkEvidence :=
  match existingTip with
  | none => none
  | some (tipSeq, tipId) =>
    if tipSeq ≠ newSeq ∨ tipId = newId then none
    else some ⟨author, (min tipId newId, max tipId newId), newSeq, false⟩

inductive ForkResolveAction
  | accept (winner : GovernanceEntryId)
  | reject
  deriving DecidableEq

namespace ForkResolveAction

def toCbor : ForkResolveAction → CborValue
  | .accept winner => .map [("type", .text "accept"), ("winner", winner.toCbor)]
  | .reject => .map [("type", .text "reject")]

def acceptFrom (entries : List (String × CborValue)) (evidence : GovernanceEntryId × GovernanceEntryId) :
    Except Reject ForkResolveAction := do
  rejectUnknownKeys entries ["type", "winner"] .invalidForkResolution
  let winner ← idField .invalidForkResolution .invalidForkResolution .invalidForkResolution entries "winner"
  if winner ≠ evidence.1 ∧ winner ≠ evidence.2 then .error .invalidForkResolution else pure (.accept winner)

def rejectFrom (entries : List (String × CborValue)) : Except Reject ForkResolveAction := do
  rejectUnknownKeys entries ["type"] .invalidForkResolution
  pure .reject

def fromCbor (value : CborValue) (evidence : GovernanceEntryId × GovernanceEntryId) :
    Except Reject ForkResolveAction := do
  let entries ← orReject .invalidForkResolution value.asMap
  let type ← field .invalidForkResolution .invalidForkResolution CborValue.asText entries "type"
  match type with
  | "accept" => acceptFrom entries evidence
  | "reject" => rejectFrom entries
  | _ => .error .invalidForkResolution

end ForkResolveAction

structure ForkResolutionBody where
  schemaVersion : UInt64
  roomId : RoomId
  signer : MemberId
  evidence : GovernanceEntryId × GovernanceEntryId
  action : ForkResolveAction
  epoch : UInt64
  deriving DecidableEq

namespace ForkResolutionBody

def toCbor (b : ForkResolutionBody) : CborValue :=
  .map [("schema_version", .uint b.schemaVersion), ("room_id", b.roomId.toCbor), ("signer", b.signer.toCbor),
    ("evidence", .array [b.evidence.1.toCbor, b.evidence.2.toCbor]), ("epoch", .uint b.epoch),
    ("action", b.action.toCbor)]

/-- Exactly two ids. -/
def pairFrom : List CborValue → Except Reject (GovernanceEntryId × GovernanceEntryId)
  | [first, second] => do
    let first ← idOf .nonCanonicalEncoding .nonCanonicalEncoding first
    let second ← idOf .nonCanonicalEncoding .nonCanonicalEncoding second
    pure (first, second)
  | _ => .error .invalidForkResolution

def readEvidence (entries : List (String × CborValue)) : Except Reject (GovernanceEntryId × GovernanceEntryId) := do
  let items ← field .nonCanonicalEncoding .nonCanonicalEncoding CborValue.asArray entries "evidence"
  pairFrom items

def keys : List String := ["schema_version", "room_id", "signer", "evidence", "epoch", "action"]

def fromCanonical (value : CborValue) : Except Reject ForkResolutionBody := do
  let entries ← orReject .nonCanonicalEncoding value.asMap
  rejectUnknownKeys entries keys .nonCanonicalEncoding
  let version ← uintField entries "schema_version"
  if version ≠ RoomGovernance.schemaVersion then .error .unknownVersion
  else
    let roomId ← readIdField entries "room_id"
    let signer ← readIdField entries "signer"
    let evidence ← readEvidence entries
    let epoch ← uintField entries "epoch"
    let actionVal ← orReject .nonCanonicalEncoding (entries.lookup "action")
    let action ← ForkResolveAction.fromCbor actionVal evidence
    pure ⟨version, roomId, signer, evidence, action, epoch⟩

instance : SignedBody ForkResolutionBody .digest where
  signContext := Domain.forkResolveSign
  idContext := Domain.forkResolveId
  toCbor := toCbor
  fromCanonical := fromCanonical

/-- Unlike the other records, a resolution is bound to the key that signed its envelope. -/
def decodeVerified (env : Env) (e : Envelope .digest) : Except Reject ForkResolutionBody := do
  let body ← verifyEnvelope env ForkResolutionBody e
  if body.signer ≠ e.signer then .error .invalidForkResolution
  else
    match body.action with
    | .accept winner =>
      if winner ≠ body.evidence.1 ∧ winner ≠ body.evidence.2 then .error .invalidForkResolution else pure body
    | .reject => pure body

end ForkResolutionBody

end IrohRooms.RoomGovernance
