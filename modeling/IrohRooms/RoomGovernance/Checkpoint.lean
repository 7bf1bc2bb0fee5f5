import IrohRooms.Event.CborNormal
import IrohRooms.Member.Sparse
import IrohRooms.RoomGovernance.Authorship

/-!
# Checkpoints

A checkpoint is a signed commitment to a folded state: to its root, to the root of its members and to its unresolved
forks. Validation derives these from a state and compares the state root, the forks and the snapshot hash. The room and
the member root that the checkpoint names are signed, but not compared.
-/

namespace IrohRooms.RoomGovernance

open Governance (Id IdKind DeviceId StateRoot Digest Reject orReject orReject_eq_ok field idField idField_eq_ok idOf
  idOf_eq_ok rejectUnknownKeys rejectUnknownKeys_eq_ok uint_field_eq_ok blake3Domain)
open Cbor (normal normal_array normal_map perm_sortKeys exists_normal_map Within within_map within_list within_array
  within_bytes within_uint decodeCanonical_encode maxDepth usizeMax)
open Member.Sparse (MerkleMap MerkleRoot mapKey valueHash leafHash)

abbrev SnapshotHash := Digest

namespace Domain

def governanceStateRoot : String := "iroh-rooms:v2:governance-state-root:v1"

def checkpointSign : String := "iroh-rooms:v2:checkpoint:sign:v1"

def snapshotHash : String := "iroh-rooms:v2:snapshot-hash:v1"

end Domain

def MemberStatus.asStr : MemberStatus → String
  | .active => "active"
  | .invited => "invited"
  | .removed => "removed"

/-! ### The member projection -/

structure MemberLeaf where
  memberId : MemberId
  status : MemberStatus
  role : Role
  deviceKeys : List DeviceId
  governanceCursor : GovernanceEntryId

namespace MemberLeaf

def toCbor (leaf : MemberLeaf) : CborValue :=
  .map [("member_id", leaf.memberId.toCbor), ("status", .text leaf.status.asStr), ("role", .text leaf.role.asStr),
    ("device_keys", .array (leaf.deviceKeys.map Id.toCbor)), ("governance_cursor", leaf.governanceCursor.toCbor)]

def ofRecord (m : MemberRecord) : MemberLeaf := ⟨m.memberId, m.status, m.role, m.devices, m.governanceCursor⟩

end MemberLeaf

structure MemberProjection where
  members : List MemberLeaf
  root : MerkleRoot
  map : MerkleMap

variable (env : Env)

/-- The members that are not removed, in the order of their ids, and the root of the map over them. -/
def project (state : GovernanceState) : MerkleRoot × MemberProjection :=
  let members := ((state.members.values.filter fun m => decide (m.status ≠ .removed)).map MemberLeaf.ofRecord).insertionSort
    fun a b => a.memberId ≤ b.memberId
  let map := members.foldl (fun (map : MerkleMap) leaf =>
    let key := mapKey env leaf.memberId.asBytes
    map.insertHash key (leafHash env key (valueHash env (CborV2.ofFirst leaf.toCbor)))) MerkleMap.new
  (map.root env, ⟨members, map.root env, map⟩)

/-! ### The state root -/

namespace StateRoots

def memberToCbor (m : MemberRecord) : CborValue :=
  .map [("member_id", m.memberId.toCbor), ("role", .text m.role.asStr), ("status", .text m.status.asStr),
    ("devices", .array (m.devices.map Id.toCbor)), ("governance_cursor", m.governanceCursor.toCbor)]

def tipToCbor (tip : MemberId × UInt64 × GovernanceEntryId) : CborValue :=
  .map [("author", tip.1.toCbor), ("seq", .uint tip.2.1), ("tip", tip.2.2.toCbor)]

def forkToCbor (f : ForkEvidence) : CborValue :=
  .map [("author", f.author.toCbor), ("conflicting", .array [f.conflicting.1.toCbor, f.conflicting.2.toCbor]),
    ("seq", .uint f.seq), ("resolved", .uint (if f.resolved then 1 else 0))]

def canonicalStateValue (state : GovernanceState) (memberRoot : MerkleRoot) : CborValue :=
  .map [("room_id", state.roomId.toCbor),
    ("admin", match state.admin with
      | some admin => admin.toCbor
      | none => .array []),
    ("members", .array (state.members.values.map memberToCbor)),
    ("tips", .array (state.tips.entries.map tipToCbor)),
    ("forks", .array (state.forks.map forkToCbor)),
    ("policy", state.policy.toCbor),
    ("member_root", memberRoot.toCbor)]

def canonicalStateBytes (state : GovernanceState) (memberRoot : MerkleRoot) : Bytes :=
  Cbor.encode (canonicalStateValue state memberRoot)

def compute (state : GovernanceState) (memberRoot : MerkleRoot) : StateRoot :=
  ⟨blake3Domain env Domain.governanceStateRoot (canonicalStateBytes state memberRoot)⟩

def verify (state : GovernanceState) (memberRoot : MerkleRoot) (expected : StateRoot) : Except Reject Unit :=
  if compute env state memberRoot = expected then .ok () else .error .stateRootMismatch

end StateRoots

/-! ### Checkpoint bodies -/

structure CheckpointBody where
  schemaVersion : UInt64
  roomId : RoomId
  stateRoot : StateRoot
  memberRoot : MerkleRoot
  governanceTip : Option GovernanceEntryId
  unresolvedForks : List (GovernanceEntryId × GovernanceEntryId)
  epoch : UInt64
  seq : UInt64
  deriving DecidableEq

namespace CheckpointBody

def pairToCbor (pair : GovernanceEntryId × GovernanceEntryId) : CborValue := .array [pair.1.toCbor, pair.2.toCbor]

def toCbor (b : CheckpointBody) : CborValue :=
  .map ([("schema_version", .uint b.schemaVersion), ("room_id", b.roomId.toCbor), ("state_root", b.stateRoot.toCbor),
    ("member_root", b.memberRoot.toCbor), ("epoch", .uint b.epoch), ("seq", .uint b.seq)] ++
      (b.governanceTip.map fun tip => ("governance_tip", tip.toCbor)).toList ++
      (if b.unresolvedForks = [] then [] else [("unresolved_forks", .array (b.unresolvedForks.map pairToCbor))]))

def keys : List String :=
  ["schema_version", "room_id", "state_root", "member_root", "epoch", "seq", "governance_tip", "unresolved_forks"]

def pairOf (value : CborValue) : Except Reject (GovernanceEntryId × GovernanceEntryId) := do
  let pair ← orReject .nonCanonicalEncoding value.asArray
  match pair with
  | [first, second] =>
    let first ← idOf .nonCanonicalEncoding .nonCanonicalEncoding first
    let second ← idOf .nonCanonicalEncoding .nonCanonicalEncoding second
    pure (first, second)
  | _ => .error .invalidContent

def readForks (entries : List (String × CborValue)) : Except Reject (List (GovernanceEntryId × GovernanceEntryId)) :=
  match entries.lookup "unresolved_forks" with
  | none => .ok []
  | some value => do
    let items ← orReject .nonCanonicalEncoding value.asArray
    items.mapM pairOf

def fromCanonical (value : CborValue) : Except Reject CheckpointBody := do
  let entries ← orReject .nonCanonicalEncoding value.asMap
  rejectUnknownKeys entries keys .nonCanonicalEncoding
  let version ← uintField entries "schema_version"
  if version ≠ RoomGovernance.schemaVersion then .error .unknownVersion
  else
    let roomId ← readIdField entries "room_id"
    let stateRoot ← readIdField entries "state_root"
    let memberRoot ← readIdField entries "member_root"
    let epoch ← uintField entries "epoch"
    let seq ← uintField entries "seq"
    let governanceTip ← optId entries "governance_tip"
    let unresolvedForks ← readForks entries
    pure ⟨version, roomId, stateRoot, memberRoot, governanceTip, unresolvedForks, epoch, seq⟩

/-- The room and the member root are read as they are. -/
theorem of_fromCanonical {value : CborValue} {body : CheckpointBody} (h : fromCanonical value = .ok body) :
    ∃ entries, value = .map entries ∧ entries.lookup "room_id" = some body.roomId.toCbor ∧
      entries.lookup "member_root" = some body.memberRoot.toCbor := by
  obtain ⟨entries, hentries, h⟩ := bind_eq_ok_iff.mp h
  obtain ⟨_, -, h⟩ := bind_eq_ok_iff.mp h
  obtain ⟨version, -, h⟩ := bind_eq_ok_iff.mp h
  split_ifs at h
  obtain ⟨roomId, hroomId, h⟩ := bind_eq_ok_iff.mp h
  obtain ⟨stateRoot, -, h⟩ := bind_eq_ok_iff.mp h
  obtain ⟨memberRoot, hmemberRoot, h⟩ := bind_eq_ok_iff.mp h
  obtain ⟨epoch, -, h⟩ := bind_eq_ok_iff.mp h
  obtain ⟨seq, -, h⟩ := bind_eq_ok_iff.mp h
  obtain ⟨tip, -, h⟩ := bind_eq_ok_iff.mp h
  obtain ⟨forks, -, h⟩ := bind_eq_ok_iff.mp h
  obtain rfl := Except.ok.inj h
  exact ⟨entries, asMap_eq_some.mp (orReject_eq_ok.mp hentries), idField_eq_ok.mp hroomId, idField_eq_ok.mp hmemberRoot⟩

/-! ### A body reads back as it was written -/

/-- A body names no key twice, and none that is not its own. -/
theorem toCbor_keys (b : CheckpointBody) : ∃ entries, b.toCbor = .map entries ∧ (entries.map Prod.fst).Nodup ∧
    (∀ e ∈ entries, e.1 ∈ keys) ∧ entries.lookup "schema_version" = some (.uint b.schemaVersion) ∧
    entries.lookup "room_id" = some b.roomId.toCbor ∧ entries.lookup "state_root" = some b.stateRoot.toCbor ∧
    entries.lookup "member_root" = some b.memberRoot.toCbor ∧ entries.lookup "epoch" = some (.uint b.epoch) ∧
    entries.lookup "seq" = some (.uint b.seq) ∧ entries.lookup "governance_tip" = b.governanceTip.map Id.toCbor ∧
    entries.lookup "unresolved_forks" =
      if b.unresolvedForks = [] then none else some (.array (b.unresolvedForks.map pairToCbor)) := by
  refine ⟨_, rfl, ?_⟩
  cases b.governanceTip with
  | none =>
    split_ifs
    · exact ⟨by simp, by simp [keys], rfl, rfl, rfl, rfl, rfl, rfl, rfl, rfl⟩
    · exact ⟨by simp, by simp [keys], rfl, rfl, rfl, rfl, rfl, rfl, rfl, rfl⟩
  | some tip =>
    split_ifs
    · exact ⟨by simp, by simp [keys], rfl, rfl, rfl, rfl, rfl, rfl, rfl, rfl⟩
    · exact ⟨by simp, by simp [keys], rfl, rfl, rfl, rfl, rfl, rfl, rfl, rfl⟩

theorem pairOf_pairToCbor (pair : GovernanceEntryId × GovernanceEntryId) : pairOf (pairToCbor pair) = .ok pair :=
  bind_eq_ok_iff.mpr ⟨_, rfl, bind_eq_ok_iff.mpr ⟨_, idOf_eq_ok.mpr rfl,
    bind_eq_ok_iff.mpr ⟨_, idOf_eq_ok.mpr rfl, rfl⟩⟩⟩

theorem readForks_of_lookup {entries : List (String × CborValue)} {forks : List (GovernanceEntryId × GovernanceEntryId)}
    (h : entries.lookup "unresolved_forks" = if forks = [] then none else some (.array (forks.map pairToCbor))) :
    readForks entries = .ok forks := by
  unfold readForks
  rw [h]
  split_ifs with hnone
  · rw [hnone]
  · refine bind_eq_ok_iff.mpr ⟨_, rfl, mapM_eq_ok_iff.mpr ?_⟩
    rw [List.forall₂_map_left_iff, List.forall₂_same]
    exact fun pair _ => pairOf_pairToCbor pair

theorem normal_pairToCbor (pair : GovernanceEntryId × GovernanceEntryId) :
    normal (pairToCbor pair) = pairToCbor pair := by
  rw [pairToCbor, normal_array]
  rfl

/-- The reader takes back what was written, if the version is the one it knows. -/
theorem fromCanonical_normal {b : CheckpointBody} (hversion : b.schemaVersion = RoomGovernance.schemaVersion) :
    fromCanonical (normal b.toCbor) = .ok b := by
  obtain ⟨entries, hentries, honce, hkeys, hschema, hroom, hroot, hmembers, hepoch, hseq, htip, hforks⟩ := b.toCbor_keys
  obtain ⟨fields, hfields, hlookup⟩ := exists_normal_map honce
  have hclosed : ∀ e ∈ fields, e.1 ∈ keys := by
    rw [normal_map, CborValue.map.injEq] at hfields
    intro e he
    rw [← hfields, (perm_sortKeys _).mem_iff, List.mem_map] at he
    obtain ⟨e', he', rfl⟩ := he
    exact hkeys e' he'
  have hid : ∀ {kind : IdKind} {key : String} {x : Id kind}, entries.lookup key = some x.toCbor →
      fields.lookup key = some x.toCbor := by
    intro kind key x h
    rw [hlookup, h]
    rfl
  have huint : ∀ {key : String} {n : UInt64}, entries.lookup key = some (.uint n) →
      fields.lookup key = some (.uint n) := by
    intro key n h
    rw [hlookup, h]
    rfl
  have hread : readForks fields = .ok b.unresolvedForks := by
    refine readForks_of_lookup ?_
    rw [hlookup, hforks]
    split_ifs
    · rfl
    · rw [Option.map_some, normal_array, List.map_map]
      have hsame : normal ∘ pairToCbor = pairToCbor := funext normal_pairToCbor
      rw [hsame]
  have htipRead : optId fields "governance_tip" = .ok b.governanceTip := by
    rw [optId_eq_ok, hlookup, htip]
    cases b.governanceTip <;> rfl
  rw [hentries, hfields]
  refine bind_eq_ok_iff.mpr ⟨fields, rfl, bind_eq_ok_iff.mpr ⟨(), rejectUnknownKeys_eq_ok.mpr hclosed, ?_⟩⟩
  refine bind_eq_ok_iff.mpr ⟨_, uint_field_eq_ok.mpr (huint hschema), ?_⟩
  rw [if_neg (not_not.mpr hversion)]
  refine bind_eq_ok_iff.mpr ⟨_, idField_eq_ok.mpr (hid hroom), ?_⟩
  refine bind_eq_ok_iff.mpr ⟨_, idField_eq_ok.mpr (hid hroot), ?_⟩
  refine bind_eq_ok_iff.mpr ⟨_, idField_eq_ok.mpr (hid hmembers), ?_⟩
  refine bind_eq_ok_iff.mpr ⟨_, uint_field_eq_ok.mpr (huint hepoch), ?_⟩
  refine bind_eq_ok_iff.mpr ⟨_, uint_field_eq_ok.mpr (huint hseq), ?_⟩
  exact bind_eq_ok_iff.mpr ⟨_, htipRead, bind_eq_ok_iff.mpr ⟨_, hread, rfl⟩⟩

/-- A body nests at most three deep. -/
theorem within_toCbor (b : CheckpointBody) : Within 3 b.toCbor := by
  obtain ⟨entries, hentries, honce, -⟩ := b.toCbor_keys
  rw [hentries]
  refine within_map honce ?_
  obtain rfl := CborValue.map.inj hentries
  refine List.forall_mem_append.mpr ⟨List.forall_mem_append.mpr ⟨?_, ?_⟩, ?_⟩
  · simp only [List.forall_mem_cons, Id.toCbor]
    exact ⟨within_uint 2 _, within_bytes 2 _, within_bytes 2 _, within_bytes 2 _, within_uint 2 _, within_uint 2 _,
      by simp⟩
  · intro e he
    obtain ⟨tip, -, rfl⟩ := Option.map_eq_some_iff.mp (Option.mem_toList.mp he)
    exact within_bytes 2 _
  · intro e he
    split_ifs at he
    · cases he
    · rw [List.mem_singleton] at he
      rw [he]
      refine within_list fun pair _ => within_array fun v hv => ?_
      simp only [List.mem_cons, List.not_mem_nil, or_false] at hv
      rcases hv with rfl | rfl
      · exact within_bytes 0 _
      · exact within_bytes 0 _

instance : SignedBody CheckpointBody .digest where
  signContext := Domain.checkpointSign
  idContext := Domain.snapshotHash
  toCbor := toCbor
  fromCanonical := fromCanonical

end CheckpointBody

abbrev SignedCheckpoint := Envelope .digest

def snapshotHash (body : CheckpointBody) : SnapshotHash :=
  ⟨blake3Domain env Domain.snapshotHash (Cbor.encode body.toCbor)⟩

def CheckpointBody.decodeVerified (e : SignedCheckpoint) : Except Reject CheckpointBody :=
  verifyEnvelope env CheckpointBody e

/-- The pairs of the forks that are not resolved. -/
def unresolvedPairs (state : GovernanceState) : List (GovernanceEntryId × GovernanceEntryId) :=
  (state.forks.filter fun f => !f.resolved).map ForkEvidence.conflicting

def validateAgainstState (e : SignedCheckpoint) (state : GovernanceState) : Except Reject CheckpointBody := do
  let body ← CheckpointBody.decodeVerified env e
  StateRoots.verify env state (project env state).1 body.stateRoot
  if unresolvedPairs state ≠ body.unresolvedForks then .error .invalidContent
  else if snapshotHash env body ≠ e.id then .error .snapshotHashMismatch
  else pure body

/-! ### What a validated checkpoint commits to -/

/-- The signed map of an envelope holds an id under a key. -/
def Envelope.Holds {kind kind' : IdKind} (e : Envelope kind) (key : String) (x : Id kind') : Prop :=
  ∃ entries, Cbor.decodeCanonical e.signed = .ok (.map entries) ∧ entries.lookup key = some x.toCbor

/-- The body names the room of the state and commits to all of its roots. -/
structure Commits (e : SignedCheckpoint) (state : GovernanceState) (body : CheckpointBody) : Prop where
  roomId : body.roomId = state.roomId
  memberRoot : body.memberRoot = (project env state).1
  stateRoot : body.stateRoot = StateRoots.compute env state (project env state).1
  unresolvedForks : body.unresolvedForks = unresolvedPairs state
  snapshot : e.id = snapshotHash env body

variable {env} {e : SignedCheckpoint} {state : GovernanceState} {body : CheckpointBody}

/-- A sealed checkpoint of the version that is known verifies and reads back as it is. -/
theorem decodeVerified_sealed (hversion : body.schemaVersion = schemaVersion)
    (hfits : (toCsb body).length ≤ usizeMax) (secret : SigningKey) :
    CheckpointBody.decodeVerified env (sealed env body secret) = .ok body := by
  have hdecode : Cbor.decodeCanonical (toCsb body) = .ok (normal body.toCbor) :=
    decodeCanonical_encode (body.within_toCbor.mono (by decide)) hfits
  exact verifyEnvelope_eq_ok.mpr ⟨_, hdecode, rfl, env.verify_sign _ _, CheckpointBody.fromCanonical_normal hversion⟩

theorem validateAgainstState_eq_ok : validateAgainstState env e state = .ok body ↔
    CheckpointBody.decodeVerified env e = .ok body ∧ StateRoots.compute env state (project env state).1 = body.stateRoot ∧
      unresolvedPairs state = body.unresolvedForks ∧ snapshotHash env body = e.id := by
  constructor
  · intro h
    obtain ⟨read, hread, h⟩ := bind_eq_ok_iff.mp h
    obtain ⟨_, hroot, h⟩ := bind_eq_ok_iff.mp h
    unfold StateRoots.verify at hroot
    split_ifs at hroot h with heq hforks hsnapshot
    obtain rfl := Except.ok.inj h
    exact ⟨hread, heq, not_not.mp hforks, not_not.mp hsnapshot⟩
  · rintro ⟨hread, hroot, hforks, hsnapshot⟩
    refine bind_eq_ok_iff.mpr ⟨body, hread, bind_eq_ok_iff.mpr ⟨(), if_pos hroot, ?_⟩⟩
    rw [if_neg (not_not.mpr hforks), if_neg (not_not.mpr hsnapshot)]
    rfl

/-- An id that was read from the signed map is the one the map holds. -/
theorem holds_iff {kind kind' : IdKind} {e : Envelope kind} {key : String} {entries : List (String × CborValue)}
    {x y : Id kind'} (hdecode : Cbor.decodeCanonical e.signed = .ok (.map entries))
    (hlookup : entries.lookup key = some x.toCbor) : e.Holds key y ↔ x = y := by
  constructor
  · rintro ⟨entries', hdecode', hlookup'⟩
    obtain rfl : entries = entries' := by simpa [hdecode] using hdecode'
    rw [hlookup] at hlookup'
    have hbytes : x.asBytes = y.asBytes := by simpa [Id.toCbor] using hlookup'
    exact Id.asBytes_injective hbytes
  · rintro rfl
    exact ⟨entries, hdecode, hlookup⟩

/-- A validated checkpoint commits to the state exactly if its signed bytes name the state's room and the root of its
members. -/
theorem validateAgainstState_commits_iff (h : validateAgainstState env e state = .ok body) :
    Commits env e state body ↔ e.Holds "room_id" state.roomId ∧ e.Holds "member_root" (project env state).1 := by
  obtain ⟨hread, hroot, hforks, hsnapshot⟩ := validateAgainstState_eq_ok.mp h
  obtain ⟨value, hdecode, -, -, hbody⟩ := verifyEnvelope_eq_ok.mp hread
  obtain ⟨entries, rfl, hroomId, hmemberRoot⟩ := CheckpointBody.of_fromCanonical hbody
  rw [holds_iff hdecode hroomId, holds_iff hdecode hmemberRoot]
  constructor
  · exact fun hcommits => ⟨hcommits.roomId, hcommits.memberRoot⟩
  · exact fun hnamed => ⟨hnamed.1, hnamed.2, hroot.symm, hforks.symm, hsnapshot.symm⟩

namespace Toy

/-- The state of the room before its genesis. -/
def blank : GovernanceState := .empty roomId

/-- A checkpoint of that state under a room and a member root. -/
def checkpoint (room : RoomId) (memberRoot : MerkleRoot) : CheckpointBody :=
  ⟨schemaVersion, room, StateRoots.compute toyEnv blank (project toyEnv blank).1, memberRoot, none, [], 1000, 1⟩

theorem validate_checkpoint (room : RoomId) (memberRoot : MerkleRoot)
    (hfits : (toCsb (checkpoint room memberRoot)).length ≤ usizeMax) :
    validateAgainstState toyEnv (sealed toyEnv (checkpoint room memberRoot) (secret 1)) blank =
      .ok (checkpoint room memberRoot) :=
  validateAgainstState_eq_ok.mpr ⟨decodeVerified_sealed rfl hfits (secret 1), rfl, rfl, rfl⟩

theorem validateAgainstState_commits_honest :
    (sealed toyEnv (checkpoint roomId (project toyEnv blank).1) (secret 1)).Holds "room_id" roomId ∧
      (sealed toyEnv (checkpoint roomId (project toyEnv blank).1) (secret 1)).Holds "member_root" (project toyEnv blank).1 :=
  (validateAgainstState_commits_iff (validate_checkpoint _ _ (by decide +kernel))).mp ⟨rfl, rfl, rfl, rfl, rfl⟩

/-- A checkpoint that names another room and another member root validates. -/
theorem checkpoint_misnamed : ¬ ∀ (env : Env) (e : SignedCheckpoint) (state : GovernanceState) (body : CheckpointBody),
    validateAgainstState env e state = .ok body → Commits env e state body := by
  intro hall
  have hcommits := hall toyEnv _ blank _ (validate_checkpoint (.ofNat 8) (.ofNat 9) (by decide +kernel))
  exact absurd hcommits.roomId (by decide)

end Toy

end IrohRooms.RoomGovernance
