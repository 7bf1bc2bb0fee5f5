import IrohRooms.Event.CborNormal
import IrohRooms.Event.SignedExact
import IrohRooms.Lib.OrdMap

/-!
# The bytes of a sync message

A sync message is a canonical CBOR map: its kind under `type`, its room under `room`, and the fields of the kind. Two
kinds share the tag `events` and are told apart by the receipt fields `ids` and `nonce`. The messages here carry what is
on the wire, the frames as bytes and the numbers at their widths; what `encode` writes of a message `decode` reads back.
-/

namespace IrohRooms

open Cbor Fields

namespace Wire

/-- One epoch of a key-history transfer, with the distribution event it came from. -/
structure KeyHistoryChunk where
  distributionEventId : EventId
  epoch : UInt64
  keyCommitment : BitVec 256
  wrappedKeys : List (DeviceKey × WrappedKeyEntry)
  deriving DecidableEq, Repr

structure Window where
  maxCount : UInt32
  sinceMs : Option UInt64
  deriving DecidableEq, Repr

inductive SyncMessage
  | adminTip (roomId : RoomId) (tip : Option (EventId × UInt64))
  | heads (roomId : RoomId) (heads : List EventId)
  | wantEvents (roomId : RoomId) (ids : List EventId)
  | wantMembership (roomId : RoomId) (held : List EventId)
  | wantRecentChat (roomId : RoomId) (window : Window) (held : List EventId)
  | events (roomId : RoomId) (frames : List Bytes)
  | terminalEvents (roomId : RoomId) (frames : List Bytes) (ids : List EventId) (nonce : ShortId)
  | eventsConfirmed (roomId : RoomId) (ids : List EventId) (nonce : ShortId)
  | notFound (roomId : RoomId) (ids : List EventId)
  | proveCapability (roomId : RoomId) (inviteId capabilitySecret : ShortId)
  | wantKeyHistory (roomId : RoomId) (haveEpochs : OrdSet (Fin (2 ^ 64)))
  | keyHistory (roomId : RoomId) (chunks : List KeyHistoryChunk)

inductive MessageError
  | nonCanonical | badShape
  deriving DecidableEq, Repr

/-! ### Encoding -/

def tag (ty : String) : String × CborValue := ("type", .text ty)

def roomField (room : RoomId) : String × CborValue := ("room", keyValue room)

def idArray (ids : List EventId) : CborValue := .array (ids.map keyValue)

def bytesArray (frames : List Bytes) : CborValue := .array (frames.map .bytes)

def uintArray (values : OrdSet (Fin (2 ^ 64))) : CborValue := .array (values.toList.map fun n => .uint (UInt64.ofFin n))

def optTip : Option (EventId × UInt64) → CborValue
  | none => .array []
  | some (id, seq) => .array [keyValue id, .uint seq]

def optU64 : Option UInt64 → CborValue
  | none => .array []
  | some n => .array [.uint n]

def shortId (x : ShortId) : CborValue := bytesValue (n := 16) x

namespace KeyHistoryChunk

def toDistribution (c : KeyHistoryChunk) : MemberKeyDistribution := ⟨c.epoch.toNat, c.keyCommitment, c.wrappedKeys⟩

/-- The epoch of a parsed distribution was read from 64 bits. -/
def fromDistribution (eventId : EventId) (d : MemberKeyDistribution) : KeyHistoryChunk :=
  ⟨eventId, UInt64.ofNat d.newEpoch, d.keyCommitment, d.wrappedKeys⟩

def toCbor (c : KeyHistoryChunk) : CborValue :=
  sortIntoMap [("distribution_event_id", keyValue c.distributionEventId), ("distribution", c.toDistribution.toCbor)]

end KeyHistoryChunk

namespace SyncMessage

/-- The map a message is written as. -/
def entries : SyncMessage → List (String × CborValue)
  | adminTip roomId tip => [tag "admin_tip", roomField roomId, ("tip", optTip tip)]
  | heads roomId ids => [tag "heads", roomField roomId, ("heads", idArray ids)]
  | wantEvents roomId ids => [tag "want_events", roomField roomId, ("ids", idArray ids)]
  | wantMembership roomId held => [tag "want_membership", roomField roomId, ("have", idArray held)]
  | wantRecentChat roomId window held => [tag "want_recent_chat", roomField roomId,
      ("max_count", .uint window.maxCount.toUInt64), ("since", optU64 window.sinceMs), ("have", idArray held)]
  | events roomId frames => [tag "events", roomField roomId, ("frames", bytesArray frames)]
  -- the tag of the plain batch, which older peers deliver and leave unconfirmed
  | terminalEvents roomId frames ids nonce => [tag "events", roomField roomId, ("frames", bytesArray frames),
      ("ids", idArray ids), ("nonce", shortId nonce)]
  | eventsConfirmed roomId ids nonce => [tag "events_confirmed", roomField roomId, ("ids", idArray ids),
      ("nonce", shortId nonce)]
  | notFound roomId ids => [tag "not_found", roomField roomId, ("ids", idArray ids)]
  | proveCapability roomId inviteId capabilitySecret => [tag "prove_capability", roomField roomId,
      ("invite_id", shortId inviteId), ("secret", shortId capabilitySecret)]
  | wantKeyHistory roomId haveEpochs => [tag "want_key_history", roomField roomId,
      ("have_epochs", uintArray haveEpochs)]
  | keyHistory roomId chunks => [tag "key_history", roomField roomId,
      ("chunks", .array (chunks.map KeyHistoryChunk.toCbor))]

def encode (m : SyncMessage) : Bytes := Cbor.encode (.map m.entries)

end SyncMessage

/-! ### Decoding -/

def orBadShape {α : Type} : Option α → Except MessageError α
  | some a => .ok a
  | none => .error .badShape

def field (entries : List (String × CborValue)) (key : String) : Option CborValue := entries.lookup key

/-- A byte string of `n` bytes. -/
def readBytes (n : Nat) (value : CborValue) : Option (BitVec (8 * n)) :=
  value.asBytes.bind fun b => if b.length = n then some (BitVec.ofNat (8 * n) (fromBeBytes b)) else none

def readDigest {kind : Kind} (value : CborValue) : Option (Bytes32 kind) := (readBytes 32 value).map Bytes32.mk

def readShortId (value : Option CborValue) : Except MessageError ShortId := orBadShape (value.bind (readBytes 16))

/-- The items of an array, each read by `read`. -/
def readArray {α : Type} (read : CborValue → Except MessageError α) (value : Option CborValue) :
    Except MessageError (List α) := do
  let items ← orBadShape (value.bind CborValue.asArray)
  items.mapM read

def readIdArray (value : Option CborValue) : Except MessageError (List EventId) :=
  readArray (fun item => orBadShape (readDigest item)) value

def readBytesArray (value : Option CborValue) : Except MessageError (List Bytes) :=
  readArray (fun item => orBadShape item.asBytes) value

/-- The numbers as a set: their order and repetitions do not matter. -/
def readUintArray (value : Option CborValue) : Except MessageError (OrdSet (Fin (2 ^ 64))) :=
  (readArray (fun item => orBadShape (item.asUint.map UInt64.toFin)) value).map OrdSet.ofList

def readOptTip (value : CborValue) : Except MessageError (Option (EventId × UInt64)) := do
  match ← orBadShape value.asArray with
  | [] => return none
  | [id, seq] => return some (← orBadShape (readDigest id), ← orBadShape seq.asUint)
  | _ => .error .badShape

def readOptU64 (value : CborValue) : Except MessageError (Option UInt64) := do
  match ← orBadShape value.asArray with
  | [] => return none
  | [n] => return some (← orBadShape n.asUint)
  | _ => .error .badShape

def KeyHistoryChunk.fromCbor (value : CborValue) : Except MessageError KeyHistoryChunk := do
  let entries ← orBadShape value.asMap
  let eventId ← orBadShape ((field entries "distribution_event_id").bind readDigest)
  let distribution ← orBadShape (field entries "distribution")
  match parseMemberKeyDistributionValue distribution with
  | .ok d => return fromDistribution eventId d
  | .error _ => .error .badShape

def readChunkArray (value : Option CborValue) : Except MessageError (List KeyHistoryChunk) :=
  readArray KeyHistoryChunk.fromCbor value

def readMaxCount (value : Option CborValue) : Except MessageError UInt32 :=
  orBadShape ((value.bind CborValue.asUint).bind fun n => if n.toNat < 2 ^ 32 then some n.toUInt32 else none)

namespace SyncMessage

/-- The fields of the kind that the tag names. -/
def decodeBody (entries : List (String × CborValue)) (roomId : RoomId) (ty : String) :
    Except MessageError SyncMessage :=
  match ty with
  | "admin_tip" => do return adminTip roomId (← readOptTip (← orBadShape (field entries "tip")))
  | "heads" => do return heads roomId (← readIdArray (field entries "heads"))
  | "want_events" => do return wantEvents roomId (← readIdArray (field entries "ids"))
  | "want_membership" => do return wantMembership roomId (← readIdArray (field entries "have"))
  | "want_recent_chat" => do
    let maxCount ← readMaxCount (field entries "max_count")
    let sinceMs ← readOptU64 (← orBadShape (field entries "since"))
    return wantRecentChat roomId ⟨maxCount, sinceMs⟩ (← readIdArray (field entries "have"))
  | "events" => do
    let frames ← readBytesArray (field entries "frames")
    match field entries "ids", field entries "nonce" with
    | none, none => return events roomId frames
    | some ids, some nonce =>
      return terminalEvents roomId frames (← readIdArray (some ids)) (← readShortId (some nonce))
    -- one receipt field without the other
    | _, _ => .error .badShape
  | "events_confirmed" => do
    return eventsConfirmed roomId (← readIdArray (field entries "ids")) (← readShortId (field entries "nonce"))
  | "not_found" => do return notFound roomId (← readIdArray (field entries "ids"))
  | "prove_capability" => do
    return proveCapability roomId (← readShortId (field entries "invite_id")) (← readShortId (field entries "secret"))
  | "want_key_history" => do return wantKeyHistory roomId (← readUintArray (field entries "have_epochs"))
  | "key_history" => do return keyHistory roomId (← readChunkArray (field entries "chunks"))
  | _ => .error .badShape

def decodeValue (value : CborValue) : Except MessageError SyncMessage := do
  let entries ← orBadShape value.asMap
  let ty ← orBadShape ((field entries "type").bind CborValue.asText)
  let roomId ← orBadShape ((field entries "room").bind readDigest)
  decodeBody entries roomId ty

def decode (bytes : Bytes) : Except MessageError SyncMessage :=
  match decodeCanonical bytes with
  | .ok value => decodeValue value
  | .error _ => .error .nonCanonical

end SyncMessage

/-! ### Reading back -/

theorem orBadShape_eq_ok {α : Type} {o : Option α} {a : α} : orBadShape o = .ok a ↔ o = some a := by
  cases o <;> simp [orBadShape]

theorem readBytes_bytesValue {n : Nat} (x : BitVec (8 * n)) : readBytes n (bytesValue x) = some x := by
  have hlt : x.toNat < 256 ^ n := by
    rw [← two_pow_eight_mul]
    exact x.isLt
  have hval : BitVec.ofNat (8 * n) (fromBeBytes (beBytes n x.toNat)) = x := by
    rw [fromBeBytes_beBytes, Nat.mod_eq_of_lt hlt, BitVec.ofNat_toNat, BitVec.setWidth_eq]
  show (if (beBytes n x.toNat).length = n
    then some (BitVec.ofNat (8 * n) (fromBeBytes (beBytes n x.toNat))) else none) = some x
  rw [if_pos (length_beBytes n _), hval]

theorem readDigest_keyValue {kind : Kind} (x : Bytes32 kind) : readDigest (keyValue x) = some x := by
  show (readBytes 32 (bytesValue (n := 32) x.bits)).map Bytes32.mk = some x
  rw [readBytes_bytesValue]
  rfl

/-- An array whose items are read back is read back. -/
theorem readArray_map {α : Type} {read : CborValue → Except MessageError α} {write : α → CborValue} {l : List α}
    (h : ∀ a ∈ l, read (normal (write a)) = .ok a) : readArray read (some (normal (.array (l.map write)))) = .ok l := by
  refine bind_eq_ok_iff.mpr ⟨(l.map write).map normal, ?_, mapM_eq_ok_iff.mpr ?_⟩
  · rw [normal_array]
    rfl
  · rw [List.map_map, List.forall₂_map_left_iff]
    exact List.forall₂_same.mpr h

theorem readIdArray_idArray (ids : List EventId) : readIdArray (some (normal (idArray ids))) = .ok ids :=
  readArray_map fun id _ => orBadShape_eq_ok.mpr (readDigest_keyValue id)

theorem readBytesArray_bytesArray (frames : List Bytes) :
    readBytesArray (some (normal (bytesArray frames))) = .ok frames :=
  readArray_map fun _ _ => rfl

theorem readUintArray_uintArray (values : OrdSet (Fin (2 ^ 64))) :
    readUintArray (some (normal (uintArray values))) = .ok values := by
  refine map_eq_ok_iff.mpr ⟨values.toList, readArray_map fun _ _ => rfl, ?_⟩
  refine OrdSet.ext_mem fun n => ?_
  rw [OrdSet.mem_ofList, OrdSet.mem_toList]

theorem readOptTip_optTip (tip : Option (EventId × UInt64)) : readOptTip (normal (optTip tip)) = .ok tip := by
  cases tip with
  | none => rfl
  | some t =>
    refine bind_eq_ok_iff.mpr ⟨[keyValue t.1, .uint t.2], rfl, ?_⟩
    exact bind_eq_ok_iff.mpr ⟨t.1, orBadShape_eq_ok.mpr (readDigest_keyValue t.1), rfl⟩

theorem readOptU64_optU64 (n : Option UInt64) : readOptU64 (normal (optU64 n)) = .ok n := by
  cases n <;> rfl

theorem readShortId_shortId (x : ShortId) : readShortId (some (normal (shortId x))) = .ok x :=
  orBadShape_eq_ok.mpr (readBytes_bytesValue (n := 16) x)

theorem readMaxCount_uint (n : UInt32) : readMaxCount (some (normal (.uint n.toUInt64))) = .ok n := by
  have hlt : n.toUInt64.toNat < 2 ^ 32 := by
    rw [UInt32.toNat_toUInt64]
    exact n.toNat_lt
  show orBadShape (if n.toUInt64.toNat < 2 ^ 32 then some n.toUInt64.toUInt32 else none) = .ok n
  rw [if_pos hlt, UInt32.toUInt32_toUInt64]
  rfl

/-! ### Key-history chunks -/

theorem normal_distribution (d : MemberKeyDistribution) :
    normal d.toCbor = .map [uintEntry "new_epoch" d.newEpoch,
      ("wrapped_keys", normal (wrappedKeysToCbor d.wrappedKeys)), ("key_commitment", bytesValue (n := 32) d.keyCommitment)] := by
  have honce : ["new_epoch", "key_commitment", "wrapped_keys"].Nodup := by decide
  have hkeys : (["new_epoch", "wrapped_keys", "key_commitment"].map encodedKey).Pairwise (· < ·) := by decide
  rw [MemberKeyDistribution.toCbor, normal_sortIntoMap (by exact honce), normal_map]
  refine congrArg CborValue.map ((sortKeys_perm ((List.Perm.swap _ _ _).cons _) ?_).trans ?_)
  · exact honce
  · exact sortKeys_of_ascend ⟨hkeys, fun _ hp => by cases hp⟩

theorem parse_distribution {d : MemberKeyDistribution} (hepoch : d.newEpoch < 2 ^ 64)
    (hkeys : parseWrappedKeys (normal (wrappedKeysToCbor d.wrappedKeys)) = .ok d.wrappedKeys) :
    parseMemberKeyDistributionValue (normal d.toCbor) = .ok d := by
  have huint : uintOf .invalidContent (uintValue d.newEpoch) = .ok d.newEpoch :=
    map_eq_ok_iff.mpr ⟨UInt64.ofNat d.newEpoch, rfl, UInt64.toNat_ofNat_of_lt' hepoch⟩
  have hbytes : fixedBytes .invalidContent 32 (bytesValue (n := 32) d.keyCommitment) = .ok d.keyCommitment :=
    fixedBytes_eq_ok.mpr rfl
  obtain ⟨entries, hentries⟩ : ∃ entries, entries = [uintEntry "new_epoch" d.newEpoch,
      ("wrapped_keys", normal (wrappedKeysToCbor d.wrappedKeys)),
      ("key_commitment", bytesValue (n := 32) d.keyCommitment)] := ⟨_, rfl⟩
  have hread : parseMemberKeyDistribution ⟨entries, [false, false, false]⟩ =
      .ok (d, ⟨entries, [true, true, true]⟩) := by
    refine bind_eq_ok_iff.mpr ⟨_, requireWith_at (i := 0) (by rw [hentries]; rfl) (by rw [hentries]; rfl) huint, ?_⟩
    refine bind_eq_ok_iff.mpr ⟨_, requireWith_at (i := 2) (by rw [hentries]; rfl) (by rw [hentries]; rfl) hbytes, ?_⟩
    exact bind_eq_ok_iff.mpr ⟨_, requireWith_at (i := 1) (by rw [hentries]; rfl) (by rw [hentries]; rfl) hkeys, rfl⟩
  rw [normal_distribution, ← hentries]
  refine bind_eq_ok_iff.mpr ⟨⟨entries, [false, false, false]⟩, by rw [hentries]; rfl, ?_⟩
  exact bind_eq_ok_iff.mpr ⟨_, hread, rfl⟩

theorem parseWrappedKey_writtenKey (p : DeviceKey × WrappedKeyEntry) :
    parseWrappedKey (normal (writtenKey p)) = .ok p := by
  have honce : ["ephemeral_public", "nonce", "ciphertext"].Nodup := by decide
  obtain ⟨record, hrecord, hlookup⟩ := exists_normal_map (show (List.map Prod.fst [("ephemeral_public",
    bytesValue (n := 32) p.2.ephemeralPublic), ("nonce", bytesValue (n := 12) p.2.nonce),
    ("ciphertext", bytesValue (n := 48) p.2.ciphertext)]).Nodup from honce)
  have hpair : normal (writtenKey p) = .array [keyValue p.1, .map record] := by
    rw [writtenKey, normal_array, ← hrecord]
    rfl
  rw [hpair]
  refine bind_eq_ok_iff.mpr ⟨[keyValue p.1, .map record], rfl, ?_⟩
  refine bind_eq_ok_iff.mpr ⟨p.1, fixed32_eq_ok.mpr rfl, bind_eq_ok_iff.mpr ⟨record, rfl, ?_⟩⟩
  refine bind_eq_ok_iff.mpr ⟨_, okOr_eq_ok.mpr (hlookup _), bind_eq_ok_iff.mpr ⟨_, fixedBytes_eq_ok.mpr rfl, ?_⟩⟩
  refine bind_eq_ok_iff.mpr ⟨_, okOr_eq_ok.mpr (hlookup _), bind_eq_ok_iff.mpr ⟨_, fixedBytes_eq_ok.mpr rfl, ?_⟩⟩
  exact bind_eq_ok_iff.mpr ⟨_, okOr_eq_ok.mpr (hlookup _), bind_eq_ok_iff.mpr ⟨_, fixedBytes_eq_ok.mpr rfl, rfl⟩⟩

/-- Recipients in the order of their devices are read back. -/
theorem parseWrappedKeys_wrappedKeysToCbor {keys : List (DeviceKey × WrappedKeyEntry)}
    (h : keys.Pairwise fun a b => a.1 ≤ b.1) : parseWrappedKeys (normal (wrappedKeysToCbor keys)) = .ok keys := by
  rw [wrappedKeysToCbor, h.insertionSort_eq, normal_array]
  refine bind_eq_ok_iff.mpr ⟨_, rfl, mapM_eq_ok_iff.mpr ?_⟩
  rw [List.map_map, List.forall₂_map_left_iff]
  exact List.forall₂_same.mpr fun p _ => parseWrappedKey_writtenKey p

theorem fromCbor_toCbor {c : KeyHistoryChunk} (h : c.wrappedKeys.Pairwise fun a b => a.1 ≤ b.1) :
    KeyHistoryChunk.fromCbor (normal c.toCbor) = .ok c := by
  have honce : ["distribution_event_id", "distribution"].Nodup := by decide
  have hdistribution : parseMemberKeyDistributionValue (normal c.toDistribution.toCbor) = .ok c.toDistribution :=
    parse_distribution c.epoch.toNat_lt (parseWrappedKeys_wrappedKeysToCbor h)
  obtain ⟨fields, hfields, hlookup⟩ := exists_normal_map (show (List.map Prod.fst [("distribution_event_id",
    keyValue c.distributionEventId), ("distribution", c.toDistribution.toCbor)]).Nodup from honce)
  rw [KeyHistoryChunk.toCbor, normal_sortIntoMap (by exact honce), hfields]
  refine bind_eq_ok_iff.mpr ⟨fields, rfl, ?_⟩
  refine bind_eq_ok_iff.mpr ⟨c.distributionEventId, ?_, bind_eq_ok_iff.mpr ⟨_, orBadShape_eq_ok.mpr (hlookup _), ?_⟩⟩
  · rw [field, hlookup]
    exact orBadShape_eq_ok.mpr (readDigest_keyValue _)
  · rw [show normal _ = normal c.toDistribution.toCbor from rfl, hdistribution]
    show Except.ok (KeyHistoryChunk.fromDistribution c.distributionEventId c.toDistribution) = _
    rw [KeyHistoryChunk.fromDistribution, KeyHistoryChunk.toDistribution, UInt64.ofNat_toNat]


/-! ### Messages -/

namespace SyncMessage

/-- The recipients of every chunk are in the order of their devices, each named once. -/
def Sorted : SyncMessage → Prop
  | keyHistory _ chunks => ∀ c ∈ chunks, c.wrappedKeys.Pairwise fun a b => a.1 < b.1
  | _ => True

theorem keys_nodup (m : SyncMessage) : (m.entries.map Prod.fst).Nodup := by
  cases m
  all_goals
    simp only [entries, tag, roomField, List.map_cons, List.map_nil]
    decide

/-- A kind's fields, read from a map that has the fields of the message. -/
theorem decodeBody_entries {m : SyncMessage} (hsorted : m.Sorted) {fields : List (String × CborValue)}
    (h : ∀ k, fields.lookup k = (m.entries.lookup k).map normal) : ∃ ty roomId,
      m.entries.lookup "type" = some (.text ty) ∧ m.entries.lookup "room" = some (keyValue roomId) ∧
      decodeBody fields roomId ty = .ok m := by
  cases m with
  | adminTip roomId tip =>
    refine ⟨"admin_tip", roomId, rfl, rfl, bind_eq_ok_iff.mpr ⟨_, orBadShape_eq_ok.mpr (h _), ?_⟩⟩
    exact bind_eq_ok_iff.mpr ⟨tip, readOptTip_optTip tip, rfl⟩
  | heads roomId ids =>
    refine ⟨"heads", roomId, rfl, rfl, bind_eq_ok_iff.mpr ⟨ids, ?_, rfl⟩⟩
    rw [field, h]
    exact readIdArray_idArray ids
  | wantEvents roomId ids =>
    refine ⟨"want_events", roomId, rfl, rfl, bind_eq_ok_iff.mpr ⟨ids, ?_, rfl⟩⟩
    rw [field, h]
    exact readIdArray_idArray ids
  | wantMembership roomId held =>
    refine ⟨"want_membership", roomId, rfl, rfl, bind_eq_ok_iff.mpr ⟨held, ?_, rfl⟩⟩
    rw [field, h]
    exact readIdArray_idArray held
  | wantRecentChat roomId window held =>
    refine ⟨"want_recent_chat", roomId, rfl, rfl, bind_eq_ok_iff.mpr ⟨window.maxCount, ?_, ?_⟩⟩
    · rw [field, h]
      exact readMaxCount_uint window.maxCount
    refine bind_eq_ok_iff.mpr ⟨_, orBadShape_eq_ok.mpr (h _), ?_⟩
    refine bind_eq_ok_iff.mpr ⟨window.sinceMs, readOptU64_optU64 window.sinceMs, bind_eq_ok_iff.mpr ⟨held, ?_, rfl⟩⟩
    rw [field, h]
    exact readIdArray_idArray held
  | events roomId frames =>
    have hids : field fields "ids" = none := h "ids"
    have hnonce : field fields "nonce" = none := h "nonce"
    refine ⟨"events", roomId, rfl, rfl, bind_eq_ok_iff.mpr ⟨frames, ?_, ?_⟩⟩
    · rw [field, h]
      exact readBytesArray_bytesArray frames
    · rw [hids, hnonce]
      rfl
  | terminalEvents roomId frames ids nonce =>
    have hids : field fields "ids" = some (normal (idArray ids)) := h "ids"
    have hnonce : field fields "nonce" = some (normal (shortId nonce)) := h "nonce"
    refine ⟨"events", roomId, rfl, rfl, bind_eq_ok_iff.mpr ⟨frames, ?_, ?_⟩⟩
    · rw [field, h]
      exact readBytesArray_bytesArray frames
    · rw [hids, hnonce]
      refine bind_eq_ok_iff.mpr ⟨ids, readIdArray_idArray ids, ?_⟩
      exact bind_eq_ok_iff.mpr ⟨nonce, readShortId_shortId nonce, rfl⟩
  | eventsConfirmed roomId ids nonce =>
    refine ⟨"events_confirmed", roomId, rfl, rfl, bind_eq_ok_iff.mpr ⟨ids, ?_, bind_eq_ok_iff.mpr ⟨nonce, ?_, rfl⟩⟩⟩
    · rw [field, h]
      exact readIdArray_idArray ids
    · rw [field, h]
      exact readShortId_shortId nonce
  | notFound roomId ids =>
    refine ⟨"not_found", roomId, rfl, rfl, bind_eq_ok_iff.mpr ⟨ids, ?_, rfl⟩⟩
    rw [field, h]
    exact readIdArray_idArray ids
  | proveCapability roomId inviteId secret =>
    refine ⟨"prove_capability", roomId, rfl, rfl, bind_eq_ok_iff.mpr ⟨inviteId, ?_, ?_⟩⟩
    · rw [field, h]
      exact readShortId_shortId inviteId
    · refine bind_eq_ok_iff.mpr ⟨secret, ?_, rfl⟩
      rw [field, h]
      exact readShortId_shortId secret
  | wantKeyHistory roomId haveEpochs =>
    refine ⟨"want_key_history", roomId, rfl, rfl, bind_eq_ok_iff.mpr ⟨haveEpochs, ?_, rfl⟩⟩
    rw [field, h]
    exact readUintArray_uintArray haveEpochs
  | keyHistory roomId chunks =>
    refine ⟨"key_history", roomId, rfl, rfl, bind_eq_ok_iff.mpr ⟨chunks, ?_, rfl⟩⟩
    rw [field, h]
    exact readArray_map fun c hc => fromCbor_toCbor ((hsorted c hc).imp le_of_lt)

theorem decodeValue_normal {m : SyncMessage} (hsorted : m.Sorted) : decodeValue (normal (.map m.entries)) = .ok m := by
  obtain ⟨fields, hfields, hlookup⟩ := exists_normal_map m.keys_nodup
  obtain ⟨ty, roomId, hty, hroom, hbody⟩ := decodeBody_entries hsorted hlookup
  rw [hfields]
  refine bind_eq_ok_iff.mpr ⟨fields, rfl, bind_eq_ok_iff.mpr ⟨ty, ?_, bind_eq_ok_iff.mpr ⟨roomId, ?_, hbody⟩⟩⟩
  · rw [field, hlookup, hty]
    rfl
  · rw [field, hlookup, hroom]
    exact orBadShape_eq_ok.mpr (readDigest_keyValue roomId)

/-! ### The shape of a message -/

theorem within_wrappedKeys (keys : List (DeviceKey × WrappedKeyEntry)) : Within 3 (wrappedKeysToCbor keys) := by
  refine within_list fun p _ => within_array fun v hv => ?_
  simp only [List.mem_cons, List.not_mem_nil, or_false] at hv
  rcases hv with rfl | rfl
  · exact within_bytes 1 _
  · have honce : ["ephemeral_public", "nonce", "ciphertext"].Nodup := by decide
    refine within_map honce fun e he => ?_
    simp only [List.mem_cons, List.not_mem_nil, or_false] at he
    rcases he with rfl | rfl | rfl
    all_goals exact within_bytes 0 _

theorem within_chunk (c : KeyHistoryChunk) : Within 5 c.toCbor := by
  have honce : ["distribution_event_id", "distribution"].Nodup := by decide
  have honce' : ["new_epoch", "key_commitment", "wrapped_keys"].Nodup := by decide
  refine within_sortIntoMap honce fun e he => ?_
  simp only [List.mem_cons, List.not_mem_nil, or_false] at he
  rcases he with rfl | rfl
  · exact within_bytes 4 _
  · refine within_sortIntoMap honce' fun e he => ?_
    simp only [List.mem_cons, List.not_mem_nil, or_false] at he
    rcases he with rfl | rfl | rfl
    · exact within_uint 3 _
    · exact within_bytes 3 _
    · exact within_wrappedKeys _

theorem within_idArray (ids : List EventId) : Within 6 (idArray ids) :=
  within_list fun _ _ => within_bytes 5 _

theorem within_bytesArray (frames : List Bytes) : Within 6 (bytesArray frames) :=
  within_list fun _ _ => within_bytes 5 _

theorem within_uintArray (values : OrdSet (Fin (2 ^ 64))) : Within 6 (uintArray values) :=
  within_list fun _ _ => within_uint 5 _

theorem within_optTip (tip : Option (EventId × UInt64)) : Within 6 (optTip tip) := by
  cases tip with
  | none => exact within_array fun v hv => by cases hv
  | some t =>
    refine within_array fun v hv => ?_
    simp only [List.mem_cons, List.not_mem_nil, or_false] at hv
    rcases hv with rfl | rfl
    · exact within_bytes 5 _
    · exact within_uint 5 _

theorem within_optU64 (n : Option UInt64) : Within 6 (optU64 n) := by
  cases n with
  | none => exact within_array fun v hv => by cases hv
  | some x =>
    refine within_array fun v hv => ?_
    rw [List.mem_singleton.mp hv]
    exact within_uint 5 _

theorem within_shortId (x : ShortId) : Within 6 (shortId x) := within_bytes 6 _

/-- The fields that every kind has, and its own. -/
theorem within_fields {ty : String} {roomId : RoomId} {rest : List (String × CborValue)}
    (h : rest.Forall fun e => Within 6 e.2) : ∀ e ∈ tag ty :: roomField roomId :: rest, Within 6 e.2 := by
  refine List.forall_mem_cons.mpr ⟨⟨trivial, Nat.zero_le 6⟩, List.forall_mem_cons.mpr ⟨within_bytes 6 _, ?_⟩⟩
  exact List.forall_iff_forall_mem.mp h

/-- A message nests at most seven deep and names no field twice. -/
theorem within_entries (m : SyncMessage) : Within 7 (.map m.entries) := by
  refine within_map m.keys_nodup ?_
  cases m with
  | adminTip roomId tip => exact within_fields (within_optTip tip)
  | heads roomId ids => exact within_fields (within_idArray ids)
  | wantEvents roomId ids => exact within_fields (within_idArray ids)
  | wantMembership roomId held => exact within_fields (within_idArray held)
  | wantRecentChat roomId window held =>
    exact within_fields ⟨within_uint 6 _, within_optU64 window.sinceMs, within_idArray held⟩
  | events roomId frames => exact within_fields (within_bytesArray frames)
  | terminalEvents roomId frames ids nonce =>
    exact within_fields ⟨within_bytesArray frames, within_idArray ids, within_shortId nonce⟩
  | eventsConfirmed roomId ids nonce => exact within_fields ⟨within_idArray ids, within_shortId nonce⟩
  | notFound roomId ids => exact within_fields (within_idArray ids)
  | proveCapability roomId inviteId secret => exact within_fields ⟨within_shortId inviteId, within_shortId secret⟩
  | wantKeyHistory roomId haveEpochs => exact within_fields (within_uintArray haveEpochs)
  | keyHistory roomId chunks => exact within_fields (within_list fun c _ => within_chunk c)

theorem decode_encode {m : SyncMessage} (hsorted : m.Sorted) (hfits : m.encode.length ≤ usizeMax) :
    decode m.encode = .ok m := by
  have hread : decodeCanonical m.encode = .ok (normal (.map m.entries)) :=
    decodeCanonical_encode (m.within_entries.mono (by decide)) hfits
  unfold decode
  rw [hread]
  exact decodeValue_normal hsorted

/-- A body that reads as a plain batch has neither receipt field. -/
theorem decodeBody_eq_events {fields : List (String × CborValue)} {roomId roomId' : RoomId} {ty : String}
    {frames : List Bytes} (h : decodeBody fields roomId ty = .ok (events roomId' frames)) :
    field fields "ids" = none ∧ field fields "nonce" = none := by
  unfold decodeBody at h
  split at h
  case h_6 =>
    obtain ⟨frames', -, h⟩ := bind_eq_ok_iff.mp h
    split at h
    · rename_i hids hnonce
      exact ⟨hids, hnonce⟩
    · obtain ⟨ids, -, h⟩ := bind_eq_ok_iff.mp h
      obtain ⟨nonce, -, h⟩ := bind_eq_ok_iff.mp h
      cases h
    · cases h
  -- the other kinds return a message of their own
  all_goals
    repeat obtain ⟨_, -, h⟩ := bind_eq_ok_iff.mp h
    cases h

theorem fields_of_decode_events {b : Bytes} {roomId : RoomId} {frames : List Bytes}
    (h : decode b = .ok (events roomId frames)) : ∃ fields, decodeCanonical b = .ok (.map fields) ∧
      field fields "ids" = none ∧ field fields "nonce" = none := by
  unfold decode at h
  cases hvalue : decodeCanonical b with
  | error e =>
    rw [hvalue] at h
    cases h
  | ok value =>
    rw [hvalue] at h
    obtain ⟨fields, hfields, htyped⟩ := bind_eq_ok_iff.mp h
    obtain ⟨ty, -, hroom⟩ := bind_eq_ok_iff.mp htyped
    obtain ⟨room, -, hbody⟩ := bind_eq_ok_iff.mp hroom
    rw [orBadShape_eq_ok, asMap_eq_some] at hfields
    rw [hfields]
    exact ⟨fields, rfl, decodeBody_eq_events hbody⟩

/-- Decoding undoes encoding on messages whose chunks list their recipients in order; so encodings tell messages apart,
a plain batch never reads as a terminal one or the other way round, and bytes that read as a plain batch carry neither
receipt field. An encoding is a byte vector, so its length fits the machine's word. -/
theorem decode_encode_messages :
    (∀ m : SyncMessage, m.Sorted → m.encode.length ≤ usizeMax → decode m.encode = .ok m) ∧
    (∀ m m' : SyncMessage, m.Sorted → m'.Sorted → m.encode.length ≤ usizeMax → m.encode = m'.encode → m = m') ∧
    (∀ roomId frames roomId' frames' ids nonce, (events roomId frames).encode.length ≤ usizeMax →
      decode (events roomId frames).encode ≠ .ok (terminalEvents roomId' frames' ids nonce)) ∧
    (∀ roomId frames ids nonce roomId' frames', (terminalEvents roomId frames ids nonce).encode.length ≤ usizeMax →
      decode (terminalEvents roomId frames ids nonce).encode ≠ .ok (events roomId' frames')) ∧
    ∀ b roomId frames, decode b = .ok (events roomId frames) → ∃ fields, decodeCanonical b = .ok (.map fields) ∧
      ∀ e ∈ fields, e.1 ≠ "ids" ∧ e.1 ≠ "nonce" := by
  refine ⟨fun m hsorted hfits => decode_encode hsorted hfits, ?_, ?_, ?_, ?_⟩
  · intro m m' hsorted hsorted' hfits heq
    have hback := decode_encode hsorted hfits
    rw [heq, decode_encode hsorted' (heq ▸ hfits)] at hback
    exact (Except.ok.inj hback).symm
  · intro roomId frames roomId' frames' ids nonce hfits h
    have hback : decode (events roomId frames).encode = .ok (events roomId frames) := decode_encode trivial hfits
    rw [hback] at h
    cases h
  · intro roomId frames ids nonce roomId' frames' hfits h
    have hback : decode (terminalEvents roomId frames ids nonce).encode =
        .ok (terminalEvents roomId frames ids nonce) := decode_encode trivial hfits
    rw [hback] at h
    cases h
  · intro b roomId frames h
    obtain ⟨fields, hfields, hids, hnonce⟩ := fields_of_decode_events h
    refine ⟨fields, hfields, fun e he => ⟨?_, ?_⟩⟩
    · intro hkey
      exact absurd (List.lookup_eq_none_iff.mp hids e he) (by simp [hkey])
    · intro hkey
      exact absurd (List.lookup_eq_none_iff.mp hnonce e he) (by simp [hkey])

/-- A history of one epoch for two devices. -/
def Toy.history : SyncMessage :=
  keyHistory (Bytes32.ofNat 1) [⟨Bytes32.ofNat 2, 7, 3, [(Bytes32.ofNat 4, ⟨5, 6, 7⟩), (Bytes32.ofNat 8, ⟨9, 10, 11⟩)]⟩]

theorem decode_encode_history : Toy.history.Sorted ∧ Toy.history.encode.length ≤ usizeMax ∧
    decode Toy.history.encode = .ok Toy.history := by
  have hsorted : Toy.history.Sorted := by
    intro c hc
    rw [List.mem_singleton.mp hc]
    decide
  have hfits : Toy.history.encode.length ≤ usizeMax := by decide +kernel
  exact ⟨hsorted, hfits, decode_encode_messages.1 _ hsorted hfits⟩

end SyncMessage

end Wire

end IrohRooms
