import IrohRooms.ContentV2.Validate
import IrohRooms.Event.FieldsExact
import IrohRooms.Governance.EntryVerify

/-!
# The body of a content event

A canonical map of twelve keys, all of them required; the first event of a device has `null` for its predecessor. The
reader takes each of the twelve values as it stands, so writing the body gives back the received bytes.
-/

namespace IrohRooms.ContentV2

open Governance (Id IdKind CommunityId StreamId PrincipalId DeviceId Digest Reject orReject orReject_eq_ok)

/-- The hash of the exact body bytes of a content event. -/
abbrev EventId := Digest

def contentEventVersion : UInt64 := 2

def maxContentReferences : Nat := 8

def topLevelKeys : List String :=
  ["v", "community_id", "stream_id", "author_id", "device_id", "device_seq", "prev_device_event", "auth_hint_seq",
    "created_at_ms", "kind", "references", "content"]

structure ContentEventBody where
  v : UInt64
  communityId : CommunityId
  streamId : StreamId
  /-- The principal who speaks; its key does not sign. -/
  authorId : PrincipalId
  /-- The device whose key signs. -/
  deviceId : DeviceId
  deviceSeq : UInt64
  prevDeviceEvent : Option EventId
  authHintSeq : UInt64
  createdAtMs : UInt64
  kind : ContentKind
  references : List EventId
  content : CborV2.CborValue

/-- An identifier as a value of the second codec. -/
def idValue {kind : IdKind} (x : Id kind) : CborV2.CborValue := .bytes x.asBytes

/-- The predecessor, `null` for the first event. -/
def prevValue : Option EventId → CborV2.CborValue
  | some id => idValue id
  | none => .null

/-! ### Fields of the body -/

def lookup (entries : List (String × CborV2.CborValue)) (key : String) : Except Reject CborV2.CborValue :=
  orReject .invalidContent (entries.lookup key)

def requireUint (entries : List (String × CborV2.CborValue)) (key : String) : Except Reject UInt64 := do
  let value ← lookup entries key
  orReject .invalidContent value.asUint

def requireText (entries : List (String × CborV2.CborValue)) (key : String) : Except Reject String := do
  let value ← lookup entries key
  orReject .invalidContent value.asText

def requireBstr32Id {kind : IdKind} (entries : List (String × CborV2.CborValue)) (key : String) :
    Except Reject (Id kind) := do
  let value ← lookup entries key
  let b ← orReject .invalidContent value.asBytes
  orReject .invalidContent (Id.ofBytes b)

def requirePrevDeviceEvent (entries : List (String × CborV2.CborValue)) (key : String) :
    Except Reject (Option EventId) := do
  let value ← lookup entries key
  match value with
  | .null => .ok none
  | .bytes b => (orReject .invalidContent (Id.ofBytes b)).map some
  | _ => .error .invalidContent

def requireReferences (entries : List (String × CborV2.CborValue)) (key : String) : Except Reject (List EventId) := do
  let value ← lookup entries key
  let items ← orReject .invalidContent value.asArray
  if maxContentReferences < items.length then .error .invalidContent
  else items.mapM fun item => do
    let b ← orReject .invalidContent item.asBytes
    orReject .invalidContent (Id.ofBytes b)

def requireContentMap (entries : List (String × CborV2.CborValue)) (key : String) : Except Reject CborV2.CborValue := do
  let value ← lookup entries key
  if value.asMap.isNone then .error .invalidContent else .ok value

def rejectUnknownTopLevelKeys (entries : List (String × CborV2.CborValue)) : Except Reject Unit :=
  ensure (∀ e ∈ entries, e.1 ∈ topLevelKeys)

namespace ContentEventBody

def toEntries (body : ContentEventBody) : List (String × CborV2.CborValue) :=
  [("v", .uint body.v), ("community_id", idValue body.communityId), ("stream_id", idValue body.streamId),
    ("author_id", idValue body.authorId), ("device_id", idValue body.deviceId), ("device_seq", .uint body.deviceSeq),
    ("prev_device_event", prevValue body.prevDeviceEvent), ("auth_hint_seq", .uint body.authHintSeq),
    ("created_at_ms", .uint body.createdAtMs), ("kind", .text body.kind.asStr),
    ("references", .array (body.references.map idValue)), ("content", body.content)]

def toCbor (body : ContentEventBody) : CborV2.CborValue := .map body.toEntries

def encodeCanonical (body : ContentEventBody) : Bytes := CborV2.encode body.toCbor

def fromCanonical (value : CborV2.CborValue) : Except Reject ContentEventBody := do
  let entries ← orReject .nonCanonicalEncoding value.asMap
  rejectUnknownTopLevelKeys entries
  let v ← requireUint entries "v"
  if v ≠ contentEventVersion then .error .unknownVersion
  else do
    let communityId ← requireBstr32Id entries "community_id"
    let streamId ← requireBstr32Id entries "stream_id"
    let authorId ← requireBstr32Id entries "author_id"
    let deviceId ← requireBstr32Id entries "device_id"
    let deviceSeq ← requireUint entries "device_seq"
    let prevDeviceEvent ← requirePrevDeviceEvent entries "prev_device_event"
    let authHintSeq ← requireUint entries "auth_hint_seq"
    let createdAtMs ← requireUint entries "created_at_ms"
    let text ← requireText entries "kind"
    let kind ← ContentKind.fromWire text
    let references ← requireReferences entries "references"
    let content ← requireContentMap entries "content"
    -- the first event of a device and no other is without a predecessor
    if deviceSeq = 0 ∧ prevDeviceEvent.isNone = false then .error .invalidContent
    else if deviceSeq ≠ 0 ∧ prevDeviceEvent.isNone = true then .error .invalidContent
    else do
      validateContent kind content authorId
      return ⟨v, communityId, streamId, authorId, deviceId, deviceSeq, prevDeviceEvent, authHintSeq, createdAtMs, kind,
        references, content⟩

def decodeFromCsb (csb : Bytes) : Except Reject ContentEventBody :=
  match CborV2.decodeCanonical csb with
  | .ok value => fromCanonical value
  | .error _ => .error .nonCanonicalEncoding

end ContentEventBody

/-! ### What a successful read says -/

section Reads

variable {entries : List (String × CborV2.CborValue)} {key : String}

theorem asUint_eq_some {value : CborV2.CborValue} {n : UInt64} : value.asUint = some n ↔ value = .uint n := by
  cases value <;> simp [CborV2.CborValue.asUint]

theorem asText_eq_some {value : CborV2.CborValue} {s : String} : value.asText = some s ↔ value = .text s := by
  cases value <;> simp [CborV2.CborValue.asText]

theorem asBytes_eq_some {value : CborV2.CborValue} {b : Bytes} : value.asBytes = some b ↔ value = .bytes b := by
  cases value <;> simp [CborV2.CborValue.asBytes]

theorem asArray_eq_some {value : CborV2.CborValue} {items : List CborV2.CborValue} :
    value.asArray = some items ↔ value = .array items := by
  cases value <;> simp [CborV2.CborValue.asArray]

theorem asMap_eq_some {value : CborV2.CborValue} : value.asMap = some entries ↔ value = .map entries := by
  cases value <;> simp [CborV2.CborValue.asMap]

theorem lookup_of_requireUint {n : UInt64} (h : requireUint entries key = .ok n) :
    entries.lookup key = some (.uint n) := by
  obtain ⟨value, hvalue, h⟩ := bind_eq_ok_iff.mp h
  rw [orReject_eq_ok.mp hvalue, asUint_eq_some.mp (orReject_eq_ok.mp h)]

theorem lookup_of_requireText {s : String} (h : requireText entries key = .ok s) :
    entries.lookup key = some (.text s) := by
  obtain ⟨value, hvalue, h⟩ := bind_eq_ok_iff.mp h
  rw [orReject_eq_ok.mp hvalue, asText_eq_some.mp (orReject_eq_ok.mp h)]

/-- Thirty-two bytes that were taken for an id are written as they stood. -/
theorem eq_idValue {kind : IdKind} {value : CborV2.CborValue} {x : Id kind}
    (h : (do let b ← orReject .invalidContent value.asBytes; orReject .invalidContent (Id.ofBytes b)) = .ok x) :
    value = idValue x := by
  obtain ⟨b, hb, h⟩ := bind_eq_ok_iff.mp h
  rw [asBytes_eq_some.mp (orReject_eq_ok.mp hb), Governance.Id.ofBytes_eq_some.mp (orReject_eq_ok.mp h)]
  rfl

theorem eq_map_idValue {items : List CborV2.CborValue} {ids : List EventId}
    (h : List.Forall₂ (fun value x => (do
      let b ← orReject .invalidContent value.asBytes
      orReject .invalidContent (Id.ofBytes b)) = .ok x) items ids) : items = ids.map idValue := by
  induction h with
  | nil => rfl
  | cons hv _ ih => rw [List.map_cons, ← ih, eq_idValue hv]

theorem lookup_of_requireBstr32Id {kind : IdKind} {x : Id kind} (h : requireBstr32Id entries key = .ok x) :
    entries.lookup key = some (idValue x) := by
  obtain ⟨value, hvalue, h⟩ := bind_eq_ok_iff.mp h
  rw [orReject_eq_ok.mp hvalue, eq_idValue h]

theorem lookup_of_requirePrevDeviceEvent {prev : Option EventId} (h : requirePrevDeviceEvent entries key = .ok prev) :
    entries.lookup key = some (prevValue prev) := by
  obtain ⟨value, hvalue, h⟩ := bind_eq_ok_iff.mp h
  rw [orReject_eq_ok.mp hvalue]
  split at h
  · cases h
    rfl
  · obtain ⟨id, hid, rfl⟩ := map_eq_ok_iff.mp h
    rw [Governance.Id.ofBytes_eq_some.mp (orReject_eq_ok.mp hid)]
    rfl
  · cases h

theorem lookup_of_requireReferences {refs : List EventId} (h : requireReferences entries key = .ok refs) :
    entries.lookup key = some (.array (refs.map idValue)) ∧ refs.length ≤ maxContentReferences := by
  obtain ⟨value, hvalue, h⟩ := bind_eq_ok_iff.mp h
  obtain ⟨items, hitems, h⟩ := bind_eq_ok_iff.mp h
  split_ifs at h with hcap
  have hall := mapM_eq_ok_iff.mp h
  rw [orReject_eq_ok.mp hvalue, asArray_eq_some.mp (orReject_eq_ok.mp hitems), ← eq_map_idValue hall, ← hall.length_eq]
  exact ⟨rfl, not_lt.mp hcap⟩

theorem lookup_of_requireContentMap {content : CborV2.CborValue} (h : requireContentMap entries key = .ok content) :
    entries.lookup key = some content := by
  obtain ⟨value, hvalue, h⟩ := bind_eq_ok_iff.mp h
  split_ifs at h
  rw [orReject_eq_ok.mp hvalue, Except.ok.inj h]

theorem ensure_eq_ok {c : Prop} [Decidable c] {u : Unit} : ensure c = .ok u ↔ c := by
  unfold ensure
  split_ifs with h <;> simp [h]

end Reads

/-! ### Bodies that keep their bytes -/

/-- Two lists with each key once are the same up to order if the first holds every key of the second, with its value. -/
theorem perm_of_lookup {α : Type} {written entries : List (String × α)} (hwritten : (written.map Prod.fst).Nodup)
    (hentries : (entries.map Prod.fst).Nodup) (hclosed : ∀ e ∈ entries, e.1 ∈ written.map Prod.fst)
    (hlookup : ∀ e ∈ written, entries.lookup e.1 = some e.2) : written.Perm entries := by
  refine (List.perm_ext_iff_of_nodup hwritten.of_map hentries.of_map).mpr fun e => ?_
  have hsub : ∀ e ∈ written, e ∈ entries := fun e he => (Cbor.lookup_eq_some_iff hentries).mp (hlookup e he)
  constructor
  · exact hsub e
  · intro he
    obtain ⟨e', he', hkey⟩ := List.mem_map.mp (hclosed e he)
    rwa [List.inj_on_of_nodup_map hentries he (hsub e' he') hkey.symm]

/-- A map is encoded alike in whatever order its entries are listed. -/
theorem encode_map_perm {written entries : List (String × CborV2.CborValue)} (hperm : written.Perm entries)
    (honce : (written.map Prod.fst).Nodup) : CborV2.encode (.map written) = CborV2.encode (.map entries) := by
  have hkeys : ((CborV2.encodeEntries written).map Prod.fst).Nodup := by
    rw [CborV2.encodeEntries_eq, List.map_map]
    have hinj : ((written.map Prod.fst).map Cbor.encodedKey).Nodup := honce.map Cbor.encodedKey_injective
    rwa [List.map_map] at hinj
  have hrendered : (CborV2.encodeEntries written).Perm (CborV2.encodeEntries entries) := by
    rw [CborV2.encodeEntries_eq, CborV2.encodeEntries_eq]
    exact hperm.map _
  rw [CborV2.encode, CborV2.encode, hperm.length_eq, Cbor.sortEntries_perm hrendered hkeys]

theorem keys_nodup {entries : List (String × CborV2.CborValue)} (h : CborV2.Ordered (.map entries)) :
    (entries.map Prod.fst).Nodup := by
  rw [CborV2.Ordered] at h
  have hpairwise := List.pairwise_map.mp h.1
  refine List.pairwise_map.mpr (hpairwise.imp fun hlt heq => ?_)
  rw [heq] at hlt
  exact List.lt_irrefl _ hlt

namespace ContentEventBody

/-- What the reader says of a body: the values it stands for, and its shape as a link of a device's chain. -/
structure ReadFrom (body : ContentEventBody) (entries : List (String × CborV2.CborValue)) : Prop where
  closed : ∀ e ∈ entries, e.1 ∈ topLevelKeys
  values : ∀ e ∈ body.toEntries, entries.lookup e.1 = some e.2
  version : body.v = contentEventVersion
  first : body.deviceSeq = 0 ↔ body.prevDeviceEvent = none
  valid : validateContent body.kind body.content body.authorId = .ok ()
  references : body.references.length ≤ maxContentReferences

theorem readFrom_of_fromCanonical {value : CborV2.CborValue} {body : ContentEventBody}
    (h : fromCanonical value = .ok body) : ∃ entries, value = .map entries ∧ body.ReadFrom entries := by
  obtain ⟨entries, hentries, h⟩ := bind_eq_ok_iff.mp h
  obtain ⟨_, hclosed, h⟩ := bind_eq_ok_iff.mp h
  obtain ⟨v, hv, h⟩ := bind_eq_ok_iff.mp h
  split_ifs at h with hversion
  obtain ⟨communityId, hcommunity, h⟩ := bind_eq_ok_iff.mp h
  obtain ⟨streamId, hstream, h⟩ := bind_eq_ok_iff.mp h
  obtain ⟨authorId, hauthor, h⟩ := bind_eq_ok_iff.mp h
  obtain ⟨deviceId, hdevice, h⟩ := bind_eq_ok_iff.mp h
  obtain ⟨deviceSeq, hseq, h⟩ := bind_eq_ok_iff.mp h
  obtain ⟨prev, hprev, h⟩ := bind_eq_ok_iff.mp h
  obtain ⟨authHintSeq, hhint, h⟩ := bind_eq_ok_iff.mp h
  obtain ⟨createdAtMs, hcreated, h⟩ := bind_eq_ok_iff.mp h
  obtain ⟨text, htext, h⟩ := bind_eq_ok_iff.mp h
  obtain ⟨kind, hkind, h⟩ := bind_eq_ok_iff.mp h
  obtain ⟨references, hreferences, h⟩ := bind_eq_ok_iff.mp h
  obtain ⟨content, hcontent, h⟩ := bind_eq_ok_iff.mp h
  split_ifs at h with hfirst hlater
  obtain ⟨_, hvalid, h⟩ := bind_eq_ok_iff.mp h
  obtain rfl := Except.ok.inj h
  have hmap : value = .map entries := asMap_eq_some.mp (orReject_eq_ok.mp hentries)
  obtain ⟨hreferences, hcap⟩ := lookup_of_requireReferences hreferences
  refine ⟨entries, hmap, ensure_eq_ok.mp hclosed, ?_, not_not.mp hversion, ?_, hvalid, hcap⟩
  · simp only [toEntries, List.forall_mem_cons, List.not_mem_nil, false_imp_iff, implies_true, and_true]
    rw [ContentKind.asStr_of_fromWire hkind]
    exact ⟨lookup_of_requireUint hv, lookup_of_requireBstr32Id hcommunity, lookup_of_requireBstr32Id hstream,
      lookup_of_requireBstr32Id hauthor, lookup_of_requireBstr32Id hdevice, lookup_of_requireUint hseq,
      lookup_of_requirePrevDeviceEvent hprev, lookup_of_requireUint hhint, lookup_of_requireUint hcreated,
      lookup_of_requireText htext, hreferences, lookup_of_requireContentMap hcontent⟩
  · constructor
    · intro hzero
      by_contra hsome
      exact hfirst ⟨hzero, Option.isNone_eq_false_iff.mpr (Option.isSome_iff_ne_none.mpr hsome)⟩
    · intro hnone
      by_contra hne
      exact hlater ⟨hne, Option.isNone_iff_eq_none.mpr hnone⟩

/-- A body that was read from bytes is written as these bytes. -/
theorem encodeCanonical_of_decodeFromCsb {csb : Bytes} {body : ContentEventBody} (h : decodeFromCsb csb = .ok body) :
    body.encodeCanonical = csb := by
  unfold decodeFromCsb at h
  split at h
  · rename_i value hvalue
    obtain ⟨hencodable, rfl⟩ := CborV2.decodeCanonical_eq_ok.mp hvalue
    obtain ⟨entries, rfl, hread⟩ := readFrom_of_fromCanonical h
    have honce : (body.toEntries.map Prod.fst).Nodup := by
      simp [toEntries]
    exact encode_map_perm (perm_of_lookup honce (keys_nodup hencodable.ordered) hread.closed hread.values) honce
  · cases h

end ContentEventBody

end IrohRooms.ContentV2
