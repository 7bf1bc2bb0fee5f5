import IrohRooms.Event.Build
import IrohRooms.Event.SignedExact

/-!
# Wire events

The transport envelope around the signed bytes, and the whole of `validate_wire_bytes` on it: the advisory id, the
canonical form of the signed bytes, the signature, and then the checks on the decoded event. What validation accepts is
kept verbatim (`validateWireBytes_sound`), and what an author seals it accepts (`validateWireBytes_sealSigned`).
-/

namespace IrohRooms

open Cbor Fields

/-! ### Named hashes -/

/-- Lowercase hex, two digits a byte. -/
def hexChars (b : Bytes) : List Char := b.flatMap fun x => [Nat.digitChar (x.toNat / 16), Nat.digitChar (x.toNat % 16)]

def hexValue (c : Char) : Option Nat :=
  if '0' ≤ c ∧ c ≤ '9' then some (c.toNat - 48)
  else if 'a' ≤ c ∧ c ≤ 'f' then some (c.toNat - 87)
  else if 'A' ≤ c ∧ c ≤ 'F' then some (c.toNat - 55)
  else none

/-- Hex in either case; an odd number of digits is an error. -/
def hexDecode : List Char → Option Bytes
  | [] => some []
  | [_] => none
  | hi :: lo :: rest => do
    let h ← hexValue hi
    let l ← hexValue lo
    let bs ← hexDecode rest
    return UInt8.ofNat (16 * h + l) :: bs

inductive HashParseError
  | missingPrefix
  | badLength (actual : Nat)
  | badHex
  deriving DecidableEq, Repr

namespace Bytes32

variable {kind : Kind}

def blake3Name : List Char := "blake3:".toList

/-- The named form of a hash. -/
def toNamedString (x : Bytes32 kind) : String := String.ofList (blake3Name ++ hexChars x.asBytes)

def fromStr (s : String) : Except HashParseError (Bytes32 kind) :=
  if blake3Name.isPrefixOf s.toList then
    match hexDecode (s.toList.drop blake3Name.length) with
    | none => .error .badHex
    | some b => if b.length = 32 then .ok ⟨BitVec.ofNat 256 (fromBeBytes b)⟩ else .error (.badLength b.length)
  else .error .missingPrefix

end Bytes32

/-! ### The envelope -/

def eventContext : Bytes := contextBytes "iroh-rooms:event:v1"

/-- The message a device signs for an event. -/
def eventSigningMessage (signed : Bytes) : Bytes := eventContext ++ signed

section

variable (env : Env)

/-- The event id, from the exact signed bytes. -/
def eventIdFromBytes (signed : Bytes) : EventId := ⟨env.blake3 signed⟩

def signCsb (csb : Bytes) (deviceSecret : SigningKey) : Signature := env.sign deviceSecret (eventSigningMessage csb)

end

def wireVersion : Nat := 1

structure WireEvent where
  v : Nat
  signed : Bytes
  sig : Signature
  id : String
  deriving DecidableEq, Repr

namespace WireEvent

/-- Stamp the version and the advisory id around signed bytes. -/
def sealSigned (env : Env) (signed : Bytes) (sig : Signature) : WireEvent :=
  ⟨wireVersion, signed, sig, (eventIdFromBytes env signed).toNamedString⟩

/-- The advisory id, if it is well formed. -/
def advisoryId (w : WireEvent) : Option EventId := (Bytes32.fromStr w.id).toOption

def entries (w : WireEvent) : List (String × CborValue) :=
  [uintEntry "v" w.v, ("signed", .bytes w.signed), ("sig", bytesValue (n := 64) w.sig), textEntry "id" w.id]

def toBytes (w : WireEvent) : Bytes := encode (.map w.entries)

/-- The fields of an envelope that were seen so far. -/
structure Slots where
  v : Option Nat
  signed : Option Bytes
  sig : Option Signature
  id : Option String

def readEntry (s : Slots) (e : String × CborValue) : Except RejectReason Slots :=
  match e.1 with
  | "v" => do return { s with v := some (← uintOf .nonCanonicalEncoding e.2) }
  | "signed" => do return { s with signed := some (← okOr e.2.asBytes .nonCanonicalEncoding) }
  | "sig" => do return { s with sig := some (← fixedBytes .nonCanonicalEncoding 64 e.2) }
  | "id" => do return { s with id := some (← textOf .nonCanonicalEncoding e.2) }
  | _ => .error .nonCanonicalEncoding

/-- Exactly the four typed keys. -/
def fromCanonicalValue (value : CborValue) : Except RejectReason WireEvent := do
  let entries ← okOr value.asMap .nonCanonicalEncoding
  if entries.length ≠ 4 then .error .nonCanonicalEncoding
  else
    let s ← entries.foldlM readEntry ⟨none, none, none, none⟩
    let v ← okOr s.v .nonCanonicalEncoding
    let signed ← okOr s.signed .nonCanonicalEncoding
    let sig ← okOr s.sig .nonCanonicalEncoding
    let id ← okOr s.id .nonCanonicalEncoding
    if v ≠ wireVersion then .error .nonCanonicalEncoding else return ⟨v, signed, sig, id⟩

def decode (bytes : Bytes) : Except RejectReason WireEvent :=
  match decodeCanonical bytes with
  | .error _ => .error .nonCanonicalEncoding
  | .ok value => fromCanonicalValue value

end WireEvent

/-! ### Validation of received bytes -/

/-- A validated event with its envelope. -/
structure ReceivedEvent (env : Env) (room : RoomId) extends ValidatedEvent env room where
  wire : WireEvent

section

variable (env : Env) (ctx : ValidationContext)

/-- The checks on the signed bytes of an envelope, the signature among them, and the event they hold. -/
def openSigned (wire : WireEvent) : Except RejectReason SignedEvent :=
  match decodeCanonical wire.signed with
  | .error _ => .error .nonCanonicalEncoding
  | .ok value =>
    if encode value ≠ wire.signed then .error .nonCanonicalEncoding
    else do
      let deviceId ← SignedEvent.readDeviceId value
      if env.verify deviceId.bits (eventSigningMessage wire.signed) wire.sig
      then SignedEvent.fromCanonicalValue value else .error .badSignature

def validateWireBytes (bytes : Bytes) : Except RejectReason (ReceivedEvent env ctx.expectedRoom) := do
  let wire ← WireEvent.decode bytes
  let eventId := eventIdFromBytes env wire.signed
  if eventId.toNamedString ≠ wire.id then .error .idMismatch
  else
    let event ← openSigned env wire
    let validated ← validate env ctx eventId event
    return { toValidatedEvent := validated, wire := wire }

end

/-! ### Names are read back -/

theorem hexValue_digitChar : ∀ n < 16, hexValue (Nat.digitChar n) = some n := by decide

theorem hexDecode_hexChars (b : Bytes) : hexDecode (hexChars b) = some b := by
  induction b with
  | nil => rfl
  | cons x b ih =>
    have hx : x.toNat < 256 := x.toNat_lt
    have hhi := hexValue_digitChar (x.toNat / 16) (by omega)
    have hlo := hexValue_digitChar (x.toNat % 16) (by omega)
    have hbyte : UInt8.ofNat (16 * (x.toNat / 16) + x.toNat % 16) = x := by
      rw [Nat.div_add_mod]
      exact UInt8.ofNat_toNat
    show hexDecode (Nat.digitChar (x.toNat / 16) :: Nat.digitChar (x.toNat % 16) :: hexChars b) = some (x :: b)
    rw [hexDecode, hhi, hlo, ih]
    exact congrArg (fun y => some (y :: b)) hbyte

/-- The named form determines the hash. -/
theorem Bytes32.fromStr_toNamedString {kind : Kind} (x : Bytes32 kind) : fromStr x.toNamedString = .ok x := by
  have hlen : x.asBytes.length = 32 := length_beBytes 32 _
  have hlt : x.num < 256 ^ 32 := by
    rw [← two_pow_eight_mul]
    exact x.bits.isLt
  have hnum : fromBeBytes x.asBytes = x.num := by
    rw [Bytes32.asBytes, fromBeBytes_beBytes, Nat.mod_eq_of_lt hlt]
  unfold fromStr toNamedString
  rw [String.toList_ofList, if_pos (List.isPrefixOf_iff_prefix.mpr (List.prefix_append _ _)), List.drop_left,
    hexDecode_hexChars]
  show (if x.asBytes.length = 32 then _ else _) = _
  rw [if_pos hlen, hnum]
  exact congrArg Except.ok (congrArg Bytes32.mk (BitVec.ofNat_toNat ..))

/-! ### Envelopes are read back -/

namespace WireEvent

/-- Whatever a slot holds stood in the map. -/
structure Slots.Found (s : Slots) (entries : List (String × CborValue)) : Prop where
  v : ∀ n, s.v = some n → uintEntry "v" n ∈ entries
  signed : ∀ b, s.signed = some b → ("signed", .bytes b) ∈ entries
  sig : ∀ x, s.sig = some x → ("sig", bytesValue (n := 64) x) ∈ entries
  id : ∀ t, s.id = some t → textEntry "id" t ∈ entries

theorem readEntry_found {entries : List (String × CborValue)} {s s' : Slots} {e : String × CborValue} (he : e ∈ entries)
    (hs : s.Found entries) (h : readEntry s e = .ok s') : s'.Found entries := by
  obtain ⟨key, value⟩ := e
  unfold readEntry at h
  dsimp only at h
  split at h
  · obtain ⟨n, hn, h⟩ := bind_eq_ok_iff.mp h
    cases h
    rw [uintOf_eq_ok hn] at he
    exact { hs with v := fun n' hn' => Option.some.inj hn' ▸ he }
  · obtain ⟨b, hb, h⟩ := bind_eq_ok_iff.mp h
    cases h
    rw [asBytes_eq_some.mp (okOr_eq_ok.mp hb)] at he
    exact { hs with signed := fun b' hb' => Option.some.inj hb' ▸ he }
  · obtain ⟨x, hx, h⟩ := bind_eq_ok_iff.mp h
    cases h
    rw [fixedBytes_eq_ok.mp hx] at he
    exact { hs with sig := fun x' hx' => Option.some.inj hx' ▸ he }
  · obtain ⟨t, ht, h⟩ := bind_eq_ok_iff.mp h
    cases h
    rw [textOf_eq_ok.mp ht] at he
    exact { hs with id := fun t' ht' => Option.some.inj ht' ▸ he }
  · cases h

theorem keysOnce_entries (w : WireEvent) : (w.entries.map Prod.fst).Nodup := by
  show ["v", "signed", "sig", "id"].Nodup
  decide

theorem encode_of_fromCanonicalValue {value : CborValue} {w : WireEvent} (h : fromCanonicalValue value = .ok w) :
    w.toBytes = encode value ∧ w.v = wireVersion := by
  obtain ⟨entries, hentries, h⟩ := bind_eq_ok_iff.mp h
  split_ifs at h with hlen
  obtain ⟨s, hs, h⟩ := bind_eq_ok_iff.mp h
  obtain ⟨v, hv, h⟩ := bind_eq_ok_iff.mp h
  obtain ⟨signed, hsigned, h⟩ := bind_eq_ok_iff.mp h
  obtain ⟨sig, hsig, h⟩ := bind_eq_ok_iff.mp h
  obtain ⟨id, hid, h⟩ := bind_eq_ok_iff.mp h
  split_ifs at h with hversion
  cases h
  rw [okOr_eq_ok] at hentries hv hsigned hsig hid
  rw [asMap_eq_some.mp hentries]
  have hnone : Slots.Found ⟨none, none, none, none⟩ entries := by
    constructor <;> simp
  have hfound : s.Found entries := foldlM_invariant (fun _ _ _ he hs h => readEntry_found he hs h) hnone hs
  refine ⟨encode_map_of_mem (keysOnce_entries _) (fun e he => ?_) (not_not.mp hlen), not_not.mp hversion⟩
  simp only [WireEvent.entries, List.mem_cons, List.not_mem_nil, or_false] at he
  rcases he with rfl | rfl | rfl | rfl
  · exact hfound.v _ hv
  · exact hfound.signed _ hsigned
  · exact hfound.sig _ hsig
  · exact hfound.id _ hid

/-- An envelope that is decoded is the one its bytes are the encoding of. -/
theorem toBytes_of_decode {bytes : Bytes} {w : WireEvent} (h : decode bytes = .ok w) : w.toBytes = bytes := by
  unfold decode at h
  cases hvalue : decodeCanonical bytes with
  | error reason =>
    rw [hvalue] at h
    cases h
  | ok value =>
    rw [hvalue] at h
    rw [(encode_of_fromCanonicalValue h).1]
    exact (decodeCanonical_eq_ok.mp hvalue).2

/-- The envelope with its keys in canonical order. -/
def canonical (w : WireEvent) : CborValue :=
  .map [uintEntry "v" w.v, textEntry "id" w.id, ("sig", bytesValue (n := 64) w.sig), ("signed", .bytes w.signed)]

theorem encode_canonical (w : WireEvent) : encode w.canonical = w.toBytes := by
  refine (encode_map_of_mem (keysOnce_entries w) (fun e he => ?_) rfl).symm
  simp only [WireEvent.entries, List.mem_cons] at he ⊢
  tauto

theorem decodeCanonical_toBytes {w : WireEvent} (hfits : w.toBytes.length ≤ usizeMax) :
    decodeCanonical w.toBytes = .ok w.canonical := by
  have hkeys : [encodedKey "v", encodedKey "id", encodedKey "sig", encodedKey "signed"].Pairwise (· < ·) := by
    decide
  have hdepth : depth w.canonical ≤ maxDepth := by
    show 1 ≤ maxDepth
    decide
  refine decodeCanonical_eq_ok.mpr ⟨⟨hdepth, ⟨hkeys, trivial, trivial, trivial, trivial, trivial⟩, ?_⟩, encode_canonical w⟩
  rw [encode_canonical]
  exact hfits

theorem readEntry_sig (s : Slots) (x : Signature) :
    readEntry s ("sig", bytesValue (n := 64) x) = .ok { s with sig := some x } := by
  show (fixedBytes .nonCanonicalEncoding 64 (bytesValue (n := 64) x) >>= fun x => _) = _
  rw [fixedBytes_eq_ok.mpr rfl]
  rfl

theorem fromCanonicalValue_canonical {w : WireEvent} (hv : w.v = wireVersion) :
    fromCanonicalValue w.canonical = .ok w := by
  obtain ⟨v, signed, sig, id⟩ := w
  obtain rfl : v = 1 := hv
  have hslots : List.foldlM readEntry ⟨none, none, none, none⟩ [uintEntry "v" 1, textEntry "id" id,
      ("sig", bytesValue (n := 64) sig), ("signed", .bytes signed)] = .ok ⟨some 1, some signed, some sig, some id⟩ := by
    rw [List.foldlM_cons]
    show List.foldlM readEntry ⟨some 1, none, none, none⟩ _ = _
    rw [List.foldlM_cons]
    show List.foldlM readEntry ⟨some 1, none, none, some id⟩ _ = _
    rw [List.foldlM_cons, readEntry_sig]
    rfl
  show (List.foldlM readEntry ⟨none, none, none, none⟩ [uintEntry "v" 1, textEntry "id" id,
      ("sig", bytesValue (n := 64) sig), ("signed", .bytes signed)] >>= fun s => _) = _
  rw [hslots]
  rfl

/-- An envelope of the current version is read back from its bytes. -/
theorem decode_toBytes {w : WireEvent} (hv : w.v = wireVersion) (hfits : w.toBytes.length ≤ usizeMax) :
    decode w.toBytes = .ok w := by
  rw [decode, decodeCanonical_toBytes hfits]
  exact fromCanonicalValue_canonical hv

end WireEvent

/-! ### What validation guarantees -/

namespace SignedEvent

/-- A decoded event has the content of its type. -/
theorem typed_of_parse {ty : EventType} {value : CborValue} {content : Content}
    (h : Content.parse ty value = .ok content) : content.eventType = ty := by
  cases ty <;> obtain ⟨c, -, rfl⟩ := map_eq_ok_iff.mp h <;> rfl

/-- The device whose signature is checked is the one that the event names. -/
theorem readDeviceId_eq {value : CborValue} (hvalue : Ordered value) {e : SignedEvent}
    (h : fromCanonicalValue value = .ok e) : readDeviceId value = .ok e.deviceId := by
  obtain ⟨entries, contentVal, rfl, hperm, -, -⟩ := fromCanonicalValue_eq_ok h
  have hmem : ("device_id", keyValue e.deviceId) ∈ entries := by
    refine hperm.mem_iff.mpr (List.mem_append_left _ ?_)
    simp [header, keyEntry]
  have hlookup := (lookup_eq_some_of_once (keysOnce_iff.mp (keysOnce_of_ordered hvalue))).mpr hmem
  show (okOr (entries.lookup "device_id") .nonCanonicalEncoding >>= fixed32 .nonCanonicalEncoding) = _
  rw [hlookup]
  show fixed32 .nonCanonicalEncoding (keyValue e.deviceId) = .ok e.deviceId
  rw [fixed32_eq_ok]

end SignedEvent

section

variable {env : Env}

theorem openSigned_eq_ok {wire : WireEvent} {e : SignedEvent} :
    openSigned env wire = .ok e ↔ SignedEvent.decode wire.signed = .ok e ∧
      env.verify e.deviceId.bits (eventSigningMessage wire.signed) wire.sig = true := by
  unfold openSigned SignedEvent.decode
  cases hvalue : decodeCanonical wire.signed with
  | error reason => simp
  | ok value =>
    obtain ⟨hencodable, hsame⟩ := decodeCanonical_eq_ok.mp hvalue
    dsimp only
    rw [if_neg (not_not.mpr hsame), bind_eq_ok_iff]
    constructor
    · intro ⟨deviceId, hdevice, h⟩
      split_ifs at h with hverify
      rw [SignedEvent.readDeviceId_eq hencodable.ordered h] at hdevice
      cases hdevice
      exact ⟨h, hverify⟩
    · intro ⟨h, hverify⟩
      refine ⟨e.deviceId, SignedEvent.readDeviceId_eq hencodable.ordered h, ?_⟩
      rw [if_pos hverify]
      exact h

variable {ctx : ValidationContext} {bytes : Bytes} {v : ReceivedEvent env ctx.expectedRoom}

theorem validateWireBytes_eq_ok : validateWireBytes env ctx bytes = .ok v ↔
    WireEvent.decode bytes = .ok v.wire ∧ v.wire.id = (eventIdFromBytes env v.wire.signed).toNamedString ∧
      ∃ event, openSigned env v.wire = .ok event ∧
        validate env ctx (eventIdFromBytes env v.wire.signed) event = .ok v.toValidatedEvent := by
  unfold validateWireBytes
  rw [bind_eq_ok_iff]
  constructor
  · intro ⟨wire, hwire, h⟩
    dsimp only at h
    split_ifs at h with hid
    obtain ⟨event, hevent, h⟩ := bind_eq_ok_iff.mp h
    obtain ⟨validated, hvalidated, h⟩ := bind_eq_ok_iff.mp h
    cases h
    exact ⟨hwire, (not_not.mp hid).symm, event, hevent, hvalidated⟩
  · intro ⟨hwire, hid, event, hevent, hvalidated⟩
    refine ⟨v.wire, hwire, ?_⟩
    dsimp only
    rw [if_neg (not_not.mpr hid.symm), hevent]
    show (validate env ctx _ event >>= _) = _
    rw [hvalidated]
    rfl

/-- What validation accepts is the event that the received bytes hold, verbatim: the envelope is written back to these
bytes, its advisory id is the hash of the signed bytes, the event is decoded from them and signed by the device it names,
in the expected room and for a genesis in the room it derives. Validating the bytes again gives the same. -/
theorem validateWireBytes_sound (h : validateWireBytes env ctx bytes = .ok v) :
    v.wire.toBytes = bytes ∧
    v.eventId = ⟨env.blake3 v.wire.signed⟩ ∧ v.wire.id = v.eventId.toNamedString ∧ v.wire.advisoryId = some v.eventId ∧
    env.verify v.event.deviceId.bits (eventSigningMessage v.wire.signed) v.wire.sig = true ∧
    SignedEvent.decode v.wire.signed = .ok v.event ∧ v.event.roomId = ctx.expectedRoom ∧
    (∀ c, v.event.content = .roomCreated c →
      v.event.roomId = env.deriveRoomId v.event.senderId c.roomNonce v.event.createdAt) ∧
    validateWireBytes env ctx v.wire.toBytes = .ok v := by
  obtain ⟨hwire, hid, event, hevent, hvalidated⟩ := validateWireBytes_eq_ok.mp h
  obtain ⟨hdecode, hverify⟩ := openSigned_eq_ok.mp hevent
  obtain ⟨heventId, hsame⟩ := validate_ok hvalidated
  have hbytes := WireEvent.toBytes_of_decode hwire
  rw [← hsame] at hdecode hverify
  rw [← heventId] at hid
  have hadvisory : v.wire.advisoryId = some v.eventId := by
    rw [WireEvent.advisoryId, hid, Bytes32.fromStr_toNamedString]
    rfl
  refine ⟨hbytes, heventId, hid, hadvisory, hverify, hdecode, v.roomId_eq, fun c hc => ?_, by rw [hbytes]; exact h⟩
  have hroom := (checkDecoded_ok v.checked).2.1
  simp only [checkRoom, hc] at hroom
  split_ifs at hroom with hne
  exact (not_not.mp (not_or.mp hne).1).symm

/-- After decoding, the checks on the event alone decide. -/
theorem validate_of_decode {signed : Bytes} {e : SignedEvent} (hdecode : SignedEvent.decode signed = .ok e)
    (hchecked : checkDecoded env ctx.expectedRoom e = .ok ()) (eventId : EventId) :
    ∃ validated, validate env ctx eventId e = .ok validated := by
  unfold SignedEvent.decode at hdecode
  split at hdecode
  · cases hdecode
  obtain ⟨entries, contentVal, -, -, hparse, hschema⟩ := SignedEvent.fromCanonicalValue_eq_ok hdecode
  unfold validate
  rw [dif_pos hschema, dif_pos (SignedEvent.typed_of_parse hparse)]
  split
  · rename_i reason herror
    rw [hchecked] at herror
    cases herror
  · exact ⟨_, rfl⟩

/-- What an author signs and seals passes validation if the event passes the checks for the room. -/
theorem validateWireBytes_sealSigned {signed : Bytes} {e : SignedEvent} {deviceSecret : SigningKey}
    (hdecode : SignedEvent.decode signed = .ok e) (hdevice : e.deviceId = env.deviceKey deviceSecret)
    (hchecked : checkDecoded env ctx.expectedRoom e = .ok ())
    (hfits : (WireEvent.sealSigned env signed (signCsb env signed deviceSecret)).toBytes.length ≤ usizeMax) :
    ∃ v, validateWireBytes env ctx (WireEvent.sealSigned env signed (signCsb env signed deviceSecret)).toBytes = .ok v ∧
      v.event = e := by
  obtain ⟨validated, hvalidated⟩ : ∃ validated, validate env ctx (eventIdFromBytes env signed) e = .ok validated :=
    validate_of_decode hdecode hchecked _
  have hverify : env.verify e.deviceId.bits (eventSigningMessage signed) (signCsb env signed deviceSecret) = true := by
    rw [hdevice]
    exact env.verify_sign deviceSecret _
  refine ⟨⟨validated, WireEvent.sealSigned env signed (signCsb env signed deviceSecret)⟩, ?_, (validate_ok hvalidated).2⟩
  exact validateWireBytes_eq_ok.mpr ⟨WireEvent.decode_toBytes rfl hfits, rfl, e, openSigned_eq_ok.mpr ⟨hdecode, hverify⟩,
    hvalidated⟩

end

namespace Toy

/-- The signed value of the worked room's genesis. -/
def genesisValue : CborValue :=
  .map [("content", .map [("admins", keyArray [identity 1]), textEntry "room_name" "room",
      bytesEntry (n := 16) "room_nonce" 0, ("device_binding", .map [("sig", bytesValue (n := 64) (binding 1).sig),
        keyEntry "device_key" (device 1), keyEntry "identity_key" (identity 1)])]),
    keyEntry "room_id" room, keyEntry "device_id" (device 1), keyEntry "sender_id" (identity 1),
    uintEntry "created_at" 100, textEntry "event_type" "room.created", ("prev_events", .array []),
    uintEntry "schema_version" 1]

theorem ordered_genesisValue : Ordered genesisValue := by
  have hkeys := SignedEvent.Toy.keys_ascend.1
  have hcontent : (["admins", "room_name", "room_nonce", "device_binding"].map encodedKey).Pairwise (· < ·) := by
    decide
  have hbinding : (["sig", "device_key", "identity_key"].map encodedKey).Pairwise (· < ·) := by decide
  exact ⟨hkeys, ⟨hcontent, ⟨trivial, trivial⟩, trivial, trivial, ⟨hbinding, trivial, trivial, trivial, trivial⟩, trivial⟩,
    trivial, trivial, trivial, trivial, trivial, trivial, trivial, trivial⟩

theorem decode_genesis : SignedEvent.decode (encode genesisValue) = .ok genesis := by
  have hvalue : decodeCanonical (encode genesisValue) = .ok genesisValue :=
    decodeCanonical_eq_ok.mpr ⟨⟨by decide +kernel, ordered_genesisValue, by decide +kernel⟩, rfl⟩
  rw [SignedEvent.decode, hvalue]
  decide +kernel

/-- The genesis as its creator seals it. -/
def genesisWire : WireEvent :=
  WireEvent.sealSigned toyEnv (encode genesisValue) (signCsb toyEnv (encode genesisValue) (devSeed 1))

theorem validate_genesisWire : ∃ v, validateWireBytes toyEnv ⟨room, none⟩ genesisWire.toBytes = .ok v ∧ v.event = genesis :=
  validateWireBytes_sealSigned decode_genesis rfl (by decide +kernel) (by decide +kernel)

end Toy

theorem validateWireBytes_genesis : ∃ v, validateWireBytes toyEnv ⟨Toy.room, none⟩ Toy.genesisWire.toBytes = .ok v ∧
    v.event = Toy.genesis ∧ v.wire.toBytes = Toy.genesisWire.toBytes ∧
    validateWireBytes toyEnv ⟨Toy.room, none⟩ v.wire.toBytes = .ok v := by
  obtain ⟨v, hv, hevent⟩ := Toy.validate_genesisWire
  obtain ⟨hbytes, -, -, -, -, -, -, -, hagain⟩ := validateWireBytes_sound hv
  exact ⟨v, hv, hevent, hbytes, hagain⟩

end IrohRooms
