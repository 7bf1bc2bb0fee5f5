import IrohRooms.Event.Delimited
import IrohRooms.Event.Encrypted
import IrohRooms.Event.Readback

/-!
# Sealing content

The write path of encrypted content: the associated data, which is a CBOR array of the cleartext fields of the envelope,
and the envelope around a sealed body. AES-256-GCM is a parameter. `Ideal` is what an ideal cipher promises about the
seals that are made: a ciphertext opens under no key, nonce and associated data but those it was sealed under.
-/

namespace IrohRooms

open Cbor

/-- The cipher, with the length of what it seals. -/
structure Aes256Gcm where
  encrypt : RoomKey → BitVec 96 → Bytes → Bytes → Option Bytes
  decrypt : RoomKey → BitVec 96 → Bytes → Bytes → Option Bytes
  decrypt_encrypt : ∀ {key nonce msg aad ciphertext}, encrypt key nonce msg aad = some ciphertext →
    decrypt key nonce ciphertext aad = some msg
  length_encrypt : ∀ {key nonce msg aad ciphertext}, encrypt key nonce msg aad = some ciphertext →
    ciphertext.length = msg.length + encryptedTagLen

/-- An ideal cipher, as far as the seals that are made go: a ciphertext of one of them opens only as a seal that was
made, and no two of them have the same ciphertext. -/
structure Aes256Gcm.Ideal (gcm : Aes256Gcm) (made : RoomKey → BitVec 96 → Bytes → Bytes → Prop) : Prop where
  authentic : ∀ {key nonce msg aad ciphertext key' nonce' msg' aad'}, made key nonce msg aad →
    gcm.encrypt key nonce msg aad = some ciphertext → gcm.decrypt key' nonce' ciphertext aad' = some msg' →
    made key' nonce' msg' aad' ∧ gcm.encrypt key' nonce' msg' aad' = some ciphertext
  distinct : ∀ {key nonce msg aad ciphertext key' nonce' msg' aad'}, made key nonce msg aad →
    made key' nonce' msg' aad' → gcm.encrypt key nonce msg aad = some ciphertext →
    gcm.encrypt key' nonce' msg' aad' = some ciphertext →
    key = key' ∧ nonce = nonce' ∧ msg = msg' ∧ aad = aad'

/-- Open a sealed body; a foreign suite is refused before any cryptography. -/
def openContent (gcm : Aes256Gcm) (suite : UInt8) (roomKey : RoomKey) (nonce : BitVec 96) (ciphertext aad : Bytes) :
    Except CryptoError Bytes :=
  if suite.toNat ≠ encryptedSuiteV1 then .error (.unsupportedSuite suite)
  else match gcm.decrypt roomKey nonce ciphertext aad with
    | some plaintext => .ok plaintext
    | none => .error .authentication

def encryptedAadContext : Bytes := contextBytes "iroh-rooms:content-aad:v1"

/-- The associated data of an envelope. -/
def encryptedContentAad (schemaVersion : Nat) (roomId : RoomId) (senderId : IdentityKey) (deviceId : DeviceKey)
    (createdAt : Nat) (prevEvents : List EventId) (innerType : EventType) (keyEpoch : Nat) (suite : UInt8) : Bytes :=
  encryptedAadContext ++ encode (.array [uintValue schemaVersion, keyValue roomId, keyValue senderId, keyValue deviceId,
    .text EventType.contentEncrypted.asStr, uintValue createdAt, .array (prevEvents.map keyValue),
    .text innerType.asStr, uintValue keyEpoch, uintValue suite.toNat])

/-- The associated data of an event, all read from it; of no use unless it is an envelope. -/
def aadFor (event : SignedEvent) : Bytes :=
  match event.content with
  | .encrypted c => encryptedContentAad event.schemaVersion event.roomId event.senderId event.deviceId event.createdAt
      event.prevEvents c.innerType c.keyEpoch c.suite
  | _ => []

/-- The strict parse of an opened body. -/
def parseBody (innerType : EventType) (plaintext : Bytes) : Except UnreadableReason Content :=
  match decodeCanonical plaintext with
  | .error _ => .error .malformedPlaintext
  | .ok value =>
    match Content.parse innerType value with
    | .error _ => .error .innerInvalid
    | .ok inner => .ok inner

theorem parseBody_eq_ok {innerType : EventType} {plaintext : Bytes} {inner : Content} :
    parseBody innerType plaintext = .ok inner ↔
      ∃ value, decodeCanonical plaintext = .ok value ∧ Content.parse innerType value = .ok inner := by
  unfold parseBody
  cases hvalue : decodeCanonical plaintext with
  | error _ => simp
  | ok value => cases hparse : Content.parse innerType value <;> simp [hparse]

/-- The primitives with the codec of this build. -/
def Aes256Gcm.sealing (gcm : Aes256Gcm) (unwrapRoomKey : WrappedKeyEntry → BitVec 256 → RoomId → Nat → Option RoomKey)
    (roomKeyCommitment : RoomKey → RoomId → Nat → BitVec 256) : Sealing where
  openContent := openContent gcm
  unwrapRoomKey := unwrapRoomKey
  roomKeyCommitment := roomKeyCommitment
  aadFor := aadFor
  parseBody := parseBody
  parseBody_type h := by
    obtain ⟨value, -, hparse⟩ := parseBody_eq_ok.mp h
    exact SignedEvent.typed_of_parse hparse

/-- Why a body was not sealed. -/
inductive SealError
  | notEncryptable (innerType : EventType) | plaintextTooLarge (len cap : Nat) | sealFailure
  deriving DecidableEq, Repr

section Build

variable (env : Env) (gcm : Aes256Gcm) (identitySecret deviceSecret : SigningKey) (roomId : RoomId) (inner : Content)
  (keyEpoch : Nat) (roomKey : RoomKey) (nonce : BitVec 96) (prevEvents : List EventId) (createdAt : Nat)

/-- The associated data of an envelope that is being built. -/
def buildAad : Bytes :=
  encryptedContentAad schemaVersion roomId (env.identityKey identitySecret) (env.deviceKey deviceSecret) createdAt
    prevEvents inner.eventType keyEpoch (UInt8.ofNat encryptedSuiteV1)

/-- The event around a ciphertext. -/
def sealedEvent (ciphertext : Bytes) : SignedEvent :=
  ⟨schemaVersion, roomId, env.identityKey identitySecret, env.deviceKey deviceSecret, .contentEncrypted, createdAt,
    prevEvents, .encrypted ⟨inner.eventType, keyEpoch, UInt8.ofNat encryptedSuiteV1, nonce, ciphertext⟩⟩

/-- Seal a body and sign the envelope around it. -/
def buildContentEncrypted : Except SealError WireEvent :=
  match inner.eventType.maxEncryptedPlaintextBytes with
  | none => .error (.notEncryptable inner.eventType)
  | some cap =>
    let plaintext := encode inner.toCbor
    if plaintext.length > cap then .error (.plaintextTooLarge plaintext.length cap)
    else
      let aad := buildAad env identitySecret deviceSecret roomId inner keyEpoch prevEvents createdAt
      match gcm.encrypt roomKey nonce plaintext aad with
      | none => .error .sealFailure
      | some ciphertext =>
        let csb := (sealedEvent env identitySecret deviceSecret roomId inner keyEpoch nonce prevEvents createdAt
          ciphertext).toCsb
        .ok (WireEvent.sealSigned env csb (signCsb env csb deviceSecret))

end Build

/-! ### The associated data tells the envelope -/

theorem keyValue_binds {kind : Kind} : Binds (keyValue : Bytes32 kind → CborValue) := by
  intro x y _ h
  have hx : (fixed32 .invalidContent (keyValue x) : Except RejectReason (Bytes32 kind)) = .ok x := fixed32_eq_ok.mpr rfl
  have hy : (fixed32 .invalidContent (keyValue x) : Except RejectReason (Bytes32 kind)) = .ok y :=
    fixed32_eq_ok.mpr (congrArg CborValue.bytes (encode_bytes_inj h))
  exact Except.ok.inj (hx.symm.trans hy)

theorem uintValue_inj {n n' : Nat} (hn : n < 2 ^ 64) (hn' : n' < 2 ^ 64)
    (h : encode (uintValue n) = encode (uintValue n')) : n = n' := by
  have hsame : UInt64.ofNat n = UInt64.ofNat n' := encode_uint_inj h
  rw [← UInt64.toNat_ofNat_of_lt' hn, ← UInt64.toNat_ofNat_of_lt' hn', hsame]

theorem asStr_injective : Function.Injective EventType.asStr := by
  intro a b h
  have hback := SignedEvent.fromRegistry_asStr a
  rw [h, SignedEvent.fromRegistry_asStr] at hback
  exact (Option.some.inj hback).symm

theorem encryptedContentAad_inj {version version' : Nat} {roomId roomId' : RoomId} {senderId senderId' : IdentityKey}
    {deviceId deviceId' : DeviceKey} {createdAt createdAt' : Nat} {prevEvents prevEvents' : List EventId}
    {innerType innerType' : EventType} {keyEpoch keyEpoch' : Nat} {suite suite' : UInt8}
    (hversion : version < 2 ^ 64 ∧ version' < 2 ^ 64) (hcreated : createdAt < 2 ^ 64 ∧ createdAt' < 2 ^ 64)
    (hepoch : keyEpoch < 2 ^ 64 ∧ keyEpoch' < 2 ^ 64)
    (hfits : (encryptedContentAad version roomId senderId deviceId createdAt prevEvents innerType keyEpoch suite).length
      ≤ usizeMax)
    (h : encryptedContentAad version roomId senderId deviceId createdAt prevEvents innerType keyEpoch suite =
      encryptedContentAad version' roomId' senderId' deviceId' createdAt' prevEvents' innerType' keyEpoch' suite') :
    version = version' ∧ roomId = roomId' ∧ senderId = senderId' ∧ deviceId = deviceId' ∧ createdAt = createdAt' ∧
      prevEvents = prevEvents' ∧ innerType = innerType' ∧ keyEpoch = keyEpoch' ∧ suite = suite' := by
  unfold encryptedContentAad at hfits h
  rw [List.append_cancel_left_eq] at h
  rw [List.length_append] at hfits
  have harray := le_trans (Nat.le_add_left _ _) hfits
  have hfit := (fits_items harray).2
  have hitems := encode_array_inj harray h
  simp only [List.forall₂_cons, List.forall₂_nil_right_iff, and_true] at hitems
  obtain ⟨hv, hroom, hsender, hdevice, -, hcreated', hprev, hinner, hkey, hsuite⟩ := hitems
  simp only [List.forall_mem_cons] at hfit
  obtain ⟨-, froom, fsender, fdevice, -, -, fprev, finner, -⟩ := hfit
  have hsmall : ∀ s : UInt8, s.toNat < 2 ^ 64 := fun s => s.toNat_lt.trans (by decide)
  refine ⟨uintValue_inj hversion.1 hversion.2 hv, keyValue_binds _ _ froom hroom, keyValue_binds _ _ fsender hsender,
    keyValue_binds _ _ fdevice hdevice, uintValue_inj hcreated.1 hcreated.2 hcreated',
    keyValue_binds.array _ _ fprev hprev, asStr_injective (Binds.text _ _ finner hinner),
    uintValue_inj hepoch.1 hepoch.2 hkey, ?_⟩
  exact UInt8.toNat_inj.mp (uintValue_inj (hsmall suite) (hsmall suite') hsuite)

/-- The numbers of an event are 64-bit. -/
structure SignedEvent.InRange (e : SignedEvent) : Prop where
  schemaVersion : e.schemaVersion < 2 ^ 64
  createdAt : e.createdAt < 2 ^ 64
  content : e.content.InRange

/-- What the associated data of an envelope covers. -/
def covered (event : SignedEvent) (c : EncryptedContent) :
    Nat × RoomId × IdentityKey × DeviceKey × Nat × List EventId × EventType × Nat × UInt8 :=
  (event.schemaVersion, event.roomId, event.senderId, event.deviceId, event.createdAt, event.prevEvents, c.innerType,
    c.keyEpoch, c.suite)

theorem SignedEvent.InRange.keyEpoch {event : SignedEvent} {c : EncryptedContent} (h : event.InRange)
    (hcontent : event.content = .encrypted c) : c.keyEpoch < 2 ^ 64 := by
  have hinRange := h.content
  rw [hcontent] at hinRange
  exact hinRange

/-- Envelopes with one associated data agree on all it covers. -/
theorem aadFor_inj {e₁ e₂ : SignedEvent} {c₁ c₂ : EncryptedContent} (hrange₁ : e₁.InRange) (hrange₂ : e₂.InRange)
    (h₁ : e₁.content = .encrypted c₁) (h₂ : e₂.content = .encrypted c₂) (hfits : (aadFor e₁).length ≤ usizeMax)
    (h : aadFor e₁ = aadFor e₂) : covered e₁ c₁ = covered e₂ c₂ := by
  unfold aadFor at h hfits
  rw [h₁] at h hfits
  rw [h₂] at h
  obtain ⟨hversion, hroom, hsender, hdevice, hcreated, hprev, hinner, hkeyEpoch, hsuite⟩ :=
    encryptedContentAad_inj ⟨hrange₁.schemaVersion, hrange₂.schemaVersion⟩ ⟨hrange₁.createdAt, hrange₂.createdAt⟩
      ⟨hrange₁.keyEpoch h₁, hrange₂.keyEpoch h₂⟩ hfits h
  simp only [covered, hversion, hroom, hsender, hdevice, hcreated, hprev, hinner, hkeyEpoch, hsuite]

/-- A body with a cap on its size fits. -/
theorem cap_le_usizeMax {innerType : EventType} {cap : Nat} (h : innerType.maxEncryptedPlaintextBytes = some cap) :
    cap ≤ usizeMax := by
  cases innerType <;> cases h <;> decide

/-! ### Any envelope -/

section Envelope

variable {env : Env} {gcm : Aes256Gcm} {unwrap : WrappedKeyEntry → BitVec 256 → RoomId → Nat → Option RoomKey}
  {commitment : RoomKey → RoomId → Nat → BitVec 256} {event : SignedEvent} {c : EncryptedContent} {inner : Content}
  {roomKey : RoomKey}

/-- An envelope within the bounds of its inner type is decoded from its signed bytes. -/
theorem decode_envelope {cap : Nat} (hcontent : event.content = .encrypted c)
    (htype : event.eventType = .contentEncrypted)
    (hschema : event.schemaVersion = schemaVersion) (hrange : event.InRange)
    (hcap : c.innerType.maxEncryptedPlaintextBytes = some cap) (hsuite : c.suite.toNat = encryptedSuiteV1)
    (hlen : encryptedTagLen ≤ c.ciphertext.length ∧ c.ciphertext.length ≤ cap + encryptedTagLen)
    (hfits : event.toCsb.length ≤ usizeMax) : SignedEvent.decode event.toCsb = .ok event := by
  have hepoch : (Content.encrypted c).InRange := hcontent ▸ hrange.content
  have hread := Fields.parse_encrypted hcap hsuite hepoch hlen
  have hparse : Content.parse event.eventType (normal event.content.toCbor) = .ok event.content := by
    rw [htype, hcontent]
    exact map_eq_ok_iff.mpr ⟨c, hread, rfl⟩
  have hmessage : event.content.isMessage = true := by
    rw [hcontent]
    rfl
  have hmap : ∃ entries, (normal event.content.toCbor).asMap = some entries := by
    rw [hcontent]
    exact ⟨_, rfl⟩
  obtain ⟨entries, hentries⟩ := hmap
  exact SignedEvent.decode_toCsb (Content.within_toCbor hmessage) hentries hschema hrange.createdAt hparse hfits

/-- The checks on an envelope in its room are those of its parents. -/
theorem checkDecoded_envelope (hcontent : event.content = .encrypted c) :
    checkDecoded env event.roomId event = .ok () ↔ event.prevEvents ≠ [] ∧ event.prevEvents.length ≤ maxPrevEvents := by
  have hreduce : checkDecoded env event.roomId event = checkCausal event := by
    unfold checkDecoded checkRoom
    rw [hcontent]
    dsimp only
    rw [if_neg (not_not.mpr rfl)]
    rfl
  rw [hreduce]
  unfold checkCausal
  rw [hcontent]
  dsimp only
  split_ifs with hlong hempty
  · simp [hlong]
  · simp [hempty]
  · simp [hempty, not_lt.mp hlong]

/-- What validation takes from the bytes of an envelope is the event it was written from. -/
theorem event_of_validate (wire : WireEvent) {ctx : ValidationContext} {v : ReceivedEvent env ctx.expectedRoom}
    (hversion : wire.v = wireVersion) (hdecode : SignedEvent.decode wire.signed = .ok event)
    (hfits : wire.toBytes.length ≤ usizeMax) (h : validateWireBytes env ctx wire.toBytes = .ok v) :
    v.event = event := by
  obtain ⟨hwire, -, event', hopened, hvalidated⟩ := validateWireBytes_eq_ok.mp h
  rw [WireEvent.decode_toBytes hversion hfits] at hwire
  obtain ⟨hdecode', -⟩ := openSigned_eq_ok.mp hopened
  rw [← Except.ok.inj hwire, hdecode] at hdecode'
  rw [Except.ok.inj hdecode']
  exact (validate_ok hvalidated).2

theorem validate_envelope {deviceSecret : SigningKey} (hcontent : event.content = .encrypted c)
    (hdecode : SignedEvent.decode event.toCsb = .ok event) (hdevice : event.deviceId = env.deviceKey deviceSecret)
    (hfits : (WireEvent.sealSigned env event.toCsb (signCsb env event.toCsb deviceSecret)).toBytes.length ≤ usizeMax)
    (now : Option Nat) :
    (∃ v, validateWireBytes env ⟨event.roomId, now⟩
      (WireEvent.sealSigned env event.toCsb (signCsb env event.toCsb deviceSecret)).toBytes = .ok v) ↔
    event.prevEvents ≠ [] ∧ event.prevEvents.length ≤ maxPrevEvents := by
  have hcheck : checkDecoded env event.roomId event = .ok () ↔ _ := checkDecoded_envelope hcontent
  rw [← hcheck]
  constructor
  · intro ⟨v, h⟩
    have hchecked := v.checked
    rw [event_of_validate (WireEvent.sealSigned ..) rfl hdecode hfits h] at hchecked
    exact hchecked
  · intro hchecked
    have hvalid : ∃ v, validateWireBytes env ⟨event.roomId, now⟩ (WireEvent.sealSigned ..).toBytes = .ok v ∧ _ :=
      validateWireBytes_sealSigned hdecode hdevice hchecked hfits
    obtain ⟨v, hv, -⟩ := hvalid
    exact ⟨v, hv⟩

/-- The event's own body comes back exactly if it obeys the rules. -/
theorem open_envelope {cap : Nat} (hcontent : event.content = .encrypted c) (hsuite : c.suite.toNat = encryptedSuiteV1)
    (hinner : c.innerType = inner.eventType) (hcap : inner.eventType.maxEncryptedPlaintextBytes = some cap)
    (hplain : (encode inner.toCbor).length ≤ usizeMax) (hrange : inner.InRange)
    (hseal : gcm.encrypt roomKey c.nonce (encode inner.toCbor) (aadFor event) = some c.ciphertext) :
    openEncryptedContent (gcm.sealing unwrap commitment) event roomKey = .ok inner ↔
      inner.BodyRules ∧ checkFieldRules inner event.senderId = .ok () := by
  have hvalue : decodeCanonical (encode inner.toCbor) = .ok (normal inner.toCbor) :=
    decodeCanonical_encode ((Content.within_toCbor (Content.isMessage_of_cap hcap)).mono (by decide)) hplain
  have hopen : openContent gcm c.suite roomKey c.nonce c.ciphertext (aadFor event) = .ok (encode inner.toCbor) := by
    unfold openContent
    rw [if_neg (not_not.mpr hsuite), gcm.decrypt_encrypt hseal]
  rw [openEncryptedContent_eq_ok]
  constructor
  · rintro ⟨c', plaintext, hc', -, hparse, hfields⟩
    obtain rfl : c = c' := Content.encrypted.inj (hcontent.symm.trans hc')
    obtain ⟨value, -, hvalue⟩ := parseBody_eq_ok.mp hparse
    exact ⟨Content.bodyRules_of_parse (hinner ▸ hcap) hvalue, hfields⟩
  · intro ⟨hrules, hfields⟩
    refine ⟨c, _, hcontent, hopen, ?_, hfields⟩
    rw [hinner]
    exact parseBody_eq_ok.mpr ⟨_, hvalue, Content.parse_toCbor hrules hrange⟩

/-- Under an ideal cipher, what opens and carries the ciphertext of a seal is the envelope that was sealed. -/
theorem sealed_of_open {made : RoomKey → BitVec 96 → Bytes → Bytes → Prop} (hideal : gcm.Ideal made)
    (hcontent : event.content = .encrypted c) (htype : event.eventType = .contentEncrypted) (hrange : event.InRange)
    (hfits : (aadFor event).length ≤ usizeMax) (hmade : made roomKey c.nonce (encode inner.toCbor) (aadFor event))
    (hseal : gcm.encrypt roomKey c.nonce (encode inner.toCbor) (aadFor event) = some c.ciphertext)
    {event' : SignedEvent} {c' : EncryptedContent} {roomKey' : RoomKey} {inner' : Content} (hrange' : event'.InRange)
    (htyped' : event'.content.eventType = event'.eventType) (hcontent' : event'.content = .encrypted c')
    (hsame : c'.ciphertext = c.ciphertext)
    (hopen : openEncryptedContent (gcm.sealing unwrap commitment) event' roomKey' = .ok inner') :
    event' = event ∧ roomKey' = roomKey := by
  obtain ⟨c₀, plaintext, hc₀, hopened, -, -⟩ := openEncryptedContent_eq_ok.mp hopen
  obtain rfl : c' = c₀ := Content.encrypted.inj (hcontent'.symm.trans hc₀)
  have hdecrypt : gcm.decrypt roomKey' c'.nonce c.ciphertext (aadFor event') = some plaintext := by
    have hopened : openContent gcm c'.suite roomKey' c'.nonce c'.ciphertext (aadFor event') = .ok plaintext := hopened
    unfold openContent at hopened
    split_ifs at hopened
    rw [hsame] at hopened
    split at hopened
    · rename_i hdecrypt
      rw [hdecrypt, Except.ok.inj hopened]
    · cases hopened
  obtain ⟨hmade', hseal'⟩ := hideal.authentic hmade hseal hdecrypt
  obtain ⟨hkey, hnonce, -, haad⟩ := hideal.distinct hmade hmade' hseal hseal'
  have hcovered := aadFor_inj hrange hrange' hcontent hcontent' hfits haad
  simp only [covered, Prod.mk.injEq] at hcovered
  refine ⟨?_, hkey.symm⟩
  have htype' : event'.eventType = .contentEncrypted := by
    rw [← htyped', hcontent']
    rfl
  obtain ⟨_, _, _, _, _, _, _, _⟩ := event
  obtain ⟨_, _, _, _, _, _, _, _⟩ := event'
  obtain ⟨_, _, _, _, _⟩ := c
  obtain ⟨_, _, _, _, _⟩ := c'
  simp_all

end Envelope

section Built

variable {env : Env} {gcm : Aes256Gcm} {identitySecret deviceSecret : SigningKey} {roomId : RoomId} {inner : Content}
  {keyEpoch : Nat} {roomKey : RoomKey} {nonce : BitVec 96} {prevEvents : List EventId} {createdAt : Nat}
  {wire : WireEvent}

theorem buildContentEncrypted_eq_ok (h : buildContentEncrypted env gcm identitySecret deviceSecret roomId inner keyEpoch
    roomKey nonce prevEvents createdAt = .ok wire) :
    ∃ cap ciphertext event, inner.eventType.maxEncryptedPlaintextBytes = some cap ∧ (encode inner.toCbor).length ≤ cap ∧
      event = sealedEvent env identitySecret deviceSecret roomId inner keyEpoch nonce prevEvents createdAt ciphertext ∧
      gcm.encrypt roomKey nonce (encode inner.toCbor) (aadFor event) = some ciphertext ∧
      wire = WireEvent.sealSigned env event.toCsb (signCsb env event.toCsb deviceSecret) := by
  unfold buildContentEncrypted at h
  split at h
  · cases h
  · rename_i cap hcap
    dsimp only at h
    split_ifs at h with hlen
    split at h
    · cases h
    · rename_i ciphertext hseal
      cases h
      exact ⟨cap, ciphertext, _, hcap, not_lt.mp hlen, rfl, hseal, rfl⟩

/-- What is signed is part of the envelope's bytes. -/
theorem length_signed_le (w : WireEvent) : w.signed.length ≤ w.toBytes.length := by
  have hentry : ("signed", CborValue.bytes w.signed) ∈ w.entries := by simp [WireEvent.entries]
  have hpart := length_encode_entry_le hentry
  have hbytes : w.signed.length ≤ (encode (.bytes w.signed)).length := by
    rw [encode, List.length_append]
    exact Nat.le_add_left _ _
  exact hbytes.trans hpart

/-- The envelope of a body that is accepted for sealing. -/
theorem built_envelope (unwrap : WrappedKeyEntry → BitVec 256 → RoomId → Nat → Option RoomKey)
    (commitment : RoomKey → RoomId → Nat → BitVec 256)
    (hbuild : buildContentEncrypted env gcm identitySecret deviceSecret roomId inner keyEpoch roomKey nonce prevEvents
      createdAt = .ok wire)
    (hrange : inner.InRange ∧ keyEpoch < 2 ^ 64 ∧ createdAt < 2 ^ 64) (hfits : wire.toBytes.length ≤ usizeMax) :
    ∃ event c, SignedEvent.decode wire.signed = .ok event ∧ event.content = .encrypted c ∧
      (∀ now, ((∃ v, validateWireBytes env ⟨roomId, now⟩ wire.toBytes = .ok v) ↔
        prevEvents ≠ [] ∧ prevEvents.length ≤ maxPrevEvents) ∧
        ∀ v, validateWireBytes env ⟨roomId, now⟩ wire.toBytes = .ok v → v.event = event) ∧
      (openEncryptedContent (gcm.sealing unwrap commitment) event roomKey = .ok inner ↔
        inner.BodyRules ∧ checkFieldRules inner (env.identityKey identitySecret) = .ok ()) ∧
      event.eventType = .contentEncrypted ∧ event.InRange ∧ c.nonce = nonce ∧
      aadFor event = buildAad env identitySecret deviceSecret roomId inner keyEpoch prevEvents createdAt ∧
      gcm.encrypt roomKey c.nonce (encode inner.toCbor) (aadFor event) = some c.ciphertext := by
  obtain ⟨hinner, hepoch, hcreated⟩ := hrange
  obtain ⟨cap, ciphertext, event, hcap, hplain, hevent, hseal, rfl⟩ := buildContentEncrypted_eq_ok hbuild
  have hcontent : event.content = .encrypted ⟨inner.eventType, keyEpoch, UInt8.ofNat encryptedSuiteV1, nonce,
      ciphertext⟩ := by rw [hevent]; rfl
  have hroom : event.roomId = roomId := by rw [hevent]; rfl
  have hprev : event.prevEvents = prevEvents := by rw [hevent]; rfl
  have hsender : event.senderId = env.identityKey identitySecret := by rw [hevent]; rfl
  have htype : event.eventType = .contentEncrypted := by rw [hevent]; rfl
  have haad : aadFor event = buildAad env identitySecret deviceSecret roomId inner keyEpoch prevEvents createdAt := by
    rw [hevent]
    rfl
  have hinRange : event.InRange := by
    have hversion : schemaVersion < 2 ^ 64 := by decide
    rw [hevent]
    exact ⟨hversion, hcreated, hepoch⟩
  have hlen := gcm.length_encrypt hseal
  have hdecode : SignedEvent.decode event.toCsb = .ok event := by
    refine decode_envelope hcontent htype (by rw [hevent]; rfl) hinRange hcap rfl ?_ ?_
    · dsimp only
      omega
    · exact (length_signed_le _).trans hfits
  refine ⟨event, _, hdecode, hcontent, fun now => ?_, ?_, htype, hinRange, rfl, haad, hseal⟩
  · rw [← hroom, ← hprev]
    refine ⟨validate_envelope hcontent hdecode (by rw [hevent]; rfl) hfits now, fun v hv => ?_⟩
    exact event_of_validate (WireEvent.sealSigned ..) rfl hdecode hfits hv
  · rw [← hsender]
    exact open_envelope hcontent rfl rfl hcap (hplain.trans (cap_le_usizeMax hcap)) hinner hseal

/-- A body that is accepted for sealing comes in an envelope that validates exactly if it has parents and not too many,
and opens to that body exactly if the body obeys the rules of its type and its sender. The associated data tells all
fields it covers apart. Under an ideal cipher an event that carries the ciphertext and differs from the envelope in
anything, or is opened with another key, does not open. -/
theorem sealed_content_binds {made : RoomKey → BitVec 96 → Bytes → Bytes → Prop} (hideal : gcm.Ideal made)
    (unwrap : WrappedKeyEntry → BitVec 256 → RoomId → Nat → Option RoomKey)
    (commitment : RoomKey → RoomId → Nat → BitVec 256)
    (hbuild : buildContentEncrypted env gcm identitySecret deviceSecret roomId inner keyEpoch roomKey nonce prevEvents
      createdAt = .ok wire)
    (hmade : made roomKey nonce (encode inner.toCbor)
      (buildAad env identitySecret deviceSecret roomId inner keyEpoch prevEvents createdAt))
    (hrange : inner.InRange ∧ keyEpoch < 2 ^ 64 ∧ createdAt < 2 ^ 64)
    (hfits : wire.toBytes.length ≤ usizeMax ∧
      (buildAad env identitySecret deviceSecret roomId inner keyEpoch prevEvents createdAt).length ≤ usizeMax) :
    ∃ event c, SignedEvent.decode wire.signed = .ok event ∧ event.content = .encrypted c ∧
      (∀ now, ((∃ v, validateWireBytes env ⟨roomId, now⟩ wire.toBytes = .ok v) ↔
        prevEvents ≠ [] ∧ prevEvents.length ≤ maxPrevEvents) ∧
        ∀ v, validateWireBytes env ⟨roomId, now⟩ wire.toBytes = .ok v → v.event = event) ∧
      (openEncryptedContent (gcm.sealing unwrap commitment) event roomKey = .ok inner ↔
        inner.BodyRules ∧ checkFieldRules inner (env.identityKey identitySecret) = .ok ()) ∧
      (∀ e₁ e₂ c₁ c₂, e₁.InRange → e₂.InRange → e₁.content = .encrypted c₁ → e₂.content = .encrypted c₂ →
        (aadFor e₁).length ≤ usizeMax → aadFor e₁ = aadFor e₂ → covered e₁ c₁ = covered e₂ c₂) ∧
      ∀ event' c' roomKey' inner', event'.InRange → event'.content.eventType = event'.eventType →
        event'.content = .encrypted c' → c'.ciphertext = c.ciphertext →
        openEncryptedContent (gcm.sealing unwrap commitment) event' roomKey' = .ok inner' →
          event' = event ∧ roomKey' = roomKey := by
  obtain ⟨event, c, hdecode, hcontent, hvalid, hopens, htype, hinRange, hnonce, haad, hseal⟩ :=
    built_envelope unwrap commitment hbuild hrange hfits.1
  refine ⟨event, c, hdecode, hcontent, hvalid, hopens, ?_, ?_⟩
  · intro e₁ e₂ c₁ c₂ hrange₁ hrange₂ h₁ h₂ hsmall hsame
    exact aadFor_inj hrange₁ hrange₂ h₁ h₂ hsmall hsame
  · intro event' c' roomKey' inner' hrange' htyped' hcontent' hsame hopen
    refine sealed_of_open hideal hcontent htype hinRange ?_ ?_ hseal hrange' htyped' hcontent' hsame hopen
    · rw [haad]
      exact hfits.2
    · rw [haad, hnonce]
      exact hmade

end Built

namespace Toy

/-- A cipher that hides nothing and tells one seal from all others by its tag. -/
def tagging (key : RoomKey) (nonce : BitVec 96) (msg aad : Bytes) : Aes256Gcm :=
  let tag (key' : RoomKey) (nonce' : BitVec 96) (msg' aad' : Bytes) : Bytes :=
    List.replicate encryptedTagLen (if key' = key ∧ nonce' = nonce ∧ msg' = msg ∧ aad' = aad then 1 else 0)
  { encrypt := fun key' nonce' msg' aad' => some (msg' ++ tag key' nonce' msg' aad')
    decrypt := fun key' nonce' ciphertext aad' =>
      let msg' := ciphertext.take (ciphertext.length - encryptedTagLen)
      if ciphertext = msg' ++ tag key' nonce' msg' aad' then some msg' else none
    decrypt_encrypt := by
      intro key' nonce' msg' aad' ciphertext h
      cases h
      simp [tag]
    length_encrypt := by
      intro key' nonce' msg' aad' ciphertext h
      cases h
      simp [tag] }

theorem tagging_ideal (key : RoomKey) (nonce : BitVec 96) (msg aad : Bytes) :
    (tagging key nonce msg aad).Ideal fun key' nonce' msg' aad' =>
      key' = key ∧ nonce' = nonce ∧ msg' = msg ∧ aad' = aad where
  authentic := by
    intro key₀ nonce₀ msg₀ aad₀ ciphertext key' nonce' msg' aad' hmade hseal hopen
    obtain ⟨rfl, rfl, rfl, rfl⟩ := hmade
    simp only [tagging, true_and, if_true, Option.some.injEq] at hseal hopen
    subst hseal
    simp only [List.length_append, List.length_replicate, Nat.add_sub_cancel, List.take_left,
      List.append_cancel_left_eq, true_and] at hopen
    have hones : List.replicate encryptedTagLen (1 : UInt8) ≠ List.replicate encryptedTagLen 0 := by decide
    by_cases hsame : key' = key₀ ∧ nonce' = nonce₀ ∧ aad' = aad₀
    · obtain ⟨rfl, rfl, rfl⟩ := hsame
      simp only [true_and, if_true, Option.some.injEq] at hopen
      subst hopen
      simp [tagging]
    · rw [if_neg hsame, if_neg hones] at hopen
      cases hopen
  distinct := by
    rintro _ _ _ _ _ _ _ _ _ ⟨rfl, rfl, rfl, rfl⟩ ⟨rfl, rfl, rfl, rfl⟩ _ _
    exact ⟨rfl, rfl, rfl, rfl⟩

def note (format : Option String) : Content := .messageText ⟨"hello", format, none, none⟩

/-- Participant `1` seals a body under key `7`, nonce `3` and epoch `1`. -/
def noteAad (inner : Content) (prevEvents : List EventId) : Bytes :=
  buildAad toyEnv (idSeed 1) (devSeed 1) room inner 1 prevEvents 105

def noteGcm (inner : Content) (prevEvents : List EventId) : Aes256Gcm :=
  tagging 7 3 (encode inner.toCbor) (noteAad inner prevEvents)

def buildNote (inner : Content) (prevEvents : List EventId) : Except SealError WireEvent :=
  buildContentEncrypted toyEnv (noteGcm inner prevEvents) (idSeed 1) (devSeed 1) room inner 1 7 3 prevEvents 105

theorem buildNote_eq (inner : Content) (prevEvents : List EventId) {cap : Nat}
    (hcap : inner.eventType.maxEncryptedPlaintextBytes = some cap) (hlen : (encode inner.toCbor).length ≤ cap) :
    ∃ wire, buildNote inner prevEvents = .ok wire := by
  unfold buildNote buildContentEncrypted
  rw [hcap]
  dsimp only
  rw [if_neg (not_lt.mpr hlen)]
  exact ⟨_, rfl⟩

theorem fits_note {built : Except SealError WireEvent} {wire : WireEvent} (h : built = .ok wire)
    (hsmall : (built.toOption.all fun w => decide (w.toBytes.length ≤ 1000)) = true) :
    wire.toBytes.length ≤ usizeMax := by
  rw [h] at hsmall
  exact (of_decide_eq_true hsmall).trans (by decide)

end Toy

theorem sealed_content_binds_note : ∃ wire event, Toy.buildNote (Toy.note none) [Bytes32.ofNat 5] = .ok wire ∧
    SignedEvent.decode wire.signed = .ok event ∧
    (∃ v, validateWireBytes toyEnv ⟨Toy.room, none⟩ wire.toBytes = .ok v ∧ v.event = event) ∧
    openEncryptedContent ((Toy.noteGcm (Toy.note none) [Bytes32.ofNat 5]).sealing (fun _ _ _ _ => none) fun _ _ _ => 0)
      event 7 = .ok (Toy.note none) := by
  obtain ⟨wire, hbuild⟩ := Toy.buildNote_eq (Toy.note none) [Bytes32.ofNat 5] rfl (by decide)
  have haad : (Toy.noteAad (Toy.note none) [Bytes32.ofNat 5]).length ≤ usizeMax := by decide +kernel
  obtain ⟨event, c, hdecode, -, hvalid, hopen, -, -⟩ := sealed_content_binds
    (Toy.tagging_ideal _ _ _ _) (fun _ _ _ _ => none) (fun _ _ _ => 0) hbuild ⟨rfl, rfl, rfl, rfl⟩
    ⟨trivial, by decide, by decide⟩ ⟨Toy.fits_note hbuild (by decide +kernel), haad⟩
  obtain ⟨v, hv⟩ := (hvalid none).1.mpr (by decide)
  refine ⟨wire, event, hbuild, hdecode, ⟨v, hv, (hvalid none).2 v hv⟩, hopen.mpr ⟨?_, rfl⟩⟩
  exact ⟨by decide, by rintro _ ⟨⟩⟩

/-- A body with a format that no reader knows, sealed in an envelope without parents, is accepted: the envelope does not
validate, and the body does not come back. -/
theorem sealed_unchecked : ∃ wire event, Toy.buildNote (Toy.note (some "html")) [] = .ok wire ∧
    SignedEvent.decode wire.signed = .ok event ∧
    (∀ now, ¬ ∃ v, validateWireBytes toyEnv ⟨Toy.room, now⟩ wire.toBytes = .ok v) ∧
    ∀ unwrap commitment, openEncryptedContent ((Toy.noteGcm (Toy.note (some "html")) []).sealing unwrap commitment)
      event 7 ≠ .ok (Toy.note (some "html")) := by
  obtain ⟨wire, hbuild⟩ := Toy.buildNote_eq (Toy.note (some "html")) [] rfl (by decide)
  have hfits := Toy.fits_note hbuild (by decide +kernel)
  have hbuilt := fun unwrap commitment =>
    built_envelope unwrap commitment hbuild ⟨trivial, by decide, by decide⟩ hfits
  obtain ⟨event, -, hdecode, -, hvalid, -⟩ := hbuilt (fun _ _ _ _ => none) fun _ _ _ => 0
  refine ⟨wire, event, hbuild, hdecode, fun now h => ((hvalid now).1.mp h).1 rfl, fun unwrap commitment hopen => ?_⟩
  obtain ⟨event', -, hdecode', -, -, hopens, -⟩ := hbuilt unwrap commitment
  obtain rfl : event = event' := Except.ok.inj (hdecode.symm.trans hdecode')
  exact absurd ((hopens.mp hopen).1.2 _ rfl) (by decide)

end IrohRooms
