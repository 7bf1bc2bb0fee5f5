import IrohRooms.Lib.Base32
import IrohRooms.Event.Readback

/-!
# Invite tickets

The text form of an invite: a prefix, then in base32 a version byte, the canonical CBOR body and a checksum of both. The
layers are taken off one by one. Case is folded before base32 is decoded, so a ticket whose letters were re-cased on the
way still parses. The base32 codec is a parameter.
-/

namespace IrohRooms

open Cbor

/-- The strict base32 codec without padding. -/
structure Base32Nopad where
  encode : Bytes → String
  decode : Bytes → Option Bytes
  decode_encode : ∀ bytes, decode (asBytes (encode bytes)) = some bytes
  alphabet : ∀ bytes, ∀ c ∈ (encode bytes).toList, ('A' ≤ c ∧ c ≤ 'Z') ∨ ('2' ≤ c ∧ c ≤ '7')

/-- The codec of RFC 4648. -/
def Base32Nopad.rfc4648 : Base32Nopad where
  encode := Base32.encode
  decode := Base32.decode
  decode_encode := Base32.decode_encode
  alphabet := Base32.encode_alphabet

inductive TicketError
  | badPrefix | badBase32 | truncated | unsupportedVersion (version : UInt8) | badChecksum | malformedBody
  deriving DecidableEq, Repr

structure RoomInviteTicket where
  roomId : RoomId
  inviteId : ShortId
  capabilitySecret : ShortId
  inviteeKey : IdentityKey
  role : String
  expiresAt : Option Nat
  inviterIdentity : IdentityKey
  discovery : List DeviceKey
  deriving DecidableEq, Repr

def ticketPrefix : String := "roomtkt1"

def ticketVersion : UInt8 := 1

def ticketChecksumLen : Nat := 4

def toAsciiLowercase (s : String) : String := String.ofList (s.toList.map Char.toLower)

def toAsciiUppercase (s : String) : String := String.ofList (s.toList.map Char.toUpper)

/-- Equal up to the case of ASCII letters. -/
def eqIgnoreAsciiCase (s t : String) : Prop := toAsciiLowercase s = toAsciiLowercase t

def stripPrefix (front s : String) : Option String := (front.toList.isPrefixOf? s.toList).map String.ofList

/-! ### Reading the body -/

/-- A body of another shape. -/
def orMalformed {α : Type} : Option α → Except TicketError α
  | some a => .ok a
  | none => .error .malformedBody

/-- A byte string of `n` bytes. -/
def fixedOf (n : Nat) (value : Option CborValue) : Except TicketError (BitVec (8 * n)) := do
  let bytes ← orMalformed (value.bind CborValue.asBytes)
  if bytes.length = n then .ok (BitVec.ofNat (8 * n) (fromBeBytes bytes)) else .error .malformedBody

def fixed (n : Nat) (entries : List (String × CborValue)) (key : String) : Except TicketError (BitVec (8 * n)) :=
  fixedOf n (entries.lookup key)

def deviceArray (entries : List (String × CborValue)) (key : String) : Except TicketError (List DeviceKey) := do
  let items ← orMalformed ((entries.lookup key).bind CborValue.asArray)
  items.mapM fun item => (fixedOf 32 (some item)).map Bytes32.mk

/-- An optional number; one that is there but of another type is a malformation. -/
def optUint (entries : List (String × CborValue)) (key : String) : Except TicketError (Option Nat) :=
  match entries.lookup key with
  | some v => (orMalformed v.asUint).map fun n => some n.toNat
  | none => .ok none

namespace RoomInviteTicket

/-- The hash that the invite on the log must carry. -/
def capabilityHash (env : Env) (t : RoomInviteTicket) : BitVec 256 :=
  env.capabilityHash t.roomId t.inviteId t.capabilitySecret

def toCborBody (t : RoomInviteTicket) : CborValue :=
  let entries := [("room_id", keyValue t.roomId), ("invite_id", bytesValue (n := 16) t.inviteId),
    ("secret", bytesValue (n := 16) t.capabilitySecret), ("invitee", keyValue t.inviteeKey), ("role", .text t.role),
    ("inviter", keyValue t.inviterIdentity), ("discovery", .array (t.discovery.map keyValue))]
  match t.expiresAt with
  | some expiry => .map (entries ++ [("expires_at", uintValue expiry)])
  | none => .map entries

def fromCborBody (value : CborValue) : Except TicketError RoomInviteTicket := do
  let entries ← orMalformed value.asMap
  let roomId ← fixed 32 entries "room_id"
  let inviteId ← fixed 16 entries "invite_id"
  let capabilitySecret ← fixed 16 entries "secret"
  let inviteeKey ← fixed 32 entries "invitee"
  let role ← orMalformed ((entries.lookup "role").bind CborValue.asText)
  let inviterIdentity ← fixed 32 entries "inviter"
  let discovery ← deviceArray entries "discovery"
  let expiresAt ← optUint entries "expires_at"
  pure ⟨⟨roomId⟩, inviteId, capabilitySecret, ⟨inviteeKey⟩, role, expiresAt, ⟨inviterIdentity⟩, discovery⟩

section Text

variable (env : Env) (base32 : Base32Nopad)

/-- The first bytes of the hash of a payload. -/
def checksum (payload : Bytes) : Bytes := (beBytes 32 (env.blake3 payload).toNat).take ticketChecksumLen

def payload (t : RoomInviteTicket) : Bytes := ticketVersion :: encode t.toCborBody

/-- What stands after the prefix. -/
def body (t : RoomInviteTicket) : String :=
  toAsciiLowercase (base32.encode (t.payload ++ checksum env t.payload))

def display (t : RoomInviteTicket) : String := ticketPrefix ++ t.body env base32

def fromRaw (raw : Bytes) : Except TicketError RoomInviteTicket :=
  match raw with
  | [] => .error .truncated
  | version :: _ =>
    if raw.length < 1 + ticketChecksumLen then .error .truncated
    else if version ≠ ticketVersion then .error (.unsupportedVersion version)
    else
      let payload := raw.take (raw.length - ticketChecksumLen)
      if raw.drop (raw.length - ticketChecksumLen) ≠ checksum env payload then .error .badChecksum
      else match decodeCanonical (payload.drop 1) with
        | .error _ => .error .malformedBody
        | .ok value => fromCborBody value

def fromStr (s : String) : Except TicketError RoomInviteTicket :=
  match stripPrefix ticketPrefix s with
  | none => .error .badPrefix
  | some body =>
    match base32.decode (asBytes (toAsciiUppercase body)) with
    | none => .error .badBase32
    | some raw => fromRaw env raw

end Text

end RoomInviteTicket

/-! ### Case folding -/

theorem toLower_val {c : Char} (hupper : c.val ≥ 'A'.val ∧ c.val ≤ 'Z'.val) : c.toLower.val = c.val + 32 := by
  have hlower : c.toLower = ⟨c.val + ('a'.val - 'A'.val), _⟩ := dif_pos hupper
  rw [hlower]
  rfl

theorem toLower_of_not {c : Char} (hupper : ¬ (c.val ≥ 'A'.val ∧ c.val ≤ 'Z'.val)) : c.toLower = c := dif_neg hupper

theorem toUpper_of_not {c : Char} (hlower : ¬ ('a'.val ≤ c.val ∧ c.val ≤ 'z'.val)) : c.toUpper = c := dif_neg hlower

theorem toLower_toLower (c : Char) : c.toLower.toLower = c.toLower := by
  by_cases hupper : c.val ≥ 'A'.val ∧ c.val ≤ 'Z'.val
  · have hnot : ¬ (c.toLower.val ≥ 'A'.val ∧ c.toLower.val ≤ 'Z'.val) := by
      rw [toLower_val hupper]
      simp [UInt32.le_iff_toNat_le] at *
      omega
    rw [toLower_of_not hnot]
  · rw [toLower_of_not hupper, toLower_of_not hupper]

theorem toUpper_toLower (c : Char) : c.toLower.toUpper = c.toUpper := by
  by_cases hupper : c.val ≥ 'A'.val ∧ c.val ≤ 'Z'.val
  · have hlower := toLower_val hupper
    have hbetween : 'a'.val ≤ c.toLower.val ∧ c.toLower.val ≤ 'z'.val := by
      rw [hlower]
      simp [UInt32.le_iff_toNat_le] at *
      omega
    have hnot : ¬ ('a'.val ≤ c.val ∧ c.val ≤ 'z'.val) := by
      simp [UInt32.le_iff_toNat_le] at *
      omega
    have hraised : c.toLower.toUpper = ⟨c.toLower.val + ('A'.val - 'a'.val), _⟩ := dif_pos hbetween
    rw [hraised, toUpper_of_not hnot]
    apply Char.ext
    show c.toLower.val + _ = c.val
    rw [hlower]
    show c.val + 32 + (-32) = c.val
    rw [← UInt32.sub_eq_add_neg, UInt32.add_sub_cancel]
  · rw [toLower_of_not hupper]

theorem toUpper_of_alphabet {c : Char} (h : ('A' ≤ c ∧ c ≤ 'Z') ∨ ('2' ≤ c ∧ c ≤ '7')) : c.toUpper = c := by
  have hval : (65 ≤ c.val.toNat ∧ c.val.toNat ≤ 90) ∨ (50 ≤ c.val.toNat ∧ c.val.toNat ≤ 55) := h
  have hnot : ¬ ('a'.val ≤ c.val ∧ c.val ≤ 'z'.val) := by
    intro hlower
    have hfrom : 97 ≤ c.val.toNat := hlower.1
    omega
  exact toUpper_of_not hnot

theorem toAsciiUppercase_toAsciiLowercase (s : String) :
    toAsciiUppercase (toAsciiLowercase s) = toAsciiUppercase s := by
  simp only [toAsciiUppercase, toAsciiLowercase, String.toList_ofList, List.map_map]
  congr 1
  exact List.map_congr_left fun c _ => toUpper_toLower c

theorem toAsciiUppercase_of_alphabet {s : String} (h : ∀ c ∈ s.toList, ('A' ≤ c ∧ c ≤ 'Z') ∨ ('2' ≤ c ∧ c ≤ '7')) :
    toAsciiUppercase s = s := by
  have hsame : s.toList.map Char.toUpper = s.toList := by
    rw [List.map_congr_left fun c hc => toUpper_of_alphabet (h c hc), List.map_id']
  rw [toAsciiUppercase, hsame, String.ofList_toList]

theorem stripPrefix_append (front s : String) : stripPrefix front (front ++ s) = some s := by
  have hlist : ∀ l m : List Char, l.isPrefixOf? (l ++ m) = some m := by
    intro l m
    induction l with
    | nil => rfl
    | cons c l ih =>
      rw [List.cons_append, List.isPrefixOf?, if_pos (beq_self_eq_true c)]
      exact ih
  rw [stripPrefix, String.toList_append, hlist, Option.map_some, String.ofList_toList]

theorem toAsciiLowercase_idem (s : String) : toAsciiLowercase (toAsciiLowercase s) = toAsciiLowercase s := by
  simp only [toAsciiLowercase, String.toList_ofList, List.map_map]
  congr 1
  exact List.map_congr_left fun c _ => toLower_toLower c

/-- Letters of another case are read as the same symbols. -/
theorem toAsciiUppercase_eq {s t : String} (h : eqIgnoreAsciiCase s (toAsciiLowercase t))
    (ht : ∀ c ∈ t.toList, ('A' ≤ c ∧ c ≤ 'Z') ∨ ('2' ≤ c ∧ c ≤ '7')) : toAsciiUppercase s = t := by
  rw [← toAsciiUppercase_toAsciiLowercase s, h, toAsciiUppercase_toAsciiLowercase, toAsciiUppercase_toAsciiLowercase,
    toAsciiUppercase_of_alphabet ht]

/-! ### The body comes back -/

theorem fixedOf_bytesValue {n : Nat} (x : BitVec (8 * n)) : fixedOf n (some (bytesValue x)) = .ok x := by
  have hback : BitVec.ofNat (8 * n) (fromBeBytes (beBytes n x.toNat)) = x := by
    have hread : fixedBytes .invalidContent n (bytesValue x) = .ok x := fixedBytes_eq_ok.mpr rfl
    obtain ⟨b, hb, h⟩ := bind_eq_ok_iff.mp hread
    cases hb
    rw [if_pos (length_beBytes n x.toNat)] at h
    exact Except.ok.inj h
  show (if (beBytes n x.toNat).length = n then _ else _) = _
  rw [if_pos (length_beBytes n x.toNat), hback]

namespace RoomInviteTicket

variable {t : RoomInviteTicket}

/-- The entries of the body. -/
def fieldSlots (t : RoomInviteTicket) : List (String × Option CborValue) :=
  [("room_id", some (keyValue t.roomId)), ("invite_id", some (bytesValue (n := 16) t.inviteId)),
    ("secret", some (bytesValue (n := 16) t.capabilitySecret)), ("invitee", some (keyValue t.inviteeKey)),
    ("role", some (.text t.role)), ("inviter", some (keyValue t.inviterIdentity)),
    ("discovery", some (.array (t.discovery.map keyValue))), ("expires_at", t.expiresAt.map uintValue)]

theorem toCborBody_eq_slots (t : RoomInviteTicket) : t.toCborBody = .map (Fields.slots t.fieldSlots) := by
  obtain ⟨_, _, _, _, _, _ | _, _, _⟩ := t <;> rfl

theorem keys_fieldSlots (t : RoomInviteTicket) : (t.fieldSlots.map Prod.fst).Nodup := by
  have hkeys : ["room_id", "invite_id", "secret", "invitee", "role", "inviter", "discovery", "expires_at"].Nodup := by
    decide
  exact hkeys

theorem within_toCborBody (t : RoomInviteTicket) : Within 2 t.toCborBody := by
  rw [toCborBody_eq_slots]
  refine within_map ((keys_fieldSlots t).sublist (Fields.keys_slots _)) fun e he => ?_
  obtain ⟨p, hp, hentry⟩ := List.mem_filterMap.mp he
  obtain ⟨v, hv, rfl⟩ := Option.map_eq_some_iff.mp hentry
  have hdevices : Within 1 (.array (t.discovery.map keyValue)) := within_list fun _ _ => within_bytes 0 _
  simp only [fieldSlots, List.mem_cons, List.not_mem_nil, or_false] at hp
  rcases hp with rfl | rfl | rfl | rfl | rfl | rfl | rfl | rfl
  · cases hv; exact within_bytes 1 _
  · cases hv; exact within_bytes 1 _
  · cases hv; exact within_bytes 1 _
  · cases hv; exact within_bytes 1 _
  · cases hv; exact within_text 1 _
  · cases hv; exact within_bytes 1 _
  · cases hv; exact hdevices
  · obtain ⟨expiry, -, rfl⟩ := Option.map_eq_some_iff.mp hv
    exact within_uint 1 _

theorem deviceArray_discovery {entries : List (String × CborValue)} {key : String} {devices : List DeviceKey}
    (h : entries.lookup key = some (normal (.array (devices.map keyValue)))) :
    deviceArray entries key = .ok devices := by
  unfold deviceArray
  rw [h, normal_array]
  show (((devices.map keyValue).map normal).mapM fun item => (fixedOf 32 (some item)).map Bytes32.mk) = _
  rw [mapM_eq_ok_iff, List.map_map, List.forall₂_map_left_iff]
  refine List.forall₂_same.mpr fun d _ => ?_
  exact map_eq_ok_iff.mpr ⟨d.bits, fixedOf_bytesValue (n := 32) d.bits, rfl⟩

theorem fromCborBody_toCborBody (hexpiry : ∀ expiry, t.expiresAt = some expiry → expiry < 2 ^ 64) :
    fromCborBody (normal t.toCborBody) = .ok t := by
  rw [toCborBody_eq_slots]
  obtain ⟨fields, hfields, hlookup⟩ := exists_normal_map ((keys_fieldSlots t).sublist (Fields.keys_slots _))
  have hat : ∀ k, fields.lookup k = (t.fieldSlots.lookup k).join.map normal := by
    intro k
    rw [hlookup, Fields.lookup_slots (keys_fieldSlots t)]
  have hfixed : ∀ (n : Nat) (key : String) (x : BitVec (8 * n)),
      (t.fieldSlots.lookup key).join.map normal = some (bytesValue x) → fixed n fields key = .ok x := by
    intro n key x h
    rw [fixed, hat, h]
    exact fixedOf_bytesValue x
  have hdevices : deviceArray fields "discovery" = .ok t.discovery := deviceArray_discovery (hat _)
  have hrole : fields.lookup "role" = some (.text t.role) := hat _
  have hexpires : fields.lookup "expires_at" = t.expiresAt.map uintValue := by
    rw [hat]
    show (t.expiresAt.map uintValue).map normal = _
    cases t.expiresAt <;> rfl
  rw [hfields]
  refine bind_eq_ok_iff.mpr ⟨fields, rfl, ?_⟩
  refine bind_eq_ok_iff.mpr ⟨t.roomId.bits, hfixed 32 "room_id" _ rfl, ?_⟩
  refine bind_eq_ok_iff.mpr ⟨t.inviteId, hfixed 16 "invite_id" _ rfl, ?_⟩
  refine bind_eq_ok_iff.mpr ⟨t.capabilitySecret, hfixed 16 "secret" _ rfl, ?_⟩
  refine bind_eq_ok_iff.mpr ⟨t.inviteeKey.bits, hfixed 32 "invitee" _ rfl, ?_⟩
  refine bind_eq_ok_iff.mpr ⟨t.role, by rw [hrole]; rfl, ?_⟩
  refine bind_eq_ok_iff.mpr ⟨t.inviterIdentity.bits, hfixed 32 "inviter" _ rfl, ?_⟩
  refine bind_eq_ok_iff.mpr ⟨t.discovery, hdevices, ?_⟩
  refine bind_eq_ok_iff.mpr ⟨t.expiresAt, ?_, rfl⟩
  rw [optUint, hexpires]
  cases hsome : t.expiresAt with
  | none => rfl
  | some expiry =>
    show Except.ok (some (UInt64.ofNat expiry).toNat) = Except.ok (some expiry)
    rw [UInt64.toNat_ofNat_of_lt' (hexpiry expiry hsome)]

/-! ### The text comes back -/

section Text

variable {env : Env} {base32 : Base32Nopad}

theorem length_checksum (payload : Bytes) : (checksum env payload).length = ticketChecksumLen := by
  rw [checksum, List.length_take, length_beBytes]
  rfl

/-- The frame around the body is taken off. -/
theorem fromRaw_payload (hexpiry : ∀ expiry, t.expiresAt = some expiry → expiry < 2 ^ 64)
    (hfits : t.payload.length ≤ usizeMax) : fromRaw env (t.payload ++ checksum env t.payload) = .ok t := by
  have hlen : (t.payload ++ checksum env t.payload).length - ticketChecksumLen = t.payload.length := by
    rw [List.length_append, length_checksum, Nat.add_sub_cancel]
  have hlong : ¬ (t.payload ++ checksum env t.payload).length < 1 + ticketChecksumLen := by
    rw [List.length_append, length_checksum]
    have hcons : t.payload.length = (encode t.toCborBody).length + 1 := rfl
    omega
  have hbody : (encode t.toCborBody).length ≤ usizeMax := (Nat.le_succ _).trans hfits
  have hvalue : decodeCanonical (encode t.toCborBody) = .ok (normal t.toCborBody) :=
    decodeCanonical_encode ((within_toCborBody t).mono (by decide)) hbody
  show (if _ then _ else if ticketVersion ≠ ticketVersion then _ else _) = _
  rw [if_neg hlong, if_neg (not_not.mpr rfl), hlen, List.take_left, List.drop_left, if_neg (not_not.mpr rfl)]
  show (match decodeCanonical (encode t.toCborBody) with | .error _ => _ | .ok value => fromCborBody value) = _
  rw [hvalue]
  exact fromCborBody_toCborBody hexpiry

/-- A ticket is parsed from its text, also from one whose letters after the prefix are of another case. -/
theorem fromStr_of_case (hexpiry : ∀ expiry, t.expiresAt = some expiry → expiry < 2 ^ 64)
    (hfits : t.payload.length ≤ usizeMax) {s : String} (hs : eqIgnoreAsciiCase s (t.body env base32)) :
    fromStr env base32 (ticketPrefix ++ s) = .ok t := by
  have hupper := toAsciiUppercase_eq hs (base32.alphabet _)
  rw [fromStr, stripPrefix_append]
  dsimp only
  rw [hupper, base32.decode_encode]
  exact fromRaw_payload hexpiry hfits

/-- Parsing the text of a ticket gives the ticket, whatever the case of the letters after the prefix. So no two tickets
have one text, and the capability hash is that of the ticket. -/
theorem fromStr_display (env : Env) (base32 : Base32Nopad)
    (hexpiry : ∀ expiry, t.expiresAt = some expiry → expiry < 2 ^ 64)
    (hfits : t.payload.length ≤ usizeMax) :
    fromStr env base32 (t.display env base32) = .ok t ∧
    (∀ s, eqIgnoreAsciiCase s (t.body env base32) → fromStr env base32 (ticketPrefix ++ s) = .ok t) ∧
    (∀ t' : RoomInviteTicket, (∀ expiry, t'.expiresAt = some expiry → expiry < 2 ^ 64) →
      t'.payload.length ≤ usizeMax → t'.display env base32 = t.display env base32 → t' = t) ∧
    ∀ parsed, fromStr env base32 (t.display env base32) = .ok parsed →
      parsed.capabilityHash env = t.capabilityHash env := by
  have hparse : fromStr env base32 (t.display env base32) = .ok t := fromStr_of_case hexpiry hfits rfl
  refine ⟨hparse, fun s hs => fromStr_of_case hexpiry hfits hs, fun t' hexpiry' hfits' hsame => ?_, fun parsed h => ?_⟩
  · have hparse' : fromStr env base32 (t'.display env base32) = .ok t' := fromStr_of_case hexpiry' hfits' rfl
    rw [hsame, hparse] at hparse'
    exact (Except.ok.inj hparse').symm
  · rw [hparse] at h
    rw [Except.ok.inj h]

end Text

end RoomInviteTicket

namespace Toy

/-- An invite of participant `2` by participant `1`, with two devices to find the room at. -/
def ticket : RoomInviteTicket :=
  ⟨room, 1, 2, identity 2, "member", some 900, identity 1, [device 1, device 3]⟩

end Toy

theorem RoomInviteTicket.fromStr_display_toy :
    RoomInviteTicket.fromStr toyEnv .rfc4648 (Toy.ticket.display toyEnv .rfc4648) = .ok Toy.ticket ∧
    RoomInviteTicket.fromStr toyEnv .rfc4648 (ticketPrefix ++
      Base32.encode (Toy.ticket.payload ++ RoomInviteTicket.checksum toyEnv Toy.ticket.payload)) = .ok Toy.ticket := by
  have hexpiry : ∀ expiry, Toy.ticket.expiresAt = some expiry → expiry < 2 ^ 64 := by
    intro expiry h
    obtain rfl : 900 = expiry := Option.some.inj h
    decide
  have hfits : Toy.ticket.payload.length ≤ usizeMax := by decide +kernel
  obtain ⟨hparse, hcase, -⟩ := RoomInviteTicket.fromStr_display toyEnv .rfc4648 hexpiry hfits
  exact ⟨hparse, hcase _ (toAsciiLowercase_idem _).symm⟩

end IrohRooms
