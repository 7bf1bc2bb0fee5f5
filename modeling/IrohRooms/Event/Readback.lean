import IrohRooms.Event.CborNormal
import IrohRooms.Event.Wire

/-!
# What is written is read back

The strict readers run forwards: on a map that lists the keys a reader asks for, with values its field readers take, the
reader answers, and nothing is left over. `Accepts` says this of a reader and has one rule for each way readers are put
together. A body of one of the five content types is read back exactly if it obeys the rules of its type, and a signed
event is decoded from its bytes if its content is.
-/

namespace IrohRooms

open Cbor

namespace Fields

/-- On these entries the reader answers `a`; it marks the entries of the keys and unmarks none. -/
def Accepts {α : Type} (entries : List (String × CborValue)) (read : FieldReader α) (keys : List String) (a : α) :
    Prop :=
  ∀ consumed : List Bool, consumed.length = entries.length → ∃ consumed' : List Bool,
    read ⟨entries, consumed⟩ = .ok (a, ⟨entries, consumed'⟩) ∧ consumed'.length = entries.length ∧
    (∀ i : Nat, consumed[i]? = some true → consumed'[i]? = some true) ∧
    ∀ (i : Nat) (e : String × CborValue), entries[i]? = some e → e.1 ∈ keys → consumed'[i]? = some true

namespace Accepts

variable {α β : Type} {entries : List (String × CborValue)} {read : FieldReader α} {next : α → FieldReader β}
  {keys keys' : List String} {a : α} {b : β}

theorem pure : Accepts entries (Pure.pure a) [] a :=
  fun consumed hlen => ⟨consumed, rfl, hlen, fun _ h => h, fun _ _ _ h => nomatch h⟩

theorem bind (hread : Accepts entries read keys a) (hnext : Accepts entries (next a) keys' b) :
    Accepts entries (read >>= next) (keys ++ keys') b := by
  intro consumed hlen
  obtain ⟨first, hfirst, hlen₁, hkept₁, hmarked₁⟩ := hread consumed hlen
  obtain ⟨second, hsecond, hlen₂, hkept₂, hmarked₂⟩ := hnext first hlen₁
  refine ⟨second, bind_eq_ok_iff.mpr ⟨_, hfirst, hsecond⟩, hlen₂, fun i hi => hkept₂ i (hkept₁ i hi), ?_⟩
  intro i e he hkey
  rcases List.mem_append.mp hkey with hkey | hkey
  · exact hkept₂ i (hmarked₁ i e he hkey)
  · exact hmarked₂ i e he hkey

/-- What follows asks for no more keys. -/
theorem andThen (hread : Accepts entries read keys a) (hnext : Accepts entries (next a) [] b) :
    Accepts entries (read >>= next) keys b := by
  have hboth := hread.bind hnext
  rwa [List.append_nil] at hboth

theorem lift {x : Except RejectReason α} (hx : x = .ok a) : Accepts entries (liftM x) [] a := by
  rw [hx]
  exact pure

/-- A check that asks for no key. -/
theorem check {x : Except RejectReason α} (hx : x = .ok a) (hnext : Accepts entries (next a) keys b) :
    Accepts entries (liftM x >>= next) keys b := by
  rw [hx]
  exact hnext

theorem ensured {c : Prop} [Decidable c] {rest : Unit → FieldReader β} (hc : c)
    (hrest : Accepts entries (rest ()) keys b) : Accepts entries (liftM (ensure c) >>= rest) keys b :=
  check (ensure_eq_ok.mpr hc) hrest

/-- Looking up a key marks its only entry. -/
theorem opt (honce : (entries.map Prod.fst).Nodup) (key : String) :
    Accepts entries (Fields.opt key) [key] (entries.lookup key) := by
  intro consumed hlen
  unfold Fields.opt
  cases hfind : entries.findIdx? fun e => e.1 == key with
  | none =>
    have habsent : ∀ e ∈ entries, e.1 ≠ key := by
      intro e he
      simpa using List.findIdx?_eq_none_iff.mp hfind e he
    have hnone : entries.lookup key = none := by
      rw [List.lookup_eq_none_iff]
      intro e he
      simpa using Ne.symm (habsent e he)
    refine ⟨consumed, by rw [hnone], hlen, fun _ h => h, fun i e he hkey => ?_⟩
    exact absurd (List.mem_singleton.mp hkey) (habsent e (List.mem_of_getElem? he))
  | some idx =>
    obtain ⟨hlt, hkey, -⟩ := List.findIdx?_eq_some_iff_getElem.mp hfind
    refine ⟨consumed.set idx true, by rw [lookup_of_findIdx? hfind], by rwa [List.length_set], fun i hi => ?_, ?_⟩
    · rw [List.getElem?_set]
      split_ifs with hidx hbound
      · rfl
      · rw [hlen] at hbound
        exact absurd hlt hbound
      · exact hi
    · intro i e he hek
      have hfirst : (entries[idx]).1 = key := eq_of_beq hkey
      have hnth : (entries.map Prod.fst)[i]? = (entries.map Prod.fst)[idx]? := by
        rw [List.getElem?_map, List.getElem?_map, he, List.getElem?_eq_getElem hlt, Option.map_some, Option.map_some,
          hfirst, List.mem_singleton.mp hek]
      have hi : i < (entries.map Prod.fst).length := by
        rw [List.length_map]
        exact (List.getElem?_eq_some_iff.mp he).1
      have hsame : i = idx := (List.getElem?_inj hi honce).mp hnth
      rw [hsame, List.getElem?_set, if_pos rfl, if_pos (by rw [hlen]; exact hlt)]

section With

variable {value : CborValue → Except RejectReason α} {key : String}

theorem required (honce : (entries.map Prod.fst).Nodup) {v : CborValue} (hlookup : entries.lookup key = some v)
    (hread : value v = .ok a) : Accepts entries (requireWith key value) [key] a := by
  have hrequire : Accepts entries (require key) [key] v := by
    refine (opt honce key).andThen ?_
    rw [hlookup]
    exact lift rfl
  exact hrequire.andThen (lift hread)

theorem optional (honce : (entries.map Prod.fst).Nodup) {o : Option α} {write : α → CborValue}
    (hlookup : entries.lookup key = (o.map write).map normal)
    (hread : ∀ a, o = some a → value (normal (write a)) = .ok a) : Accepts entries (optWith key value) [key] o := by
  refine (opt honce key).andThen ?_
  rw [hlookup]
  cases o with
  | none => exact pure
  | some a =>
    exact check (hread a rfl) pure

end With

/-- A reader that asks for all keys of a map reads it to the end. -/
theorem readFields (h : Accepts entries read keys a) (hall : ∀ e ∈ entries, e.1 ∈ keys) :
    IrohRooms.readFields read (.map entries) = .ok a := by
  obtain ⟨consumed, hread, hlen, -, hmarked⟩ := h (List.replicate entries.length false) List.length_replicate
  have hfinish : Fields.finish ⟨entries, consumed⟩ = .ok () := by
    refine if_pos (List.all_eq_true.mpr fun x hx => ?_)
    obtain ⟨i, hi⟩ := List.mem_iff_getElem?.mp hx
    have hlt : i < entries.length := by
      rw [← hlen]
      exact (List.getElem?_eq_some_iff.mp hi).1
    have htrue := hmarked i _ (List.getElem?_eq_getElem hlt) (hall _ (List.getElem_mem hlt))
    exact Option.some.inj (hi.symm.trans htrue)
  refine bind_eq_ok_iff.mpr ⟨⟨entries, List.replicate entries.length false⟩, rfl, ?_⟩
  exact bind_eq_ok_iff.mpr ⟨_, hread, bind_eq_ok_iff.mpr ⟨(), hfinish, rfl⟩⟩

end Accepts

/-! ### Maps that are written with optional entries -/

/-- The entries that are there. -/
def slots (l : List (String × Option CborValue)) : List (String × CborValue) :=
  l.filterMap fun p => p.2.map fun v => (p.1, v)

theorem keys_slots (l : List (String × Option CborValue)) : ((slots l).map Prod.fst).Sublist (l.map Prod.fst) := by
  induction l with
  | nil => exact List.Sublist.refl _
  | cons p l ih =>
    obtain ⟨key, _ | v⟩ := p
    · exact ih.cons key
    · exact ih.cons_cons key

theorem lookup_slots {l : List (String × Option CborValue)} (h : (l.map Prod.fst).Nodup) (k : String) :
    (slots l).lookup k = (l.lookup k).join := by
  induction l with
  | nil => rfl
  | cons p l ih =>
    obtain ⟨key, o⟩ := p
    obtain ⟨hkey, hrest⟩ := List.nodup_cons.mp h
    rw [List.lookup_cons]
    by_cases hk : k = key
    · have hbeq : (k == key) = true := by simpa using hk
      rw [hbeq]
      cases o with
      | none =>
        have habsent : ∀ e ∈ slots l, e.1 ≠ k := by
          rintro e he rfl
          exact hkey (hk ▸ (keys_slots l).subset (List.mem_map_of_mem he))
        show (slots l).lookup k = none
        rw [List.lookup_eq_none_iff]
        intro e he
        simpa using Ne.symm (habsent e he)
      | some v =>
        show ((key, v) :: slots l).lookup k = some v
        rw [List.lookup_cons, hbeq]
    · have hbeq : (k == key) = false := by simpa using hk
      rw [hbeq, ← ih hrest]
      cases o with
      | none => rfl
      | some v =>
        show ((key, v) :: slots l).lookup k = _
        rw [List.lookup_cons, hbeq]

/-- A reader that accepts the written entries, each in canonical order, reads the map back. -/
theorem readFields_slots {α : Type} {read : FieldReader α} {a : α} (l : List (String × Option CborValue))
    (hkeys : (l.map Prod.fst).Nodup)
    (h : ∀ entries : List (String × CborValue), (entries.map Prod.fst).Nodup →
      (∀ k, entries.lookup k = (l.lookup k).join.map normal) → Accepts entries read (l.map Prod.fst) a) :
    readFields read (normal (sortIntoMap (slots l))) = .ok a := by
  have honce : ((slots l).map Prod.fst).Nodup := hkeys.sublist (keys_slots l)
  have hsame : (((slots l).map fun e => (e.1, normal e.2)).map Prod.fst) = (slots l).map Prod.fst := by
    rw [List.map_map]
    rfl
  have hperm := perm_sortKeys ((slots l).map fun e => (e.1, normal e.2))
  rw [normal_sortIntoMap honce, normal_map]
  refine (h _ ?_ fun k => ?_).readFields fun e he => ?_
  · rw [(hperm.map _).nodup_iff, hsame]
    exact honce
  · rw [lookup_sortKeys (by rwa [hsame]), lookup_map_normal, lookup_slots hkeys]
  · obtain ⟨e', he', rfl⟩ := List.mem_map.mp (hperm.mem_iff.mp he)
    exact (keys_slots l).subset (List.mem_map.mpr ⟨e', he', rfl⟩)

end Fields

/-! ### Values -/

theorem uintOf_uintValue (reason : RejectReason) {n : Nat} (h : n < 2 ^ 64) : uintOf reason (uintValue n) = .ok n :=
  map_eq_ok_iff.mpr ⟨UInt64.ofNat n, rfl, UInt64.toNat_ofNat_of_lt' h⟩

/-- An array whose items are read back is read back. -/
theorem arrayOf_map {α : Type} {reason : RejectReason} {read : CborValue → Except RejectReason α}
    {write : α → CborValue} {l : List α} (h : ∀ a ∈ l, read (normal (write a)) = .ok a) :
    arrayOf reason read (normal (.array (l.map write))) = .ok l := by
  refine bind_eq_ok_iff.mpr ⟨(l.map write).map normal, ?_, mapM_eq_ok_iff.mpr ?_⟩
  · rw [normal_array]
    rfl
  · rw [List.map_map, List.forall₂_map_left_iff]
    exact List.forall₂_same.mpr h

theorem arrayOf_keyArray {kind : Kind} (reason : RejectReason) (keys : List (Bytes32 kind)) :
    arrayOf reason (fixed32 reason) (normal (keyArray keys)) = .ok keys :=
  arrayOf_map fun _ _ => fixed32_eq_ok.mpr rfl

/-! ### Bodies -/

/-- The rules for the fields of the five body types. -/
def Content.BodyRules : Content → Prop
  | .messageText c => c.body.utf8ByteSize ≤ maxMessageBodyBytes ∧ ∀ s, c.format = some s → s ∈ ["plain", "markdown"]
  | .fileShared c => (c.name ≠ "" ∧ c.name.utf8ByteSize ≤ 255 ∧ c.name.toList.any isControl = false) ∧
      (c.mimeType ≠ "" ∧ c.mimeType.utf8ByteSize ≤ 255 ∧ isWellFormedMime c.mimeType = true) ∧
      c.sizeBytes ≤ maxSharedFileBytes ∧ (∀ s, c.blobFormat = some s → s ∈ ["raw", "hash_seq"]) ∧
      ∀ ps, c.providers = some ps → ps ≠ [] ∧ ps.length ≤ 16
  | .pipeOpened c => c.kind = "tcp" ∧ c.allowedMembers ≠ []
  | .pipeClosed c => ∀ s, c.reason = some s → s ∈ ["closed", "expired", "owner_exit", "error"]
  | .agentStatus c => (c.status ≠ "" ∧ c.status.utf8ByteSize ≤ 64 ∧ c.status.toList.any isControl = false) ∧
      (∀ m, c.message = some m → m.utf8ByteSize ≤ 4096) ∧
      (∀ ids, c.relatedArtifactIds = some ids → ids ≠ [] ∧ ids.length ≤ 16) ∧
      ∀ pct, c.progressPct = some pct → pct ≤ 100
  | _ => False

/-- The numbers of a content are 64-bit. -/
def Content.InRange : Content → Prop
  | .memberInvited c => ∀ t, c.expiresAt = some t → t < 2 ^ 64
  | .memberRemoved c => ∀ d, c.rotation = some d → d.newEpoch < 2 ^ 64
  | .fileShared c => c.sizeBytes < 2 ^ 64
  | .pipeOpened c => ∀ t, c.expiresAt = some t → t < 2 ^ 64
  | .agentStatus c => ∀ pct, c.progressPct = some pct → pct < 2 ^ 64
  | .encrypted c => c.keyEpoch < 2 ^ 64
  | .memberKeyDistribution d => d.newEpoch < 2 ^ 64
  | _ => True

/-- The entries a body or an envelope is written with. -/
def Content.fieldSlots : Content → List (String × Option CborValue)
  | .messageText c => [("body", some (.text c.body)), ("format", c.format.map .text),
      ("in_reply_to", c.inReplyTo.map keyValue), ("mentions", c.mentions.map keyArray)]
  | .fileShared c => [("file_id", some (bytesValue (n := 16) c.fileId)), ("name", some (.text c.name)),
      ("mime_type", some (.text c.mimeType)), ("size_bytes", some (uintValue c.sizeBytes)),
      ("blob_hash", some (keyValue c.blobHash)), ("blob_format", c.blobFormat.map .text),
      ("providers", c.providers.map keyArray)]
  | .pipeOpened c => [("pipe_id", some (bytesValue (n := 16) c.pipeId)), ("owner_id", some (keyValue c.ownerId)),
      ("owner_endpoint", some (keyValue c.ownerEndpoint)), ("kind", some (.text c.kind)),
      ("label", some (.text c.label)), ("target_hint", some (.text c.targetHint)), ("alpn", some (.text c.alpn)),
      ("allowed_members", some (keyArray c.allowedMembers)), ("expires_at", c.expiresAt.map uintValue)]
  | .pipeClosed c => [("pipe_id", some (bytesValue (n := 16) c.pipeId)), ("reason", c.reason.map .text)]
  | .agentStatus c => [("status", some (.text c.status)), ("message", c.message.map .text),
      ("related_artifact_ids", c.relatedArtifactIds.map fun ids => .array (ids.map (bytesValue (n := 16)))),
      ("progress_pct", c.progressPct.map uintValue)]
  | .encrypted c => [("inner_type", some (.text c.innerType.asStr)), ("key_epoch", some (uintValue c.keyEpoch)),
      ("suite", some (uintValue c.suite.toNat)), ("nonce", some (bytesValue (n := 12) c.nonce)),
      ("ciphertext", some (.bytes c.ciphertext))]
  | _ => []

/-- The five body types and the envelope. -/
def Content.isMessage : Content → Bool
  | .messageText _ | .fileShared _ | .pipeOpened _ | .pipeClosed _ | .agentStatus _ | .encrypted _ => true
  | _ => false

theorem Content.isMessage_of_cap {c : Content} {cap : Nat} (h : c.eventType.maxEncryptedPlaintextBytes = some cap) :
    c.isMessage = true := by
  cases c <;> first | rfl | cases h

theorem Content.toCbor_eq_slots {c : Content} (h : c.isMessage = true) :
    c.toCbor = sortIntoMap (Fields.slots c.fieldSlots) := by
  cases c with
  | messageText c => obtain ⟨_, _ | _, _ | _, _ | _⟩ := c <;> rfl
  | fileShared c => obtain ⟨_, _, _, _, _, _ | _, _ | _⟩ := c <;> rfl
  | pipeOpened c => obtain ⟨_, _, _, _, _, _, _, _, _ | _⟩ := c <;> rfl
  | pipeClosed c => obtain ⟨_, _ | _⟩ := c <;> rfl
  | agentStatus c => obtain ⟨_, _ | _, _ | _, _ | _⟩ := c <;> rfl
  | encrypted c => rfl
  | _ => cases h

theorem Content.keys_fieldSlots (c : Content) : (c.fieldSlots.map Prod.fst).Nodup := by
  have hkeys : ["body", "format", "in_reply_to", "mentions"].Nodup ∧
      ["file_id", "name", "mime_type", "size_bytes", "blob_hash", "blob_format", "providers"].Nodup ∧
      ["pipe_id", "owner_id", "owner_endpoint", "kind", "label", "target_hint", "alpn", "allowed_members",
        "expires_at"].Nodup ∧ ["pipe_id", "reason"].Nodup ∧
      ["status", "message", "related_artifact_ids", "progress_pct"].Nodup ∧
      ["inner_type", "key_epoch", "suite", "nonce", "ciphertext"].Nodup := by decide
  cases c with
  | messageText c => exact hkeys.1
  | fileShared c => exact hkeys.2.1
  | pipeOpened c => exact hkeys.2.2.1
  | pipeClosed c => exact hkeys.2.2.2.1
  | agentStatus c => exact hkeys.2.2.2.2.1
  | encrypted c => exact hkeys.2.2.2.2.2
  | _ => exact List.nodup_nil

theorem Fields.within_slots {n : Nat} {l : List (String × Option CborValue)} (hkeys : (l.map Prod.fst).Nodup)
    (h : ∀ p ∈ l, ∀ v, p.2 = some v → Within n v) : Within (n + 1) (sortIntoMap (Fields.slots l)) := by
  refine within_sortIntoMap (hkeys.sublist (Fields.keys_slots l)) fun e he => ?_
  obtain ⟨p, hp, hentry⟩ := List.mem_filterMap.mp he
  obtain ⟨v, hv, rfl⟩ := Option.map_eq_some_iff.mp hentry
  exact h p hp v hv

theorem Content.within_toCbor {c : Content} (h : c.isMessage = true) : Within 2 c.toCbor := by
  have htext : ∀ s v, some (CborValue.text s) = some v → Within 1 v := by
    rintro s v ⟨⟩
    exact within_text 1 s
  have huint : ∀ n v, some (uintValue n) = some v → Within 1 v := by
    rintro n v ⟨⟩
    exact within_uint 1 _
  have hbytes : ∀ b v, some (CborValue.bytes b) = some v → Within 1 v := by
    rintro b v ⟨⟩
    exact within_bytes 1 b
  have hopt : ∀ {α : Type} {write : α → CborValue} (o : Option α), (∀ a, Within 1 (write a)) →
      ∀ v, o.map write = some v → Within 1 v := by
    intro α write o hwrite v hv
    obtain ⟨a, -, rfl⟩ := Option.map_eq_some_iff.mp hv
    exact hwrite a
  have harray : ∀ {kind : Kind} (keys : List (Bytes32 kind)), Within 1 (keyArray keys) :=
    fun keys => within_list fun _ _ => within_bytes 0 _
  have hids : ∀ ids : List ShortId, Within 1 (.array (ids.map (bytesValue (n := 16)))) :=
    fun ids => within_list fun _ _ => within_bytes 0 _
  rw [Content.toCbor_eq_slots h]
  refine Fields.within_slots c.keys_fieldSlots ?_
  cases c with
  | messageText c =>
    simp only [Content.fieldSlots, List.forall_mem_cons]
    exact ⟨htext _, hopt _ (within_text 1), hopt _ fun _ => within_bytes 1 _, hopt _ harray, fun _ h => nomatch h⟩
  | fileShared c =>
    simp only [Content.fieldSlots, List.forall_mem_cons]
    exact ⟨hbytes _, htext _, htext _, huint _, hbytes _, hopt _ (within_text 1), hopt _ harray, fun _ h => nomatch h⟩
  | pipeOpened c =>
    simp only [Content.fieldSlots, List.forall_mem_cons]
    exact ⟨hbytes _, hbytes _, hbytes _, htext _, htext _, htext _, htext _, hopt (some _) harray,
      hopt _ fun _ => within_uint 1 _, fun _ h => nomatch h⟩
  | pipeClosed c =>
    simp only [Content.fieldSlots, List.forall_mem_cons]
    exact ⟨hbytes _, hopt _ (within_text 1), fun _ h => nomatch h⟩
  | agentStatus c =>
    simp only [Content.fieldSlots, List.forall_mem_cons]
    exact ⟨htext _, hopt _ (within_text 1), hopt _ hids, hopt _ fun _ => within_uint 1 _, fun _ h => nomatch h⟩
  | encrypted c =>
    simp only [Content.fieldSlots, List.forall_mem_cons]
    exact ⟨htext _, huint _, huint _, hbytes _, hbytes _, fun _ h => nomatch h⟩
  | _ => cases h

namespace Fields

section Typed

variable {entries : List (String × CborValue)} {key : String} (honce : (entries.map Prod.fst).Nodup)

include honce

theorem accepts_text {s : String} (h : entries.lookup key = some (.text s)) :
    Accepts entries (requireText key) [key] s := .required honce h rfl

theorem accepts_optText {o : Option String} (h : entries.lookup key = (o.map .text).map normal) :
    Accepts entries (optText key) [key] o := .optional honce h fun _ _ => rfl

theorem accepts_optEnum {o : Option String} {allowed : List String} (h : entries.lookup key = (o.map .text).map normal)
    (hallowed : ∀ s, o = some s → s ∈ allowed) : Accepts entries (optEnum key allowed) [key] o :=
  (accepts_optText honce h).andThen (.ensured hallowed .pure)

theorem accepts_uint {n : Nat} (h : entries.lookup key = some (uintValue n)) (hlt : n < 2 ^ 64) :
    Accepts entries (requireUint key) [key] n := .required honce h (uintOf_uintValue _ hlt)

theorem accepts_optUint {o : Option Nat} (h : entries.lookup key = (o.map uintValue).map normal)
    (hlt : ∀ n, o = some n → n < 2 ^ 64) : Accepts entries (optUint key) [key] o :=
  .optional honce h fun n hn => uintOf_uintValue _ (hlt n hn)

theorem accepts_bytes {n : Nat} {x : BitVec (8 * n)} (h : entries.lookup key = some (bytesValue x)) :
    Accepts entries (requireBytes n key) [key] x := .required honce h (fixedBytes_eq_ok.mpr rfl)

theorem accepts_key {kind : Kind} {x : Bytes32 kind} (h : entries.lookup key = some (keyValue x)) :
    Accepts entries (requireKey key) [key] x := .required honce h (fixed32_eq_ok.mpr rfl)

theorem accepts_optKey {kind : Kind} {o : Option (Bytes32 kind)}
    (h : entries.lookup key = (o.map keyValue).map normal) : Accepts entries (optKey key) [key] o :=
  .optional honce h fun _ _ => fixed32_eq_ok.mpr rfl

theorem accepts_keyArray {kind : Kind} {keys : List (Bytes32 kind)}
    (h : entries.lookup key = some (normal (keyArray keys))) : Accepts entries (requireKeyArray key) [key] keys :=
  .required honce h (arrayOf_keyArray _ keys)

theorem accepts_optKeyArray {kind : Kind} {o : Option (List (Bytes32 kind))}
    (h : entries.lookup key = (o.map keyArray).map normal) : Accepts entries (optKeyArray key) [key] o :=
  .optional honce h fun keys _ => arrayOf_keyArray _ keys

end Typed

/-- A field is followed by the rest. -/
theorem Accepts.field {entries : List (String × CborValue)} {key : String} {α β : Type}
    {read : FieldReader α} {next : α → FieldReader β} {keys : List String} {a : α} {b : β}
    (hread : Accepts entries read [key] a) (hnext : Accepts entries (next a) keys b) :
    Accepts entries (read >>= next) (key :: keys) b := hread.bind hnext

theorem parse_messageText {c : MessageText} (h : (Content.messageText c).BodyRules) :
    readFields parseMessageText (normal (Content.messageText c).toCbor) = .ok c := by
  rw [Content.toCbor_eq_slots rfl]
  refine readFields_slots _ (Content.keys_fieldSlots _) fun entries honce hlookup => ?_
  refine .field (accepts_text honce (hlookup _)) (.ensured h.1 ?_)
  refine .field (accepts_optEnum honce (hlookup _) h.2) ?_
  refine .field (accepts_optKey honce (hlookup _)) ?_
  exact .field (accepts_optKeyArray honce (hlookup _)) .pure

theorem parse_fileShared {c : FileShared} (h : (Content.fileShared c).BodyRules) :
    readFields parseFileShared (normal (Content.fileShared c).toCbor) = .ok c := by
  obtain ⟨hname, hmime, hsize, hformat, hproviders⟩ := h
  have hlt : c.sizeBytes < 2 ^ 64 := hsize.trans_lt (by decide)
  rw [Content.toCbor_eq_slots rfl]
  refine readFields_slots _ (Content.keys_fieldSlots _) fun entries honce hlookup => ?_
  refine .field (accepts_bytes honce (hlookup _)) ?_
  refine .field (accepts_text honce (hlookup _)) (.ensured hname ?_)
  refine .field (accepts_text honce (hlookup _)) (.ensured hmime ?_)
  refine .field (accepts_uint honce (hlookup _) hlt) (.ensured hsize ?_)
  refine .field (accepts_key honce (hlookup _)) ?_
  refine .field (accepts_optEnum honce (hlookup _) hformat) ?_
  exact .field (accepts_optKeyArray honce (hlookup _)) (.ensured hproviders .pure)

theorem parse_pipeOpened {c : PipeOpened} (h : (Content.pipeOpened c).BodyRules)
    (hrange : (Content.pipeOpened c).InRange) :
    readFields parsePipeOpened (normal (Content.pipeOpened c).toCbor) = .ok c := by
  rw [Content.toCbor_eq_slots rfl]
  refine readFields_slots _ (Content.keys_fieldSlots _) fun entries honce hlookup => ?_
  refine .field (accepts_bytes honce (hlookup _)) ?_
  refine .field (accepts_key honce (hlookup _)) ?_
  refine .field (accepts_key honce (hlookup _)) ?_
  refine .field (accepts_text honce (hlookup _)) (.ensured h.1 ?_)
  refine .field (accepts_text honce (hlookup _)) ?_
  refine .field (accepts_text honce (hlookup _)) ?_
  refine .field (accepts_text honce (hlookup _)) ?_
  refine .field (accepts_keyArray honce (hlookup _)) (.ensured h.2 ?_)
  exact .field (accepts_optUint honce (hlookup _) hrange) .pure

theorem parse_pipeClosed {c : PipeClosed} (h : (Content.pipeClosed c).BodyRules) :
    readFields parsePipeClosed (normal (Content.pipeClosed c).toCbor) = .ok c := by
  rw [Content.toCbor_eq_slots rfl]
  refine readFields_slots _ (Content.keys_fieldSlots _) fun entries honce hlookup => ?_
  refine .field (accepts_bytes honce (hlookup _)) ?_
  exact .field (accepts_optEnum honce (hlookup _) h) .pure

theorem parse_agentStatus {c : AgentStatus} (h : (Content.agentStatus c).BodyRules) :
    readFields parseAgentStatus (normal (Content.agentStatus c).toCbor) = .ok c := by
  obtain ⟨hstatus, hmessage, hids, hpct⟩ := h
  have hlt : ∀ pct, c.progressPct = some pct → pct < 2 ^ 64 := fun pct h => (hpct pct h).trans_lt (by decide)
  rw [Content.toCbor_eq_slots rfl]
  refine readFields_slots _ (Content.keys_fieldSlots _) fun entries honce hlookup => ?_
  refine .field (accepts_text honce (hlookup _)) (.ensured hstatus ?_)
  refine .field (accepts_optText honce (hlookup _)) (.ensured hmessage ?_)
  refine .field (.optional honce (hlookup _) fun ids _ => arrayOf_map fun _ _ => fixedBytes_eq_ok.mpr rfl) ?_
  exact .ensured hids (.field (accepts_optUint honce (hlookup _) hlt) (.ensured hpct .pure))

theorem sealedType_asStr {ty : EventType} {cap : Nat} (h : ty.maxEncryptedPlaintextBytes = some cap) :
    sealedType (.text ty.asStr) = .ok (ty, cap) := by
  cases ty <;> cases h <;> rfl

theorem parse_encrypted {c : EncryptedContent} {cap : Nat} (hcap : c.innerType.maxEncryptedPlaintextBytes = some cap)
    (hsuite : c.suite.toNat = encryptedSuiteV1) (hepoch : c.keyEpoch < 2 ^ 64)
    (hlen : encryptedTagLen ≤ c.ciphertext.length ∧ c.ciphertext.length ≤ cap + encryptedTagLen) :
    readFields parseEncrypted (normal (Content.encrypted c).toCbor) = .ok c := by
  have hlt : c.suite.toNat < 2 ^ 64 := c.suite.toNat_lt.trans (by decide)
  rw [Content.toCbor_eq_slots rfl]
  refine readFields_slots _ (Content.keys_fieldSlots _) fun entries honce hlookup => ?_
  refine .field (.required honce (hlookup _) (sealedType_asStr hcap)) ?_
  refine .field (accepts_uint honce (hlookup _) hepoch) ?_
  refine .field (accepts_uint honce (hlookup _) hlt) (.ensured hsuite ?_)
  refine .field (accepts_bytes honce (hlookup _)) ?_
  refine .field (.required honce (hlookup _) rfl) (.ensured hlen ?_)
  rw [UInt8.ofNat_toNat]
  exact .pure

end Fields

/-! ### What was read obeys the rules -/

namespace Fields

/-- Whatever the reader answers has the property. -/
def Yields {α : Type} (read : FieldReader α) (P : α → Prop) : Prop := ∀ f a f', read f = .ok (a, f') → P a

namespace Yields

variable {α β : Type} {read : FieldReader α} {next : α → FieldReader β} {P : β → Prop} {Q : α → Prop}

theorem pure {b : β} (h : P b) : Yields (Pure.pure b) P := by
  intro f a f' hread
  cases hread
  exact h

theorem field (hread : Yields read Q) (hnext : ∀ a, Q a → Yields (next a) P) : Yields (read >>= next) P := by
  intro f b f' h
  obtain ⟨⟨a, f₁⟩, hfirst, hsecond⟩ := bind_eq_ok_iff.mp h
  exact hnext a (hread f a f₁ hfirst) f₁ b f' hsecond

/-- Nothing is known of the field. -/
theorem any (hnext : ∀ a, Yields (next a) P) : Yields (read >>= next) P :=
  field (fun _ _ _ _ => trivial) fun a _ => hnext a

theorem ensured {c : Prop} [Decidable c] {rest : Unit → FieldReader β} (h : c → Yields (rest ()) P) :
    Yields (liftM (ensure c) >>= rest) P := by
  intro f b f' hread
  by_cases hc : c
  · rw [ensure, if_pos hc] at hread
    exact h hc f b f' hread
  · rw [ensure, if_neg hc] at hread
    cases hread

theorem optEnum (key : String) (allowed : List String) :
    Yields (Fields.optEnum key allowed) fun o => ∀ s, o = some s → s ∈ allowed :=
  any fun _ => ensured fun h => pure h

theorem readFields (hread : Yields read Q) {value : CborValue} {a : α} (h : IrohRooms.readFields read value = .ok a) :
    Q a := by
  obtain ⟨f, -, h⟩ := bind_eq_ok_iff.mp h
  obtain ⟨⟨a', f'⟩, hfields, h⟩ := bind_eq_ok_iff.mp h
  obtain ⟨-, -, h⟩ := bind_eq_ok_iff.mp h
  cases h
  exact hread f _ f' hfields

end Yields

theorem yields_messageText : Yields parseMessageText fun c => (Content.messageText c).BodyRules :=
  .any fun _ => .ensured fun hbody => .field (.optEnum _ _) fun _ hformat =>
    .any fun _ => .any fun _ => .pure ⟨hbody, hformat⟩

theorem yields_fileShared : Yields parseFileShared fun c => (Content.fileShared c).BodyRules :=
  .any fun _ => .any fun _ => .ensured fun hname => .any fun _ => .ensured fun hmime => .any fun _ =>
    .ensured fun hsize => .any fun _ => .field (.optEnum _ _) fun _ hformat => .any fun _ =>
    .ensured fun hproviders => .pure ⟨hname, hmime, hsize, hformat, hproviders⟩

theorem yields_pipeOpened : Yields parsePipeOpened fun c => (Content.pipeOpened c).BodyRules :=
  .any fun _ => .any fun _ => .any fun _ => .any fun _ => .ensured fun hkind => .any fun _ => .any fun _ =>
    .any fun _ => .any fun _ => .ensured fun hmembers => .any fun _ => .pure ⟨hkind, hmembers⟩

theorem yields_pipeClosed : Yields parsePipeClosed fun c => (Content.pipeClosed c).BodyRules :=
  .any fun _ => .field (.optEnum _ _) fun _ hreason => .pure hreason

theorem yields_agentStatus : Yields parseAgentStatus fun c => (Content.agentStatus c).BodyRules :=
  .any fun _ => .ensured fun hstatus => .any fun _ => .ensured fun hmessage => .any fun _ => .ensured fun hids =>
    .any fun _ => .ensured fun hpct => .pure ⟨hstatus, hmessage, hids, hpct⟩

end Fields

/-- The types that may be sealed. -/
theorem Content.bodyRules_of_parse {ty : EventType} {cap : Nat} (hty : ty.maxEncryptedPlaintextBytes = some cap)
    {value : CborValue} {c : Content} (h : Content.parse ty value = .ok c) : c.BodyRules := by
  cases ty with
  | messageText =>
    obtain ⟨c, hc, rfl⟩ := map_eq_ok_iff.mp h
    exact Fields.yields_messageText.readFields hc
  | fileShared =>
    obtain ⟨c, hc, rfl⟩ := map_eq_ok_iff.mp h
    exact Fields.yields_fileShared.readFields hc
  | pipeOpened =>
    obtain ⟨c, hc, rfl⟩ := map_eq_ok_iff.mp h
    exact Fields.yields_pipeOpened.readFields hc
  | pipeClosed =>
    obtain ⟨c, hc, rfl⟩ := map_eq_ok_iff.mp h
    exact Fields.yields_pipeClosed.readFields hc
  | agentStatus =>
    obtain ⟨c, hc, rfl⟩ := map_eq_ok_iff.mp h
    exact Fields.yields_agentStatus.readFields hc
  | _ => cases hty

/-- A body that obeys its rules is read back. -/
theorem Content.parse_toCbor {c : Content} (hrules : c.BodyRules) (hrange : c.InRange) :
    Content.parse c.eventType (normal c.toCbor) = .ok c := by
  cases c with
  | messageText c => exact map_eq_ok_iff.mpr ⟨c, Fields.parse_messageText hrules, rfl⟩
  | fileShared c => exact map_eq_ok_iff.mpr ⟨c, Fields.parse_fileShared hrules, rfl⟩
  | pipeOpened c => exact map_eq_ok_iff.mpr ⟨c, Fields.parse_pipeOpened hrules hrange, rfl⟩
  | pipeClosed c => exact map_eq_ok_iff.mpr ⟨c, Fields.parse_pipeClosed hrules, rfl⟩
  | agentStatus c => exact map_eq_ok_iff.mpr ⟨c, Fields.parse_agentStatus hrules, rfl⟩
  | _ => exact absurd hrules id

/-! ### Signed events -/

namespace SignedEvent

/-- The eight fields in canonical order, around a content value. -/
def canonical (e : SignedEvent) (content : CborValue) : List (String × CborValue) :=
  [("content", content), keyEntry "room_id" e.roomId, keyEntry "device_id" e.deviceId, keyEntry "sender_id" e.senderId,
    uintEntry "created_at" e.createdAt, textEntry "event_type" e.eventType.asStr,
    ("prev_events", normal (keyArray e.prevEvents)), uintEntry "schema_version" e.schemaVersion]

theorem fromRegistry_asStr (ty : EventType) : EventType.fromRegistry ty.asStr = some ty := by
  cases ty <;> rfl

theorem normal_header (e : SignedEvent) (content : CborValue) :
    normal (.map (e.header ++ [("content", content)])) = .map (e.canonical (normal content)) := by
  have honce : ["schema_version", "room_id", "sender_id", "device_id", "event_type", "created_at", "prev_events",
      "content"].Nodup := by decide
  have hascend : (["content", "room_id", "device_id", "sender_id", "created_at", "event_type", "prev_events",
      "schema_version"].map encodedKey).Pairwise (· < ·) := by decide
  have hperm : ((e.header ++ [("content", content)]).map fun x => (x.1, normal x.2)).Perm
      (e.canonical (normal content)) := by
    refine perm_of_mem honce (fun x hx => ?_) rfl
    simp only [header, canonical, List.cons_append, List.nil_append, List.map_cons, List.map_nil, List.mem_cons,
      List.not_mem_nil, or_false] at hx ⊢
    tauto
  rw [normal_map, sortKeys_perm hperm honce]
  exact congrArg CborValue.map (sortKeys_of_ascend ⟨hascend, fun _ hp => absurd hp (Option.not_mem_none _)⟩)

theorem fromCanonicalValue_canonical {e : SignedEvent} {content : CborValue} {entries : List (String × CborValue)}
    (hcontent : content.asMap = some entries) (hschema : e.schemaVersion = IrohRooms.schemaVersion)
    (hcreated : e.createdAt < 2 ^ 64) (hparse : Content.parse e.eventType content = .ok e.content) :
    fromCanonicalValue (.map (e.canonical content)) = .ok e := by
  obtain ⟨version, roomId, senderId, deviceId, eventType, createdAt, prevEvents, body⟩ := e
  obtain rfl : version = 1 := hschema
  have hkey : ∀ {kind : Kind} (x : Bytes32 kind), fixed32 .nonCanonicalEncoding (keyValue x) = .ok x :=
    fun x => fixed32_eq_ok.mpr rfl
  have hslots : List.foldlM readEntry ⟨none, none, none, none, none, none, none, none⟩
      (canonical ⟨1, roomId, senderId, deviceId, eventType, createdAt, prevEvents, body⟩ content) =
      .ok ⟨some 1, some roomId, some senderId, some deviceId, some eventType.asStr, some createdAt, some prevEvents,
        some content⟩ := by
    unfold canonical
    refine bind_eq_ok_iff.mpr ⟨_, bind_eq_ok_iff.mpr ⟨entries, okOr_eq_ok.mpr hcontent, rfl⟩, ?_⟩
    refine bind_eq_ok_iff.mpr ⟨_, bind_eq_ok_iff.mpr ⟨roomId, hkey roomId, rfl⟩, ?_⟩
    refine bind_eq_ok_iff.mpr ⟨_, bind_eq_ok_iff.mpr ⟨deviceId, hkey deviceId, rfl⟩, ?_⟩
    refine bind_eq_ok_iff.mpr ⟨_, bind_eq_ok_iff.mpr ⟨senderId, hkey senderId, rfl⟩, ?_⟩
    refine bind_eq_ok_iff.mpr ⟨_, bind_eq_ok_iff.mpr ⟨createdAt, uintOf_uintValue _ hcreated, rfl⟩, ?_⟩
    refine bind_eq_ok_iff.mpr ⟨_, bind_eq_ok_iff.mpr ⟨eventType.asStr, rfl, rfl⟩, ?_⟩
    refine bind_eq_ok_iff.mpr ⟨_, bind_eq_ok_iff.mpr ⟨prevEvents, arrayOf_keyArray _ prevEvents, rfl⟩, ?_⟩
    exact bind_eq_ok_iff.mpr ⟨_, bind_eq_ok_iff.mpr ⟨1, rfl, rfl⟩, rfl⟩
  refine bind_eq_ok_iff.mpr ⟨_, rfl, bind_eq_ok_iff.mpr ⟨_, hslots, ?_⟩⟩
  show (okOr (EventType.fromRegistry eventType.asStr) .unknownEventType >>= fun ty => _) = _
  rw [fromRegistry_asStr]
  show (Content.parse eventType content >>= fun c => _) = _
  rw [hparse]
  rfl

/-- An event is decoded from its signed bytes if its content is read back from its own value. -/
theorem decode_toCsb {e : SignedEvent} {entries : List (String × CborValue)} (hwithin : Within 2 e.content.toCbor)
    (hcontent : (normal e.content.toCbor).asMap = some entries) (hschema : e.schemaVersion = IrohRooms.schemaVersion)
    (hcreated : e.createdAt < 2 ^ 64) (hparse : Content.parse e.eventType (normal e.content.toCbor) = .ok e.content)
    (hfits : e.toCsb.length ≤ usizeMax) : decode e.toCsb = .ok e := by
  have honce : ["schema_version", "room_id", "sender_id", "device_id", "event_type", "created_at", "prev_events",
      "content"].Nodup := by decide
  have hshape : Within 3 (.map (e.header ++ [("content", e.content.toCbor)])) := by
    refine within_map honce fun x hx => ?_
    simp only [header, List.cons_append, List.nil_append, List.mem_cons, List.not_mem_nil, or_false] at hx
    rcases hx with rfl | rfl | rfl | rfl | rfl | rfl | rfl | rfl
    · exact within_uint 2 _
    · exact within_bytes 2 _
    · exact within_bytes 2 _
    · exact within_bytes 2 _
    · exact within_text 2 _
    · exact within_uint 2 _
    · exact (within_list fun _ _ => within_bytes 0 _).mono (by decide)
    · exact hwithin
  have hvalue : decodeCanonical e.toCsb = .ok (.map (e.canonical (normal e.content.toCbor))) := by
    rw [← normal_header]
    exact decodeCanonical_encode (hshape.mono (by decide)) hfits
  rw [decode, hvalue]
  exact fromCanonicalValue_canonical hcontent hschema hcreated hparse

end SignedEvent

end IrohRooms
