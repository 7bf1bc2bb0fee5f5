import IrohRooms.Event.ContentExact

/-!
# Signed events and their bytes

Writing a decoded event gives its bytes back, except for wrapped keys: these are read in whatever order they come and with
whatever else their records hold, and written in the order of the devices with three keys each. So an event is written
back exactly if its wrapped keys are in that form (`toCsb_eq_iff`).
-/

namespace IrohRooms

open Cbor Fields

namespace Cbor

/-- Canonical values are told apart by their encodings. -/
theorem encode_inj {v w : CborValue} (hv : Ordered v) (hw : Ordered w) (hfits : (encode v).length ≤ usizeMax)
    (h : encode v = encode w) : v = w := by
  have hreads : Reads ⟨encode v, 0⟩ (encode v) ⟨encode v, (encode v).length⟩ :=
    ⟨rfl, (Nat.zero_add _).symm, ⟨le_rfl, hfits⟩, List.take_length⟩
  have hread : ∀ u, Ordered u → encode u = encode v → depth u ≤ max (depth v) (depth w) →
      Reader.readValue (max (depth v) (depth w) + 1) ⟨encode v, 0⟩ = .ok (u, ⟨encode v, (encode v).length⟩) := by
    intro u hu hsame hdepth
    refine readValue_eq_ok.mpr ⟨⟨Nat.lt_succ_of_le hdepth, hu⟩, ?_⟩
    rw [hsame]
    exact hreads
  have hfirst := hread v hv rfl (le_max_left _ _)
  rw [hread w hw h.symm (le_max_right _ _)] at hfirst
  cases hfirst
  rfl

theorem length_le_flatMap {α : Type} {f : α → Bytes} {l : List α} {x : α} (h : x ∈ l) :
    (f x).length ≤ (l.flatMap f).length := by
  obtain ⟨before, after, rfl⟩ := List.append_of_mem h
  rw [List.flatMap_append, List.flatMap_cons, List.length_append, List.length_append]
  omega

theorem length_encode_entry_le {entries : List (String × CborValue)} {e : String × CborValue} (h : e ∈ entries) :
    (encode e.2).length ≤ (encode (.map entries)).length := by
  have hmem : (encodedKey e.1, encode e.2) ∈ sortEntries ((render entries).map fun e => (encodedKey e.1, e.2)) := by
    refine (List.perm_insertionSort _ _).mem_iff.mpr (List.mem_map.mpr ⟨(e.1, encode e.2), ?_, rfl⟩)
    exact List.mem_map.mpr ⟨e, h, rfl⟩
  have hlen := length_le_flatMap (f := fun e : Bytes × Bytes => e.1 ++ e.2) hmem
  rw [encode_map_eq, mapBytes, List.length_append]
  simp only [List.length_append] at hlen
  omega

end Cbor

/-! ### Maps that differ in one value -/

/-- Of a map that is written back up to one value, no key is written twice, and it is written back exactly if that value
is. -/
theorem mapBytes_iff {entries rest written : List (String × CborValue)} {k : String} {v w : CborValue}
    (honce : KeysOnce (render entries)) (hperm : entries.Perm (rest ++ [(k, v)])) (hrest : render rest = render written) :
    KeysOnce (render (written ++ [(k, w)])) ∧
      (mapBytes (render (written ++ [(k, w)])) = encode (.map entries) ↔ encode w = encode v) := by
  have hentries : (render entries).Perm ((k, encode v) :: render written) := by
    have hmoved : (render entries).Perm (render (rest ++ [(k, v)])) := hperm.map _
    rw [render_append, hrest] at hmoved
    exact hmoved.trans List.perm_append_comm
  have hwritten : (render (written ++ [(k, w)])).Perm ((k, encode w) :: render written) := by
    rw [render_append]
    exact List.perm_append_comm
  have honce' : KeysOnce ((k, encode v) :: render written) := honce.perm hentries
  have hkeys : KeysOnce (render (written ++ [(k, w)])) :=
    KeysOnce.perm (show KeysOnce ((k, encode w) :: render written) from honce') hwritten.symm
  refine ⟨hkeys, ?_⟩
  rw [encode_map_eq, mapBytes_perm hentries honce, mapBytes_perm hwritten hkeys, mapBytes_cons_inj]

/-! ### Wrapped keys -/

/-- The number of the device that an item of the array names. -/
def itemDevice : CborValue → Nat
  | .array [.bytes device, _] => fromBeBytes device
  | _ => 0

/-- How many fields the record of an item has. -/
def itemFields : CborValue → Nat
  | .array [_, .map record] => record.length
  | _ => 0

/-- The recipients stand in the order of their devices, with nothing but the three fields in a record. -/
def Tidy (items : List CborValue) : Prop :=
  (items.map itemDevice).Pairwise (· ≤ ·) ∧ ∀ item ∈ items, itemFields item = 3

instance (items : List CborValue) : Decidable (Tidy items) := inferInstanceAs (Decidable (_ ∧ _))

/-- A recipient as it is written. -/
def writtenKey (p : DeviceKey × WrappedKeyEntry) : CborValue := .array [keyValue p.1, wrappedKeyRecord p.2]

/-- A recipient with the fields of its record in canonical order. -/
def canonicalKey (p : DeviceKey × WrappedKeyEntry) : CborValue :=
  .array [keyValue p.1, .map [("nonce", bytesValue (n := 12) p.2.nonce), ("ciphertext", bytesValue (n := 48) p.2.ciphertext),
    ("ephemeral_public", bytesValue (n := 32) p.2.ephemeralPublic)]]

theorem encode_pair {v w w' : CborValue} (h : encode w = encode w') : encode (.array [v, w]) = encode (.array [v, w']) :=
  encode_array_congr (.cons rfl (.cons h .nil))

theorem encode_canonicalKey (p : DeviceKey × WrappedKeyEntry) : encode (writtenKey p) = encode (canonicalKey p) := by
  have hkeys : ["ephemeral_public", "nonce", "ciphertext"].Nodup := by decide
  refine encode_pair (encode_map_of_mem hkeys (fun e he => ?_) rfl)
  simp only [List.mem_cons] at he ⊢
  tauto

theorem recordKeys_ascend : (["nonce", "ciphertext", "ephemeral_public"].map encodedKey).Pairwise (· < ·) := by
  decide

theorem ordered_canonicalKey (p : DeviceKey × WrappedKeyEntry) : Ordered (canonicalKey p) :=
  ⟨trivial, ⟨recordKeys_ascend, trivial, trivial, trivial, trivial⟩, trivial⟩

theorem itemDevice_pair (device : DeviceKey) (v : CborValue) : itemDevice (.array [keyValue device, v]) = device.num := by
  have hlt : device.num < 256 ^ 32 := by
    rw [← two_pow_eight_mul]
    exact device.bits.isLt
  show fromBeBytes (beBytes 32 device.num) = device.num
  rw [fromBeBytes_beBytes, Nat.mod_eq_of_lt hlt]

theorem mem_of_lookup {entries : List (String × CborValue)} {k : String} {v : CborValue}
    (h : entries.lookup k = some v) : (k, v) ∈ entries := by
  obtain ⟨before, after, rfl, -⟩ := List.lookup_eq_some_iff.mp h
  simp

/-- A recipient that is read has at least the three fields of its record. -/
theorem parseWrappedKey_eq_ok {item : CborValue} {p : DeviceKey × WrappedKeyEntry} (h : parseWrappedKey item = .ok p) :
    ∃ record, item = .array [keyValue p.1, .map record] ∧
      (record.length = 3 → encode (writtenKey p) = encode item) := by
  obtain ⟨pair, hpair, h⟩ := bind_eq_ok_iff.mp h
  rw [okOr_eq_ok, asArray_eq_some] at hpair
  split at h
  case h_2 => cases h
  obtain ⟨device, hdevice, h⟩ := bind_eq_ok_iff.mp h
  obtain ⟨record, hrecord, h⟩ := bind_eq_ok_iff.mp h
  obtain ⟨v₁, hv₁, h⟩ := bind_eq_ok_iff.mp h
  obtain ⟨ephemeralPublic, hephemeral, h⟩ := bind_eq_ok_iff.mp h
  obtain ⟨v₂, hv₂, h⟩ := bind_eq_ok_iff.mp h
  obtain ⟨nonce, hnonce, h⟩ := bind_eq_ok_iff.mp h
  obtain ⟨v₃, hv₃, h⟩ := bind_eq_ok_iff.mp h
  obtain ⟨ciphertext, hciphertext, h⟩ := bind_eq_ok_iff.mp h
  cases h
  rw [okOr_eq_ok] at hrecord hv₁ hv₂ hv₃
  rw [fixed32_eq_ok] at hdevice
  rw [asMap_eq_some] at hrecord
  rw [fixedBytes_eq_ok] at hephemeral hnonce hciphertext
  subst hpair hdevice hrecord hephemeral hnonce hciphertext
  refine ⟨record, rfl, fun hlen => encode_pair ?_⟩
  have hkeys : ["ephemeral_public", "nonce", "ciphertext"].Nodup := by decide
  refine encode_map_of_mem hkeys (fun e he => ?_) hlen
  simp only [List.mem_cons, List.not_mem_nil, or_false] at he
  rcases he with rfl | rfl | rfl
  · exact mem_of_lookup hv₁
  · exact mem_of_lookup hv₂
  · exact mem_of_lookup hv₃

theorem encode_wrappedKeysToCbor (keys : List (DeviceKey × WrappedKeyEntry)) :
    encode (wrappedKeysToCbor keys) =
      encode (.array ((keys.insertionSort fun a b => a.1 ≤ b.1).map canonicalKey)) := by
  refine encode_array_congr ?_
  rw [List.forall₂_map_left_iff, List.forall₂_map_right_iff]
  exact List.forall₂_same.mpr fun p _ => encode_canonicalKey p

instance : Std.Total fun a b : DeviceKey × WrappedKeyEntry => a.1 ≤ b.1 := ⟨fun a b => le_total a.1 b.1⟩

instance : IsTrans (DeviceKey × WrappedKeyEntry) fun a b => a.1 ≤ b.1 := ⟨fun _ _ _ => le_trans⟩

/-- Wrapped keys that are written as canonical items are tidy. -/
theorem tidy_canonical {keys : List (DeviceKey × WrappedKeyEntry)} (h : keys.Pairwise fun a b => a.1 ≤ b.1) :
    Tidy (keys.map canonicalKey) := by
  refine ⟨?_, fun item hitem => ?_⟩
  · rw [List.map_map, List.pairwise_map]
    refine h.imp fun {a b} hab => ?_
    rw [Function.comp_apply, Function.comp_apply, canonicalKey, canonicalKey, itemDevice_pair, itemDevice_pair]
    exact hab
  · obtain ⟨p, -, rfl⟩ := List.mem_map.mp hitem
    rfl

/-- Tidy items name their devices in the order the keys are sorted by. -/
theorem pairwise_of_tidy {items : List CborValue} {keys : List (DeviceKey × WrappedKeyEntry)}
    (hread : List.Forall₂ (fun v p => parseWrappedKey v = .ok p) items keys)
    (h : (items.map itemDevice).Pairwise (· ≤ ·)) : keys.Pairwise fun a b => a.1 ≤ b.1 := by
  have hdevices : items.map itemDevice = keys.map fun p => p.1.num := by
    refine List.forall₂_eq_eq_eq ▸ ?_
    rw [List.forall₂_map_left_iff, List.forall₂_map_right_iff]
    refine hread.imp fun item p hp => ?_
    obtain ⟨record, rfl, -⟩ := parseWrappedKey_eq_ok hp
    exact itemDevice_pair _ _
  rw [hdevices, List.pairwise_map] at h
  exact h

/-- Wrapped keys are written back exactly if they are tidy. -/
theorem encode_wrappedKeys_iff {v : CborValue} {keys : List (DeviceKey × WrappedKeyEntry)} (hv : Ordered v)
    (hfits : (encode v).length ≤ usizeMax) (h : parseWrappedKeys v = .ok keys) :
    ∃ items, v = .array items ∧ (encode (wrappedKeysToCbor keys) = encode v ↔ Tidy items) := by
  obtain ⟨items, rfl, hread⟩ := arrayOf_eq_ok _ h
  refine ⟨items, rfl, ?_⟩
  constructor
  · intro hsame
    rw [encode_wrappedKeysToCbor] at hsame
    have hordered : Ordered (.array ((keys.insertionSort fun a b => a.1 ≤ b.1).map canonicalKey)) := by
      refine orderedItems_iff.mpr fun item hitem => ?_
      obtain ⟨p, -, rfl⟩ := List.mem_map.mp hitem
      exact ordered_canonicalKey p
    have hitems := encode_inj hv hordered hfits hsame.symm
    rw [CborValue.array.inj hitems]
    exact tidy_canonical (List.pairwise_insertionSort _ _)
  · intro htidy
    have hsorted := (pairwise_of_tidy hread htidy.1).insertionSort_eq
    unfold wrappedKeysToCbor
    rw [hsorted]
    refine encode_array_congr ?_
    rw [List.forall₂_map_left_iff]
    refine ((List.forall₂_and_left _ _).mpr ⟨htidy.2, hread⟩).flip.imp fun p item ⟨hfields, hp⟩ => ?_
    obtain ⟨record, rfl, hsame⟩ := parseWrappedKey_eq_ok hp
    exact hsame hfields

/-! ### Contents with wrapped keys -/

/-- The value under a key of a map. -/
def valueAt (k : String) (v : CborValue) : Option CborValue := v.asMap.bind fun entries => entries.lookup k

/-- The recipients that a key distribution lists. -/
def recipients (distribution : CborValue) : List CborValue :=
  ((valueAt "wrapped_keys" distribution).bind CborValue.asArray).getD []

/-- The recipients listed in a content map: those of a key distribution, or of the rotation of a removal. -/
def wrappedItems (content : CborValue) : List CborValue := recipients ((valueAt "rotation" content).getD content)

theorem valueAt_of_mem {entries : List (String × CborValue)} (honce : KeysOnce (render entries)) {k : String}
    {v : CborValue} (h : (k, v) ∈ entries) : valueAt k (.map entries) = some v :=
  (lookup_eq_some_of_once (keysOnce_iff.mp honce)).mpr h

theorem valueAt_eq_none {entries : List (String × CborValue)} {k : String} (h : ∀ e ∈ entries, e.1 ≠ k) :
    valueAt k (.map entries) = none := by
  refine List.lookup_eq_none_iff.mpr fun e he => ?_
  simpa using Ne.symm (h e he)

theorem asks_memberKeyDistribution :
    Asks parseMemberKeyDistribution ["new_epoch", "key_commitment", "wrapped_keys"] fun d out => ∃ rest v,
      out = rest ++ [("wrapped_keys", v)] ∧ parseWrappedKeys v = .ok d.wrappedKeys ∧
      render rest = render [uintEntry "new_epoch" d.newEpoch, ("key_commitment", bytesValue (n := 32) d.keyCommitment)] := by
  refine Asks.bind (renders_requireUint _) fun newEpoch out hepoch => ?_
  refine Asks.bind (renders_requireBytes _ 32) fun keyCommitment out' hcommitment => ?_
  refine Asks.bind (asks_requireWith _) fun wrappedKeys out'' hwrapped => ?_
  obtain ⟨v, hv, rfl⟩ := hwrapped
  refine Asks.pure ⟨out ++ out', v, by simp, hv, ?_⟩
  dsimp only at hepoch hcommitment
  rw [render_append, hepoch, hcommitment]
  rfl

/-- A key distribution is written back exactly if its recipients are tidy. -/
theorem encode_distribution_iff {v : CborValue} {d : MemberKeyDistribution} (hv : Ordered v)
    (hfits : (encode v).length ≤ usizeMax) (h : parseMemberKeyDistributionValue v = .ok d) :
    (encode d.toCbor = encode v ↔ Tidy (recipients v)) ∧ valueAt "rotation" v = none := by
  obtain ⟨entries, rfl, hkeys, hperm, rest, w, hout, hw, hrest⟩ :=
    readFields_eq_ok asks_memberKeyDistribution (by decide) hv h
  have honce := keysOnce_of_ordered hv
  rw [hout] at hperm
  have hmem : ("wrapped_keys", w) ∈ entries := hperm.mem_iff.mpr (List.mem_append_right _ List.mem_cons_self)
  have hordered : Ordered w := orderedEntries_iff.mp hv.2 _ hmem
  have hlen : (encode w).length ≤ usizeMax := (length_encode_entry_le hmem).trans hfits
  obtain ⟨hwritten, hiff⟩ := mapBytes_iff (w := wrappedKeysToCbor d.wrappedKeys) honce hperm hrest
  refine ⟨?_, valueAt_eq_none fun e he heq => ?_⟩
  · have hcbor : encode d.toCbor = _ := encode_sortIntoMap hwritten
    obtain ⟨items, rfl, hitems⟩ := encode_wrappedKeys_iff hordered hlen hw
    rw [recipients, valueAt_of_mem honce hmem, hcbor]
    exact hiff.trans hitems
  · have := hkeys e he
    rw [heq] at this
    revert this
    decide

/-- The entries that a removal is written with before its rotation. -/
def MemberRemoved.head (c : MemberRemoved) : List (String × CborValue) :=
  [keyEntry "member_id" c.memberId, keyEntry "removed_by" c.removedBy] ++ pushOptText "reason" c.reason ++
    pushOpt (fun b => ("device_binding", b.toCbor)) c.deviceBinding

theorem asks_memberRemoved :
    Asks parseMemberRemoved ["member_id", "removed_by", "reason", "device_binding", "rotation"] fun c out => ∃ rest,
      render rest = render c.head ∧
      ((c.rotation = none ∧ out = rest) ∨
        ∃ v d, parseMemberKeyDistributionValue v = .ok d ∧ c.rotation = some d ∧ out = rest ++ [("rotation", v)]) := by
  refine Asks.bind (renders_requireKey _) fun memberId out₁ h₁ => ?_
  refine Asks.bind (renders_requireKey _) fun removedBy out₂ h₂ => ?_
  refine Asks.bind (renders_optText _) fun reason out₃ h₃ => ?_
  refine Asks.bind (renders_optional _ DeviceBinding.exact_fromCbor) fun deviceBinding out₄ h₄ => ?_
  refine Asks.bind (asks_optWith _) fun rotation out₅ hrotation => ?_
  refine Asks.pure ⟨out₁ ++ out₂ ++ out₃ ++ out₄, ?_, ?_⟩
  · dsimp only at h₁ h₂ h₃ h₄
    rw [render_append, render_append, render_append, h₁, h₂, h₃, h₄]
    simp [MemberRemoved.head]
  · rcases hrotation with ⟨rfl, rfl⟩ | ⟨v, d, hd, rfl, rfl⟩
    · exact Or.inl ⟨rfl, by simp⟩
    · exact Or.inr ⟨v, d, hd, rfl, by simp⟩

theorem head_no_rotation {rest : List (String × CborValue)} {c : MemberRemoved} (h : render rest = render c.head) :
    ∀ e ∈ rest, e.1 ≠ "rotation" := by
  intro e he heq
  have hmem : "rotation" ∈ (render rest).map Prod.fst :=
    List.mem_map.mpr ⟨(e.1, encode e.2), List.mem_map.mpr ⟨e, he, rfl⟩, heq⟩
  rw [h] at hmem
  cases hreason : c.reason <;> cases hbinding : c.deviceBinding <;>
    simp [MemberRemoved.head, hreason, hbinding, pushOptText, pushOpt, keyEntry, textEntry] at hmem

theorem tidy_nil : Tidy [] := by decide

/-- A removal is written back exactly if the recipients of its rotation are tidy. -/
theorem encode_removed_iff {value : CborValue} {c : MemberRemoved} (hvalue : Ordered value)
    (hfits : (encode value).length ≤ usizeMax) (h : readFields parseMemberRemoved value = .ok c) :
    encode (Content.memberRemoved c).toCbor = encode value ↔ Tidy (wrappedItems value) := by
  obtain ⟨entries, rfl, hkeys, hperm, rest, hrest, hrotation⟩ :=
    readFields_eq_ok asks_memberRemoved (by decide) hvalue h
  have honce := keysOnce_of_ordered hvalue
  have hwrapped : valueAt "wrapped_keys" (.map entries) = none := by
    refine valueAt_eq_none fun e he heq => ?_
    have := hkeys e he
    rw [heq] at this
    revert this
    decide
  rcases hrotation with ⟨hnone, hout⟩ | ⟨w, d, hd, hsome, hout⟩
  · rw [hout] at hperm
    have habsent : valueAt "rotation" (.map entries) = none :=
      valueAt_eq_none fun e he => head_no_rotation hrest e (hperm.mem_iff.mp he)
    have hrender : (render entries).Perm (render rest) := hperm.map _
    rw [hrest] at hrender
    have hcbor := encode_sortIntoMap (honce.perm hrender)
    rw [← mapBytes_perm hrender honce, ← encode_map_eq] at hcbor
    have hwritten : (Content.memberRemoved c).toCbor = sortIntoMap c.head := by
      rw [Content.toCbor, hnone]
      exact congrArg sortIntoMap (List.append_nil _)
    rw [hwritten, wrappedItems, habsent, Option.getD_none, recipients, hwrapped]
    exact iff_of_true hcbor tidy_nil
  · rw [hout] at hperm
    have hmem : ("rotation", w) ∈ entries := hperm.mem_iff.mpr (List.mem_append_right _ List.mem_cons_self)
    have hordered : Ordered w := orderedEntries_iff.mp hvalue.2 _ hmem
    have hlen : (encode w).length ≤ usizeMax := (length_encode_entry_le hmem).trans hfits
    obtain ⟨hwritten, hiff⟩ := mapBytes_iff (w := d.toCbor) honce hperm hrest
    have hcbor := encode_sortIntoMap hwritten
    rw [Content.toCbor, hsome, wrappedItems, valueAt_of_mem honce hmem]
    exact (Eq.congr_left hcbor).trans (hiff.trans (encode_distribution_iff hordered hlen hd).1)

/-- A content is written back exactly if the recipients it lists are tidy. -/
theorem encode_content_iff {ty : EventType} {value : CborValue} {content : Content} (hvalue : Ordered value)
    (hfits : (encode value).length ≤ usizeMax) (h : Content.parse ty value = .ok content) :
    encode content.toCbor = encode value ↔ Tidy (wrappedItems value) := by
  by_cases hplain : ty.plain = true
  · obtain ⟨hsame, entries, rfl, hkeys⟩ := exact_parse hplain hvalue h
    have hwrapped := valueAt_eq_none fun e he => (hkeys e he).1
    have hrotation := valueAt_eq_none fun e he => (hkeys e he).2
    rw [wrappedItems, hrotation, Option.getD_none, recipients, hwrapped]
    exact iff_of_true hsame tidy_nil
  · cases ty <;> simp [EventType.plain] at hplain
    · obtain ⟨c, hc, rfl⟩ := map_eq_ok_iff.mp h
      exact encode_removed_iff hvalue hfits hc
    · obtain ⟨d, hd, rfl⟩ := map_eq_ok_iff.mp h
      obtain ⟨hiff, hrotation⟩ := encode_distribution_iff hvalue hfits hd
      rw [wrappedItems, hrotation]
      exact hiff

/-! ### Signed events -/

namespace SignedEvent

/-- Whatever a slot holds stood in the map. -/
structure Slots.Found (s : Slots) (entries : List (String × CborValue)) : Prop where
  schemaVersion : ∀ n, s.schemaVersion = some n → uintEntry "schema_version" n ∈ entries
  roomId : ∀ k, s.roomId = some k → keyEntry "room_id" k ∈ entries
  senderId : ∀ k, s.senderId = some k → keyEntry "sender_id" k ∈ entries
  deviceId : ∀ k, s.deviceId = some k → keyEntry "device_id" k ∈ entries
  eventType : ∀ t, s.eventType = some t → textEntry "event_type" t ∈ entries
  createdAt : ∀ n, s.createdAt = some n → uintEntry "created_at" n ∈ entries
  prevEvents : ∀ ids, s.prevEvents = some ids → ("prev_events", keyArray ids) ∈ entries
  content : ∀ v, s.content = some v → ("content", v) ∈ entries

theorem arrayOf_fixed32_eq_ok {kind : Kind} {reason : RejectReason} {v : CborValue} {l : List (Bytes32 kind)}
    (h : arrayOf reason (fixed32 reason) v = .ok l) : v = keyArray l := by
  obtain ⟨items, rfl, hread⟩ := arrayOf_eq_ok reason h
  have hitems : List.Forall₂ (· = ·) items (l.map keyValue) := by
    rw [List.forall₂_map_right_iff]
    exact hread.imp fun v x hx => fixed32_eq_ok.mp hx
  rw [List.forall₂_eq_eq_eq] at hitems
  rw [hitems, keyArray]

theorem readEntry_found {entries : List (String × CborValue)} {s s' : Slots} {e : String × CborValue} (he : e ∈ entries)
    (hs : s.Found entries) (h : readEntry s e = .ok s') : s'.Found entries := by
  obtain ⟨key, v⟩ := e
  unfold readEntry at h
  dsimp only at h
  split at h
  · obtain ⟨n, hn, h⟩ := bind_eq_ok_iff.mp h
    cases h
    rw [uintOf_eq_ok hn] at he
    exact { hs with schemaVersion := fun n' hn' => Option.some.inj hn' ▸ he }
  · obtain ⟨k, hk, h⟩ := bind_eq_ok_iff.mp h
    cases h
    rw [fixed32_eq_ok.mp hk] at he
    exact { hs with roomId := fun k' hk' => Option.some.inj hk' ▸ he }
  · obtain ⟨k, hk, h⟩ := bind_eq_ok_iff.mp h
    cases h
    rw [fixed32_eq_ok.mp hk] at he
    exact { hs with senderId := fun k' hk' => Option.some.inj hk' ▸ he }
  · obtain ⟨k, hk, h⟩ := bind_eq_ok_iff.mp h
    cases h
    rw [fixed32_eq_ok.mp hk] at he
    exact { hs with deviceId := fun k' hk' => Option.some.inj hk' ▸ he }
  · obtain ⟨t, ht, h⟩ := bind_eq_ok_iff.mp h
    cases h
    rw [textOf_eq_ok.mp ht] at he
    exact { hs with eventType := fun t' ht' => Option.some.inj ht' ▸ he }
  · obtain ⟨n, hn, h⟩ := bind_eq_ok_iff.mp h
    cases h
    rw [uintOf_eq_ok hn] at he
    exact { hs with createdAt := fun n' hn' => Option.some.inj hn' ▸ he }
  · obtain ⟨ids, hids, h⟩ := bind_eq_ok_iff.mp h
    cases h
    rw [arrayOf_fixed32_eq_ok hids] at he
    exact { hs with prevEvents := fun ids' hids' => Option.some.inj hids' ▸ he }
  · obtain ⟨_, -, h⟩ := bind_eq_ok_iff.mp h
    cases h
    exact { hs with content := fun v' hv' => Option.some.inj hv' ▸ he }
  · cases h

/-- All fields of an event but its content, as they are written. -/
def header (e : SignedEvent) : List (String × CborValue) :=
  [uintEntry "schema_version" e.schemaVersion, keyEntry "room_id" e.roomId, keyEntry "sender_id" e.senderId,
    keyEntry "device_id" e.deviceId, textEntry "event_type" e.eventType.asStr, uintEntry "created_at" e.createdAt,
    ("prev_events", keyArray e.prevEvents)]

/-- A map that is read as an event consists of its header and a content that is parsed at the event's type. -/
theorem fromCanonicalValue_eq_ok {value : CborValue} {e : SignedEvent} (h : fromCanonicalValue value = .ok e) :
    ∃ entries contentVal, value = .map entries ∧ entries.Perm (e.header ++ [("content", contentVal)]) ∧
      Content.parse e.eventType contentVal = .ok e.content ∧ e.schemaVersion = IrohRooms.schemaVersion := by
  obtain ⟨entries, hentries, h⟩ := bind_eq_ok_iff.mp h
  split_ifs at h with hlen
  obtain ⟨s, hs, h⟩ := bind_eq_ok_iff.mp h
  obtain ⟨version, hversion, h⟩ := bind_eq_ok_iff.mp h
  obtain ⟨roomId, hroom, h⟩ := bind_eq_ok_iff.mp h
  obtain ⟨senderId, hsender, h⟩ := bind_eq_ok_iff.mp h
  obtain ⟨deviceId, hdevice, h⟩ := bind_eq_ok_iff.mp h
  obtain ⟨typeStr, htype, h⟩ := bind_eq_ok_iff.mp h
  obtain ⟨createdAt, hcreated, h⟩ := bind_eq_ok_iff.mp h
  obtain ⟨prevEvents, hprev, h⟩ := bind_eq_ok_iff.mp h
  obtain ⟨contentVal, hcontent, h⟩ := bind_eq_ok_iff.mp h
  split_ifs at h with hschema
  obtain ⟨ty, hty, h⟩ := bind_eq_ok_iff.mp h
  obtain ⟨content, hparse, h⟩ := bind_eq_ok_iff.mp h
  cases h
  rw [okOr_eq_ok] at hentries hversion hroom hsender hdevice htype hcreated hprev hcontent hty
  have hnone : Slots.Found ⟨none, none, none, none, none, none, none, none⟩ entries := by
    constructor <;> simp
  have hfound : s.Found entries := foldlM_invariant (fun _ _ _ he hs h => readEntry_found he hs h) hnone hs
  refine ⟨entries, contentVal, asMap_eq_some.mp hentries, ?_, hparse, not_not.mp hschema⟩
  have hkeys : ["schema_version", "room_id", "sender_id", "device_id", "event_type", "created_at", "prev_events",
      "content"].Nodup := by decide
  refine (perm_of_mem ?_ (fun e he => ?_) (not_not.mp hlen)).symm
  · exact hkeys
  simp only [header, List.cons_append, List.nil_append, List.mem_cons, List.not_mem_nil, or_false] at he
  rcases he with rfl | rfl | rfl | rfl | rfl | rfl | rfl | rfl
  · exact hfound.schemaVersion _ hversion
  · exact hfound.roomId _ hroom
  · exact hfound.senderId _ hsender
  · exact hfound.deviceId _ hdevice
  · rw [registry_asStr hty]
    exact hfound.eventType _ htype
  · exact hfound.createdAt _ hcreated
  · exact hfound.prevEvents _ hprev
  · exact hfound.content _ hcontent

theorem toCsb_eq (e : SignedEvent) : e.toCsb = mapBytes (render (e.header ++ [("content", e.content.toCbor)])) :=
  encode_map_eq _

/-- The recipients that the content of a signed value lists are tidy. -/
def TidyKeys (signed : Bytes) : Prop :=
  ∀ v content, decodeCanonical signed = .ok v → valueAt "content" v = some content → Tidy (wrappedItems content)

theorem tidyKeys_iff {signed : Bytes} {v content : CborValue} (hv : decodeCanonical signed = .ok v)
    (hcontent : valueAt "content" v = some content) : TidyKeys signed ↔ Tidy (wrappedItems content) := by
  refine ⟨fun htidy => htidy _ _ hv hcontent, fun htidy v' content' hv' hcontent' => ?_⟩
  rw [hv] at hv'
  cases hv'
  rw [hcontent] at hcontent'
  cases hcontent'
  exact htidy

theorem decode_of_canonical {signed : Bytes} {v : CborValue} {e : SignedEvent} (hv : decodeCanonical signed = .ok v)
    (he : fromCanonicalValue v = .ok e) : decode signed = .ok e := by
  rw [decode, hv]
  exact he

theorem toCsb_eq_iff {signed : Bytes} {e : SignedEvent} (h : decode signed = .ok e) :
    e.toCsb = signed ↔ TidyKeys signed := by
  unfold decode at h
  cases hvalue : decodeCanonical signed with
  | error reason =>
    rw [hvalue] at h
    cases h
  | ok value =>
    rw [hvalue] at h
    obtain ⟨hencodable, hsigned⟩ := decodeCanonical_eq_ok.mp hvalue
    obtain ⟨entries, contentVal, rfl, hperm, hparse, -⟩ := fromCanonicalValue_eq_ok h
    have honce := keysOnce_of_ordered hencodable.ordered
    have hmem : ("content", contentVal) ∈ entries :=
      hperm.mem_iff.mpr (List.mem_append_right _ List.mem_cons_self)
    have hordered : Ordered contentVal := orderedEntries_iff.mp hencodable.ordered.2 _ hmem
    have hfits : (encode contentVal).length ≤ usizeMax := (length_encode_entry_le hmem).trans hencodable.fits
    have hcontent := encode_content_iff hordered hfits hparse
    rw [toCsb_eq, tidyKeys_iff hvalue (valueAt_of_mem honce hmem), ← hsigned]
    exact (mapBytes_iff honce hperm rfl).2.trans hcontent

/-- A decoded event is written back to the bytes it came from exactly if the recipients it lists are tidy; so among tidy
bytes the event determines the bytes. -/
theorem decode_toCsb_iff {signed : Bytes} {e : SignedEvent} (h : decode signed = .ok e) :
    (e.toCsb = signed ↔ TidyKeys signed) ∧
      (TidyKeys signed → ∀ other, decode other = .ok e → TidyKeys other → other = signed) := by
  refine ⟨toCsb_eq_iff h, fun htidy other hother htidy' => ?_⟩
  rw [← (toCsb_eq_iff h).mpr htidy, ← (toCsb_eq_iff hother).mpr htidy']

namespace Toy

def item (device : Nat) (extra : List (String × CborValue)) : CborValue :=
  .array [keyValue (Bytes32.ofNat device : DeviceKey), .map (extra ++ [("nonce", bytesValue (n := 12) 3),
    ("ciphertext", bytesValue (n := 48) 4), ("ephemeral_public", bytesValue (n := 32) 5)])]

/-- The signed value of a key distribution with the given recipients. -/
def value (items : List CborValue) : CborValue :=
  .map [("content", .map [uintEntry "new_epoch" 1, ("wrapped_keys", .array items),
      ("key_commitment", bytesValue (n := 32) 6)]),
    keyEntry "room_id" (Bytes32.ofNat 7 : RoomId), keyEntry "device_id" (Bytes32.ofNat 8 : DeviceKey),
    keyEntry "sender_id" (Bytes32.ofNat 9 : IdentityKey), uintEntry "created_at" 10,
    textEntry "event_type" "member.key_distribution", ("prev_events", keyArray ([Bytes32.ofNat 11] : List EventId)),
    uintEntry "schema_version" 1]

def event (devices : List Nat) : SignedEvent :=
  { schemaVersion := 1, roomId := Bytes32.ofNat 7, senderId := Bytes32.ofNat 9, deviceId := Bytes32.ofNat 8,
    eventType := .memberKeyDistribution, createdAt := 10, prevEvents := [Bytes32.ofNat 11],
    content := .memberKeyDistribution ⟨1, 6, devices.map fun device => (Bytes32.ofNat device, ⟨5, 3, 4⟩)⟩ }

def tidy : CborValue := value [item 1 [], item 2 []]

/-- The record of the first recipient has a field too many. -/
def loose : CborValue := value [item 1 [("x", .uint 0)], item 2 []]

/-- The recipients are listed in descending order. -/
def descending : CborValue := value [item 2 [], item 1 []]

theorem keys_ascend : (["content", "room_id", "device_id", "sender_id", "created_at", "event_type", "prev_events",
    "schema_version"].map encodedKey).Pairwise (· < ·) ∧
    (["new_epoch", "wrapped_keys", "key_commitment"].map encodedKey).Pairwise (· < ·) ∧
    (["x", "nonce", "ciphertext", "ephemeral_public"].map encodedKey).Pairwise (· < ·) := by
  decide

theorem ordered_value {items : List CborValue} (h : ∀ v ∈ items, Ordered v) : Ordered (value items) := by
  have hitems : Ordered (.array items) := orderedItems_iff.mpr h
  exact ⟨keys_ascend.1, ⟨keys_ascend.2.1, trivial, hitems, trivial, trivial⟩, trivial, trivial, trivial, trivial, trivial,
    ⟨trivial, trivial⟩, trivial, trivial⟩

theorem ordered_item (device : Nat) : Ordered (item device []) :=
  ⟨trivial, ⟨recordKeys_ascend, trivial, trivial, trivial, trivial⟩, trivial⟩

theorem ordered_item_loose (device : Nat) : Ordered (item device [("x", .uint 0)]) :=
  ⟨trivial, ⟨keys_ascend.2.2, trivial, trivial, trivial, trivial, trivial⟩, trivial⟩

set_option maxRecDepth 10000 in
theorem bounds : ∀ v ∈ [tidy, loose, descending], depth v ≤ maxDepth ∧ (encode v).length ≤ usizeMax := by
  decide

theorem decodeCanonical_value {items : List CborValue} (h : ∀ v ∈ items, Ordered v)
    (hvalue : value items ∈ [tidy, loose, descending]) :
    decodeCanonical (encode (value items)) = .ok (value items) := by
  obtain ⟨hdepth, hfits⟩ := bounds _ hvalue
  exact decodeCanonical_eq_ok.mpr ⟨⟨hdepth, ordered_value h, hfits⟩, rfl⟩

theorem decodeCanonical_tidy : decodeCanonical (encode tidy) = .ok tidy :=
  decodeCanonical_value (by simp [ordered_item]) List.mem_cons_self

theorem decodeCanonical_loose : decodeCanonical (encode loose) = .ok loose :=
  decodeCanonical_value (by simp [ordered_item, ordered_item_loose]) (List.mem_cons_of_mem _ List.mem_cons_self)

theorem decodeCanonical_descending : decodeCanonical (encode descending) = .ok descending :=
  decodeCanonical_value (by simp [ordered_item]) (List.mem_cons_of_mem _ (List.mem_cons_of_mem _ List.mem_cons_self))

theorem events : fromCanonicalValue tidy = .ok (event [1, 2]) ∧ fromCanonicalValue loose = .ok (event [1, 2]) ∧
    fromCanonicalValue descending = .ok (event [2, 1]) := by
  decide +kernel

theorem decode_tidy : decode (encode tidy) = .ok (event [1, 2]) := decode_of_canonical decodeCanonical_tidy events.1

theorem decode_loose : decode (encode loose) = .ok (event [1, 2]) :=
  decode_of_canonical decodeCanonical_loose events.2.1

theorem decode_descending : decode (encode descending) = .ok (event [2, 1]) :=
  decode_of_canonical decodeCanonical_descending events.2.2

theorem tidyKeys_tidy : TidyKeys (encode tidy) := (tidyKeys_iff decodeCanonical_tidy rfl).mpr (by decide)

end Toy

theorem decode_toCsb_tidy : decode (encode Toy.tidy) = .ok (Toy.event [1, 2]) ∧
    (Toy.event [1, 2]).toCsb = encode Toy.tidy :=
  ⟨Toy.decode_tidy, (decode_toCsb_iff Toy.decode_tidy).1.mpr Toy.tidyKeys_tidy⟩

/-- With a field too many in a record two byte strings decode to one event, which is written as one of them; and
recipients that are listed in descending order are written in ascending order. -/
theorem decode_toCsb_loose :
    decode (encode Toy.tidy) = .ok (Toy.event [1, 2]) ∧ decode (encode Toy.loose) = .ok (Toy.event [1, 2]) ∧
    encode Toy.loose ≠ encode Toy.tidy ∧ (Toy.event [1, 2]).toCsb ≠ encode Toy.loose ∧
    decode (encode Toy.descending) = .ok (Toy.event [2, 1]) ∧ (Toy.event [2, 1]).toCsb ≠ encode Toy.descending :=
  ⟨Toy.decode_tidy, Toy.decode_loose, by decide, by decide, Toy.decode_descending, by decide⟩

end SignedEvent

end IrohRooms
