import IrohRooms.Member.Sorted

/-!
# Member records read back

A valid record is what its canonical bytes decode to: the encoder sorts the keys, and the strict reader finds each
field under its key.
-/

namespace IrohRooms.Member

open Governance Cbor

/-- A device as it is read back. -/
def deviceValue (d : ActiveDevice) : CborValue := .map [("binding", .bytes d.binding), ("device_id", d.deviceId.toCbor)]

/-- The entries of a record in the order in which they are written. -/
def recordEntries (r : ProjectedMemberRecord) : List (String × CborValue) :=
  [("roles", .array (r.roles.map CborValue.text)), ("status", .text r.status.asStr)] ++
    (r.profile.map fun b => ("profile", CborValue.bytes b)).toList ++
    [("grant_seq", .uint r.grantSeq), ("member_id", r.memberId.toCbor)] ++
    (r.revokeSeq.map fun seq => ("revoke_seq", CborValue.uint seq)).toList ++
    [("active_devices", .array (r.activeDevices.map deviceValue))]

theorem encode_deviceValue (d : ActiveDevice) :
    encode (deviceValue d) = encode (.map [("device_id", d.deviceId.toCbor), ("binding", .bytes d.binding)]) := by
  rw [deviceValue, encode_map_eq, encode_map_eq]
  refine mapBytes_perm (List.Perm.swap _ _ _) ?_
  show [encodedKey "binding", encodedKey "device_id"].Nodup
  decide

theorem encode_devices (l : List ActiveDevice) :
    encode (.array (l.map deviceValue)) = encode (.array (l.map fun d =>
      .map [("device_id", d.deviceId.toCbor), ("binding", .bytes d.binding)])) := by
  rw [encode, encode, encodeItems_eq, encodeItems_eq, List.length_map, List.length_map, List.flatMap_map,
    List.flatMap_map]
  simp only [encode_deviceValue]

theorem recordEntries_perm {α : Type} [DecidableEq α] (a b c d e : α) (l l' : List α) :
    ([c, b] ++ l' ++ [e, a] ++ l ++ [d]).Perm ([a, b, c, d, e] ++ l ++ l') := by
  refine List.perm_iff_count.mpr fun x => ?_
  simp only [List.count_append, List.count_cons, List.count_nil]
  omega

theorem encode_recordEntries (r : ProjectedMemberRecord) : encode (.map (recordEntries r)) = r.canonicalBytes := by
  rw [ProjectedMemberRecord.canonicalBytes, ProjectedMemberRecord.toCbor, encode_map_eq, encode_map_eq]
  refine mapBytes_perm ?_ ?_
  · simp only [recordEntries, render_append, render_cons, render_nil, encode_devices]
    exact recordEntries_perm _ _ _ _ _ _ _
  · rw [Fields.keysOnce_iff]
    cases hr : r.revokeSeq <;> cases hp : r.profile <;> simp [recordEntries, hr, hp]

theorem encodable_recordEntries {r : ProjectedMemberRecord} (h : r.canonicalBytes.length ≤ usizeMax) :
    Encodable (.map (recordEntries r)) := by
  have hdevice : ∀ d ∈ r.activeDevices, depth (deviceValue d) ≤ 1 ∧ Ordered (deviceValue d) := by
    intro d _
    refine ⟨by simp [deviceValue, depth, depthEntries, Id.toCbor], ?_, trivial, trivial, trivial⟩
    show [encodedKey "binding", encodedKey "device_id"].Pairwise (· < ·)
    decide
  have hdevices : depth (.array (r.activeDevices.map deviceValue)) ≤ 2 ∧
      Ordered (.array (r.activeDevices.map deviceValue)) := by
    rw [depth, Ordered, depthItems_le, orderedItems_iff]
    simp only [List.mem_map, forall_exists_index, and_imp, forall_apply_eq_imp_iff₂]
    exact ⟨fun d hd => Nat.lt_succ_of_le (hdevice d hd).1, fun d hd => (hdevice d hd).2⟩
  have hroles : depth (.array (r.roles.map CborValue.text)) ≤ 1 ∧ Ordered (.array (r.roles.map CborValue.text)) := by
    rw [depth, Ordered, depthItems_le, orderedItems_iff]
    simp [depth, Ordered]
  have hentry : ∀ e ∈ recordEntries r, depth e.2 < 3 ∧ Ordered e.2 := by
    intro e he
    simp only [recordEntries, List.mem_append, List.mem_cons, List.not_mem_nil, or_false, Option.mem_toList,
      Option.map_eq_some_iff] at he
    rcases he with ((((rfl | rfl) | ⟨b, -, rfl⟩) | rfl | rfl) | ⟨n, -, rfl⟩) | rfl
    · exact ⟨hroles.1.trans_lt (by omega), hroles.2⟩
    · exact ⟨by simp [depth], trivial⟩
    · exact ⟨by simp [depth], trivial⟩
    · exact ⟨by simp [depth], trivial⟩
    · exact ⟨by simp [depth, Id.toCbor], trivial⟩
    · exact ⟨by simp [depth], trivial⟩
    · exact ⟨hdevices.1.trans_lt (by omega), hdevices.2⟩
  have hkeys : (["roles", "status", "profile", "grant_seq", "member_id", "revoke_seq", "active_devices"].map
      encodedKey).Pairwise (· < ·) := by
    decide
  have hsub : ((recordEntries r).map Prod.fst).Sublist
      ["roles", "status", "profile", "grant_seq", "member_id", "revoke_seq", "active_devices"] := by
    cases hr : r.revokeSeq <;> cases hp : r.profile <;> simp [recordEntries, hr, hp]
  refine ⟨?_, ⟨?_, orderedEntries_iff.mpr fun e he => (hentry e he).2⟩, ?_⟩
  · have hdepth : depth (.map (recordEntries r)) ≤ 3 := depthEntries_le.mpr fun e he => (hentry e he).1
    exact hdepth.trans (by decide)
  · have hsorted := hkeys.sublist (hsub.map encodedKey)
    rwa [List.map_map] at hsorted
  · rwa [encode_recordEntries]

theorem readActiveDevice_deviceValue (d : ActiveDevice) : readActiveDevice (deviceValue d) = .ok d := by
  have hid : idField .invalidContent .nonCanonicalEncoding .nonCanonicalEncoding
      [("binding", .bytes d.binding), ("device_id", d.deviceId.toCbor)] "device_id" = .ok d.deviceId :=
    idField_eq_ok.mpr rfl
  rw [readActiveDevice]
  simp only [deviceValue, CborValue.asMap, orReject, bind, Except.bind, hid]
  rfl

theorem lookup_recordEntries (r : ProjectedMemberRecord) :
    (recordEntries r).lookup "member_id" = some r.memberId.toCbor ∧
    (recordEntries r).lookup "status" = some (.text r.status.asStr) ∧
    (recordEntries r).lookup "roles" = some (.array (r.roles.map CborValue.text)) ∧
    (recordEntries r).lookup "active_devices" = some (.array (r.activeDevices.map deviceValue)) ∧
    (recordEntries r).lookup "grant_seq" = some (.uint r.grantSeq) ∧
    (recordEntries r).lookup "revoke_seq" = r.revokeSeq.map CborValue.uint ∧
    (recordEntries r).lookup "profile" = r.profile.map CborValue.bytes := by
  obtain ⟨id, status, roles, devices, granted, revoked, profile⟩ := r
  cases revoked <;> cases profile <;> exact ⟨rfl, rfl, rfl, rfl, rfl, rfl, rfl⟩

theorem optionalField_map {α : Type} {shape : Reject} {read : CborValue → Option α} (write : α → CborValue)
    (hread : ∀ a, read (write a) = some a) {entries : List (String × CborValue)} {key : String} {o : Option α}
    (h : entries.lookup key = o.map write) : optionalField shape read entries key = .ok o := by
  rw [optionalField, h]
  cases o with
  | none => rfl
  | some a => simp [hread, orReject, Except.map]

theorem fromCanonical_recordEntries {r : ProjectedMemberRecord} (hvalid : r.validate = .ok ()) :
    ProjectedMemberRecord.fromCanonical (.map (recordEntries r)) = .ok r := by
  obtain ⟨hid, hstatus, hroles, hdevices, hgranted, hrevoked, hprofile⟩ := lookup_recordEntries r
  have hclosed : validateClosedKeys (recordEntries r)
      ["member_id", "status", "roles", "active_devices", "grant_seq", "revoke_seq", "profile"] = .ok () := by
    cases hr : r.revokeSeq <;> cases hp : r.profile <;> simp [validateClosedKeys, recordEntries, hr, hp]
  have hlabels : ((r.roles.map CborValue.text).mapM fun v => orReject .nonCanonicalEncoding v.asText) = .ok r.roles := by
    rw [mapM_eq_ok_iff, List.forall₂_map_left_iff, List.forall₂_same]
    exact fun _ _ => rfl
  have hactive : ((r.activeDevices.map deviceValue).mapM readActiveDevice) = .ok r.activeDevices := by
    rw [mapM_eq_ok_iff, List.forall₂_map_left_iff, List.forall₂_same]
    exact fun d _ => readActiveDevice_deviceValue d
  refine bind_eq_ok_iff.mpr ⟨recordEntries r, rfl, bind_eq_ok_iff.mpr ⟨(), hclosed, ?_⟩⟩
  refine bind_eq_ok_iff.mpr ⟨r.memberId, idField_eq_ok.mpr hid, ?_⟩
  refine bind_eq_ok_iff.mpr ⟨r.status.asStr, text_field_eq_ok.mpr hstatus, ?_⟩
  refine bind_eq_ok_iff.mpr ⟨r.status, MemberStatus.parse_eq_ok.mpr rfl, ?_⟩
  refine bind_eq_ok_iff.mpr ⟨_, field_eq_ok.mpr ⟨_, hroles, rfl⟩, bind_eq_ok_iff.mpr ⟨_, hlabels, ?_⟩⟩
  refine bind_eq_ok_iff.mpr ⟨_, field_eq_ok.mpr ⟨_, hdevices, rfl⟩, bind_eq_ok_iff.mpr ⟨_, hactive, ?_⟩⟩
  refine bind_eq_ok_iff.mpr ⟨r.grantSeq, uint_field_eq_ok.mpr hgranted, ?_⟩
  refine bind_eq_ok_iff.mpr ⟨r.revokeSeq, optionalField_map CborValue.uint (fun _ => rfl) hrevoked, ?_⟩
  refine bind_eq_ok_iff.mpr ⟨r.profile, optionalField_map CborValue.bytes (fun _ => rfl) hprofile, ?_⟩
  exact bind_eq_ok_iff.mpr ⟨(), hvalid, rfl⟩

/-- A valid record is read back from its bytes. -/
theorem fromBytes_canonicalBytes {r : ProjectedMemberRecord} (hvalid : r.validate = .ok ())
    (hfits : r.canonicalBytes.length ≤ usizeMax) : ProjectedMemberRecord.fromBytes r.canonicalBytes = .ok r := by
  rw [ProjectedMemberRecord.fromBytes,
    decodeCanonical_eq_ok.mpr ⟨encodable_recordEntries hfits, encode_recordEntries r⟩]
  exact fromCanonical_recordEntries hvalid

theorem validateKeyedRecord_canonicalBytes {r : ProjectedMemberRecord} (hvalid : r.validate = .ok ())
    (hfits : r.canonicalBytes.length ≤ usizeMax) : validateKeyedRecord r.memberId r.canonicalBytes = .ok () := by
  rw [validateKeyedRecord, fromBytes_canonicalBytes hvalid hfits]
  exact if_pos rfl

end IrohRooms.Member
