import IrohRooms.Governance.GenesisExact
import IrohRooms.RoomGovernance.Authorship

/-!
# Entries that keep their bytes

The fold files an entry under the id of its re-encoded body. Reading keeps every field of an entry but one: the approvers
of a policy are sorted and deduplicated. So a verified entry encodes back to the bytes it came in, and keeps its id,
exactly if it lists no approvers out of order.
-/

namespace IrohRooms.RoomGovernance

open Governance (Id IdKind Reject Received orReject_eq_ok idField_eq_ok text_field_eq_ok uint_field_eq_ok field_eq_ok
  rejectUnknownKeys_eq_ok encode_ids_iff idOf_eq_ok lookup_eq_none_of_closed)
open Cbor

/-- The approvers that a map lists stand in strictly ascending order. -/
def ListsInOrder (entries : List (String × CborValue)) : Prop :=
  ∀ ids : List MemberId, entries.lookup "approvers" = some (.array (ids.map Id.toCbor)) → ids.Pairwise (· < ·)

/-- The action in the signed bytes of an entry lists its approvers, if it has any, in order. -/
def Envelope.ApproversInOrder {kind : IdKind} (e : Envelope kind) : Prop :=
  ∀ entries action, Cbor.decodeCanonical e.signed = .ok (.map entries) → entries.lookup "action" = some (.map action) →
    ListsInOrder action

section Actions

variable {entries : List (String × CborValue)}

/-- A closed map without the key lists no approvers. -/
theorem listsInOrder_of_closed {allowed : List String} (hclosed : ∀ e ∈ entries, e.1 ∈ allowed)
    (hnot : "approvers" ∉ allowed) : ListsInOrder entries := by
  intro ids hlookup
  rw [lookup_eq_none_of_closed hclosed hnot] at hlookup
  cases hlookup

theorem Role.asStr_of_parse {text : String} {role : Role} (h : Role.parse text = .ok role) : role.asStr = text := by
  unfold Role.parse at h
  split at h <;> cases h <;> rfl

theorem mapM_idOf_eq_ok {items : List CborValue} {ids : List MemberId}
    (h : items.mapM (Governance.idOf .invalidContent .invalidContent) = .ok ids) : items = ids.map Id.toCbor := by
  have hall := mapM_eq_ok_iff.mp h
  clear h
  induction hall with
  | nil => rfl
  | cons hv _ ih => rw [List.map_cons, ← ih, idOf_eq_ok.mp hv]

namespace ApprovalPolicy

theorem mOfN_encode_iff {policy : ApprovalPolicy} (hv : Received (.map entries))
    (htype : entries.lookup "type" = some (.text "m_of_n")) (h : mOfNFrom entries = .ok policy) :
    encode policy.toCbor = encode (.map entries) ↔ ListsInOrder entries := by
  obtain ⟨_, hclosed, h⟩ := bind_eq_ok_iff.mp h
  obtain ⟨m, hm, h⟩ := bind_eq_ok_iff.mp h
  obtain ⟨items, hitems, h⟩ := bind_eq_ok_iff.mp h
  obtain ⟨ids, hids, h⟩ := bind_eq_ok_iff.mp h
  split_ifs at h with hfew
  obtain rfl := Except.ok.inj h
  obtain ⟨_, hlookup, harray⟩ := field_eq_ok.mp hitems
  rw [asArray_eq_some] at harray
  rw [harray, mapM_idOf_eq_ok hids] at hlookup
  have hm := uint_field_eq_ok.mp hm
  have hlisted : encode (.array ((OrdSet.sortDedup ids).map Id.toCbor)) = encode (.array (ids.map Id.toCbor)) ↔
      ListsInOrder entries := by
    rw [encode_ids_iff (hv.of_lookup hlookup), OrdSet.sortDedup_eq_self]
    constructor
    · intro hsorted ids' hlookup'
      rw [hlookup] at hlookup'
      obtain rfl := (encode_ids_iff (hv.of_lookup hlookup)).mp (congrArg encode (Option.some.inj hlookup')).symm
      exact hsorted
    · exact fun horder => horder ids hlookup
  have hfields : encode (toCbor (.mOfN m (OrdSet.sortDedup ids))) = encode (.map entries) ↔
      ∀ k ∈ ["type", "m", "approvers"], _ :=
    hv.encode_closed_iff (by simp) (rejectUnknownKeys_eq_ok.mp hclosed) (by simp)
  rw [hfields, ← hlisted]
  constructor
  · intro hall
    have happrovers := hall "approvers" (by simp)
    rw [hlookup] at happrovers
    exact Option.some.inj happrovers
  · intro hsame k hk
    simp only [List.mem_cons, List.not_mem_nil, or_false] at hk
    rcases hk with rfl | rfl | rfl
    · rw [htype]
      rfl
    · rw [hm]
      rfl
    · rw [hlookup]
      exact congrArg some hsame

theorem encode_iff {policy : ApprovalPolicy} (hv : Received (.map entries)) (h : fromCbor entries = .ok policy) :
    encode policy.toCbor = encode (.map entries) ↔ ListsInOrder entries := by
  obtain ⟨type, htype, h⟩ := bind_eq_ok_iff.mp h
  rw [text_field_eq_ok] at htype
  split at h
  · split_ifs at h with hlen
    obtain rfl := Except.ok.inj h
    obtain ⟨e, rfl⟩ := List.length_eq_one_iff.mp (not_not.mp hlen)
    obtain rfl := List.mem_singleton.mp ((lookup_eq_some_iff hv.nodup).mp htype)
    have hclosed : ∀ e ∈ [("type", CborValue.text "admin_alone")], e.1 ∈ ["type"] := by simp
    exact iff_of_true rfl (listsInOrder_of_closed hclosed (by decide))
  · exact mOfN_encode_iff hv htype h
  · cases h

end ApprovalPolicy

namespace GovernanceAction

/-- An action is written back exactly if its approvers are listed in order. -/
theorem encode_iff {kind : String} {action : GovernanceAction} (hv : Received (.map entries))
    (h : fromCbor kind (.map entries) = .ok action) :
    encode action.toCbor = encode (.map entries) ↔ ListsInOrder entries := by
  obtain ⟨_, hentries, h⟩ := bind_eq_ok_iff.mp h
  obtain rfl : entries = _ := Option.some.inj (orReject_eq_ok.mp hentries)
  -- every reader but that of a policy keeps its map
  have hkept : ∀ {written : List (String × CborValue)} {allowed : List String},
      (written.map Prod.fst).Nodup → (∀ e ∈ written, e.1 ∈ allowed) → "approvers" ∉ allowed →
      (∀ e ∈ entries, e.1 ∈ allowed) → (∀ k ∈ allowed, (written.lookup k).map encode = (entries.lookup k).map encode) →
      (encode (.map written) = encode (.map entries) ↔ ListsInOrder entries) :=
    fun hnodup hwritten hnot hclosed hfields => iff_of_true
      ((hv.encode_closed_iff hnodup hclosed hwritten).mpr hfields) (listsInOrder_of_closed hclosed hnot)
  split at h
  · obtain ⟨_, hclosed, h⟩ := bind_eq_ok_iff.mp h
    obtain ⟨admin, hadmin, h⟩ := bind_eq_ok_iff.mp h
    obtain ⟨adminDevice, hdevice, h⟩ := bind_eq_ok_iff.mp h
    obtain ⟨roomName, hname, h⟩ := bind_eq_ok_iff.mp h
    split_ifs at h
    obtain rfl := Except.ok.inj h
    refine hkept (by simp) (by simp) (by decide) (rejectUnknownKeys_eq_ok.mp hclosed) fun k hk => ?_
    simp only [List.mem_cons, List.not_mem_nil, or_false] at hk
    rcases hk with rfl | rfl | rfl
    · rw [idField_eq_ok.mp hadmin]
      rfl
    · rw [idField_eq_ok.mp hdevice]
      rfl
    · rw [text_field_eq_ok.mp hname]
      rfl
  · obtain ⟨_, hclosed, h⟩ := bind_eq_ok_iff.mp h
    obtain ⟨member, hmember, h⟩ := bind_eq_ok_iff.mp h
    obtain ⟨device, hdevice, h⟩ := bind_eq_ok_iff.mp h
    obtain ⟨text, htext, h⟩ := bind_eq_ok_iff.mp h
    obtain ⟨role, hrole, h⟩ := bind_eq_ok_iff.mp h
    obtain rfl := Except.ok.inj h
    refine hkept (by simp) (by simp) (by decide) (rejectUnknownKeys_eq_ok.mp hclosed) fun k hk => ?_
    simp only [List.mem_cons, List.not_mem_nil, or_false] at hk
    rcases hk with rfl | rfl | rfl
    · rw [idField_eq_ok.mp hmember]
      rfl
    · rw [idField_eq_ok.mp hdevice]
      rfl
    · rw [text_field_eq_ok.mp htext, ← Role.asStr_of_parse hrole]
      rfl
  · obtain ⟨_, hclosed, h⟩ := bind_eq_ok_iff.mp h
    obtain ⟨member, hmember, h⟩ := bind_eq_ok_iff.mp h
    obtain rfl := Except.ok.inj h
    refine hkept (by simp) (by simp) (by decide) (rejectUnknownKeys_eq_ok.mp hclosed) fun k hk => ?_
    obtain rfl := List.mem_singleton.mp hk
    rw [idField_eq_ok.mp hmember]
    rfl
  · obtain ⟨_, hclosed, h⟩ := bind_eq_ok_iff.mp h
    obtain ⟨member, hmember, h⟩ := bind_eq_ok_iff.mp h
    obtain ⟨text, htext, h⟩ := bind_eq_ok_iff.mp h
    obtain ⟨role, hrole, h⟩ := bind_eq_ok_iff.mp h
    obtain rfl := Except.ok.inj h
    refine hkept (by simp) (by simp) (by decide) (rejectUnknownKeys_eq_ok.mp hclosed) fun k hk => ?_
    simp only [List.mem_cons, List.not_mem_nil, or_false] at hk
    rcases hk with rfl | rfl
    · rw [idField_eq_ok.mp hmember]
      rfl
    · rw [text_field_eq_ok.mp htext, ← Role.asStr_of_parse hrole]
      rfl
  · obtain ⟨_, hclosed, h⟩ := bind_eq_ok_iff.mp h
    obtain ⟨member, hmember, h⟩ := bind_eq_ok_iff.mp h
    obtain ⟨device, hdevice, h⟩ := bind_eq_ok_iff.mp h
    obtain rfl := Except.ok.inj h
    refine hkept (by simp) (by simp) (by decide) (rejectUnknownKeys_eq_ok.mp hclosed) fun k hk => ?_
    simp only [List.mem_cons, List.not_mem_nil, or_false] at hk
    rcases hk with rfl | rfl
    · rw [idField_eq_ok.mp hmember]
      rfl
    · rw [idField_eq_ok.mp hdevice]
      rfl
  · obtain ⟨policy, hpolicy, rfl⟩ := map_eq_ok_iff.mp h
    exact ApprovalPolicy.encode_iff hv hpolicy
  · cases h

end GovernanceAction

end Actions

/-! ### Entries -/

theorem GovernanceEntryBody.encode_iff {entries : List (String × CborValue)} {body : GovernanceEntryBody}
    (hv : Received (.map entries)) (h : fromCanonical (.map entries) = .ok body) :
    encode body.toCbor = encode (.map entries) ↔
      ∀ action, entries.lookup "action" = some (.map action) → ListsInOrder action := by
  obtain ⟨entries', kind, actionVal, hmap, hclosed, hversion, -, hroomId, hauthor, hseq, hepoch, hkind, hparent, hactionVal,
    haction⟩ := of_fromCanonical h
  obtain rfl := CborValue.map.inj hmap
  obtain ⟨action, hmapped, -⟩ := bind_eq_ok_iff.mp haction
  obtain rfl := asMap_eq_some.mp (orReject_eq_ok.mp hmapped)
  have hkindStr := GovernanceAction.kindStr_of_fromCbor haction
  have hlisted := GovernanceAction.encode_iff (hv.of_lookup hactionVal) haction
  have hfields : encode body.toCbor = encode (.map entries) ↔ ∀ k ∈ keys, _ :=
    hv.encode_closed_iff (by cases body.parent <;> simp) hclosed (by cases body.parent <;> simp [keys])
  rw [hfields]
  constructor
  · intro hall action' haction'
    have hact := hall "action" (by simp [keys])
    rw [hactionVal] at haction' hact
    obtain rfl := CborValue.map.inj (Option.some.inj haction')
    refine hlisted.mp (Option.some.inj (Eq.trans ?_ hact))
    cases body.parent <;> rfl
  · intro horder k hk
    simp only [keys, List.mem_cons, List.not_mem_nil, or_false] at hk
    rcases hk with rfl | rfl | rfl | rfl | rfl | rfl | rfl | rfl
    · rw [hversion]
      rfl
    · rw [hroomId]
      rfl
    · rw [hauthor]
      rfl
    · rw [hseq]
      rfl
    · rw [hepoch]
      rfl
    · rw [hkind, ← hkindStr]
      rfl
    · rw [hparent]
      cases body.parent <;> rfl
    · rw [hactionVal]
      refine Eq.trans ?_ (congrArg some (hlisted.mpr (horder action hactionVal)))
      cases body.parent <;> rfl

/-- A verified entry encodes back to its signed bytes, and so keeps its id, exactly if it lists no approvers out of
order. -/
theorem decodeVerified_keeps_id_iff {env : Env} {e : SignedGovernanceEntry} {body : GovernanceEntryBody}
    (h : GovernanceEntryBody.decodeVerified env e = .ok body) :
    (toCsb body = e.signed ∧ idOfBody env body = e.id) ↔ e.ApproversInOrder := by
  obtain ⟨value, hdecode, hid, -, hbody⟩ := verifyEnvelope_eq_ok.mp h
  obtain ⟨hv, hencode⟩ := Received.of_decode hdecode
  obtain ⟨entries, -, -, rfl, -⟩ := GovernanceEntryBody.of_fromCanonical hbody
  have hsame : toCsb body = e.signed ↔ e.ApproversInOrder := by
    rw [← hencode]
    refine (GovernanceEntryBody.encode_iff hv hbody).trans ?_
    unfold Envelope.ApproversInOrder
    rw [hdecode]
    constructor
    · intro horder entries' action hentries
      obtain rfl := CborValue.map.inj (Except.ok.inj hentries)
      exact horder action
    · exact fun horder action => horder entries action rfl
  rw [← hsame]
  refine ⟨And.left, fun hcsb => ⟨hcsb, ?_⟩⟩
  rw [idOfBody, hcsb, hid]

namespace Toy

/-- The admin's entry that sets a policy of one of two approvers, in the order in which they are listed. -/
def setPolicy (approvers : List Nat) : GovernanceEntryBody :=
  entry 1 2 (some (idOfBody toyEnv genesis)) (.setPolicy (.mOfN 1 (approvers.map who)))

/-- What is read of the two orders, evaluated in one go. -/
theorem setPolicy_computed :
    GovernanceEntryBody.decodeVerified toyEnv (sealed toyEnv (setPolicy [2, 3]) (secret 1)) = .ok (setPolicy [2, 3]) ∧
    GovernanceEntryBody.decodeVerified toyEnv (sealed toyEnv (setPolicy [3, 2]) (secret 1)) = .ok (setPolicy [2, 3]) ∧
    idOfBody toyEnv (setPolicy [2, 3]) ≠ (sealed toyEnv (setPolicy [3, 2]) (secret 1)).id := by
  decide +kernel

theorem decodeVerified_keeps_id_sorted : (sealed toyEnv (setPolicy [2, 3]) (secret 1)).ApproversInOrder :=
  (decodeVerified_keeps_id_iff setPolicy_computed.1).mp ⟨rfl, rfl⟩

/-- Approvers that are listed in descending order are read in ascending order. -/
theorem setPolicy_loses_id : ¬ ∀ (env : Env) (e : SignedGovernanceEntry) (body : GovernanceEntryBody),
    GovernanceEntryBody.decodeVerified env e = .ok body → toCsb body = e.signed ∧ idOfBody env body = e.id := by
  intro hall
  obtain ⟨-, hdecode, hid⟩ := setPolicy_computed
  exact hid (hall toyEnv _ _ hdecode).2

end Toy

end IrohRooms.RoomGovernance
