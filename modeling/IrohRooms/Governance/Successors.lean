import IrohRooms.Member.Deltas

/-!
# What a state root says about the next operation

Two reachable states with one root agree on every component that the root commits to, and an operation that reads
nothing else does the same to both. Only the grant of a device reads more: a revoked device is no longer committed to,
and still can not be granted again.
-/

namespace IrohRooms.Governance

open Cbor

variable {env : Env} {s t s' t' : GovernanceState} {seq : UInt64} {op : GovernanceOperationPayload}

/-! ### The same components have the same root -/

theorem CommunityPolicy.Same.symm {p q : CommunityPolicy} (h : p.Same q) : q.Same p :=
  ⟨h.invites.symm, h.migrations.symm, h.markers.symm⟩

theorem GovernanceState.SameComponents.symm (h : s.SameComponents t) : t.SameComponents s :=
  ⟨h.administrators.symm, h.recovery.symm, h.replicas.symm, h.members.symm, h.streams.symm, h.policy.symm⟩

theorem ResolvedForkMarker.perm_sort {l l' : List ResolvedForkMarker} (h : l.Perm l') : (sort l).Perm (sort l') :=
  (sort_perm l).trans (h.trans (sort_perm l').symm)

/-- Markers are sorted by their encodings, so the list of these does not depend on the order they came in. -/
theorem ResolvedForkMarker.map_encode_sort {l l' : List ResolvedForkMarker} (h : l.Perm l') :
    (sort l).map (fun m => encode m.toCbor) = (sort l').map fun m => encode m.toCbor := by
  have hsorted : ∀ l : List ResolvedForkMarker, ((sort l).map fun m => encode m.toCbor).Pairwise (· ≤ ·) := by
    intro l
    have htotal : Std.Total fun a b : ResolvedForkMarker => encode a.toCbor ≤ encode b.toCbor :=
      ⟨fun a b => List.le_total (encode a.toCbor) (encode b.toCbor)⟩
    have htrans : IsTrans ResolvedForkMarker fun a b => encode a.toCbor ≤ encode b.toCbor :=
      ⟨fun _ _ _ => List.le_trans⟩
    exact List.pairwise_map.mpr (List.pairwise_insertionSort _ l)
  have hperm := (perm_sort h).map fun m => encode m.toCbor
  exact List.Perm.eq_of_pairwise (fun a b _ _ hab hba => List.le_antisymm hab hba) (hsorted l) (hsorted l') hperm

theorem CommunityPolicy.Same.encode_eq {p q : CommunityPolicy} (h : p.Same q) : encode p.toCbor = encode q.toCbor := by
  have hmarkers : encode (.array ((ResolvedForkMarker.sort p.forkMarkers).map ResolvedForkMarker.toCbor)) =
      encode (.array ((ResolvedForkMarker.sort q.forkMarkers).map ResolvedForkMarker.toCbor)) := by
    have hmap := ResolvedForkMarker.map_encode_sort h.markers
    have hlen := congrArg List.length hmap
    have hflat := congrArg List.flatten hmap
    rw [List.length_map, List.length_map] at hlen
    rw [encode, encode, encodeItems_eq, encodeItems_eq, List.length_map, List.length_map, hlen, List.flatMap_map,
      List.flatMap_map, List.flatMap, List.flatMap, hflat]
  rw [toCbor, toCbor, encode, encode]
  simp only [encodeEntries, hmarkers, h.invites, h.migrations, List.length_cons]

theorem componentRoot_congr {label : String} {v w : CborValue} (h : encode v = encode w) :
    componentRoot env label v = componentRoot env label w := by
  rw [componentRoot, componentRoot, encode, encode]
  simp only [encodeEntries, h, List.length_cons]

theorem GovernanceState.SameComponents.memberRecords_eq (h : s.SameComponents t) : s.memberRecords = t.memberRecords := by
  have hvalues : ∀ s : GovernanceState, s.memberRecords = s.records.values.map fun r => encode r.toCbor := by
    intro s
    simp only [memberRecords, records, OrdMap.values, OrdMap.mapValues, List.map_map, Function.comp_def]
  rw [hvalues, hvalues, show s.records = t.records from h.members]

theorem GovernanceState.SameComponents.root_eq (h : s.SameComponents t) :
    computeStateRoot env s = computeStateRoot env t := by
  have hmembers : membersDevicesRolesRoot env s = membersDevicesRolesRoot env t := by
    rw [membersDevicesRolesRoot_eq, membersDevicesRolesRoot_eq, h.memberRecords_eq]
  have hpolicy := @componentRoot_congr env "community_policy" _ _ h.policy.encode_eq
  have hrecord : governanceStateRootRecord env s = governanceStateRootRecord env t := by
    rw [governanceStateRootRecord, governanceStateRootRecord, hmembers, hpolicy, h.administrators, h.recovery, h.replicas,
      h.streams]
  rw [computeStateRoot, computeStateRoot, hrecord]

/-! ### The same components step alike -/

namespace GovernanceState.SameComponents

theorem records_eq (h : s.SameComponents t) : s.records = t.records := h.members

/-- A member has the same projected record on both sides. -/
theorem member (h : s.SameComponents t) {a : PrincipalId} {m : MemberRecord} (hm : s.members.get? a = some m) :
    ∃ m', t.members.get? a = some m' ∧ projectGovernanceMemberUnchecked m' = projectGovernanceMemberUnchecked m := by
  have hrecord : t.records.get? a = some (projectGovernanceMemberUnchecked m) := by
    rw [← h.records_eq, get?_records, hm]
    rfl
  rw [get?_records] at hrecord
  exact Option.map_eq_some_iff.mp hrecord

theorem member_active (h : s.SameComponents t) {a : PrincipalId} {m : MemberRecord} (hm : s.members.get? a = some m)
    (hactive : m.status = .active) :
    ∃ m', t.members.get? a = some m' ∧ m'.status = .active ∧
      projectGovernanceMemberUnchecked m' = projectGovernanceMemberUnchecked m := by
  obtain ⟨m', hm', hsame⟩ := h.member hm
  exact ⟨m', hm', (congrArg ProjectedMemberRecord.status hsame).trans hactive, hsame⟩

theorem putMember (h : s.SameComponents t) {a b : PrincipalId} {m m' : MemberRecord}
    (hrecords : (s.putMember a m).records = (t.putMember b m').records) :
    (s.putMember a m).SameComponents (t.putMember b m') :=
  ⟨h.administrators, h.recovery, h.replicas, hrecords, h.streams, h.policy⟩

/-- The records after one operation on both sides. -/
theorem records_apply (h : s.SameComponents t) (hs : s.Projectable) (ht : t.Projectable)
    (happly : applyOperation s seq op = .ok s') (happly' : applyOperation t seq op = .ok t') :
    s'.records = t'.records := by
  rw [applyOperation_records hs happly, applyOperation_records ht happly', h.records_eq]

theorem apply_member (h : s.SameComponents t) (hs : s.Projectable) (ht : t.Projectable) {a b : PrincipalId}
    {m m' : MemberRecord} (happly : applyOperation s seq op = .ok (s.putMember a m))
    (happly' : applyOperation t seq op = .ok (t.putMember b m')) :
    ∃ t', applyOperation t seq op = .ok t' ∧ (s.putMember a m).SameComponents t' :=
  ⟨_, happly', h.putMember (h.records_apply hs ht happly happly')⟩

/-- An operation that applies on one side applies on the other, provided that a granted device is free there. -/
theorem apply (h : s.SameComponents t) (hs : s.Projectable) (ht : t.Projectable)
    (hfree : ∀ p, op = .deviceGrant p → s.deviceBound p.deviceId = false → t.deviceBound p.deviceId = false)
    (happly : applyOperation s seq op = .ok s') : ∃ t', applyOperation t seq op = .ok t' ∧ s'.SameComponents t' := by
  cases op with
  | memberGrant p =>
    obtain ⟨hroles, rfl⟩ := applyMemberGrantAt_eq_ok.mp happly
    exact h.apply_member hs ht happly (applyMemberGrantAt_eq_ok.mpr ⟨hroles, rfl⟩)
  | memberRevoke p =>
    obtain ⟨m, hm, hactive, rfl⟩ := applyMemberRevokeAt_eq_ok.mp happly
    obtain ⟨m', hm', hactive', -⟩ := h.member_active hm hactive
    exact h.apply_member hs ht happly (applyMemberRevokeAt_eq_ok.mpr ⟨m', hm', hactive', rfl⟩)
  | memberRoleSet p =>
    obtain ⟨hroles, m, hm, hactive, rfl⟩ := applyMemberRoleSetAt_eq_ok.mp happly
    obtain ⟨m', hm', hactive', -⟩ := h.member_active hm hactive
    exact h.apply_member hs ht happly (applyMemberRoleSetAt_eq_ok.mpr ⟨hroles, m', hm', hactive', rfl⟩)
  | deviceGrant p =>
    obtain ⟨hunbound, m, hm, hactive, rfl⟩ := applyDeviceGrantAt_eq_ok.mp happly
    obtain ⟨m', hm', hactive', -⟩ := h.member_active hm hactive
    exact h.apply_member hs ht happly
      (applyDeviceGrantAt_eq_ok.mpr ⟨hfree p rfl hunbound, m', hm', hactive', rfl⟩)
  | deviceRevoke p =>
    obtain ⟨m, d, hm, hactive, hd, hdactive, rfl⟩ := applyDeviceRevokeAt_eq_ok.mp happly
    obtain ⟨m', hm', hactive', hsame⟩ := h.member_active hm hactive
    -- an active device is in the projected record, so both sides have it
    have hmem : ActiveDevice.mk p.deviceId d.binding ∈ (projectGovernanceMemberUnchecked m').activeDevices := by
      rw [hsame, mem_activeDevices (hs _ m hm).devices, hd, ← hdactive, ← (hs _ m hm).devices _ d hd]
    have hd' := (mem_activeDevices (ht _ m' hm').devices).mp hmem
    exact h.apply_member hs ht happly (applyDeviceRevokeAt_eq_ok.mpr ⟨m', _, hm', hactive', hd', rfl, rfl⟩)
  | adminSet p =>
    obtain ⟨rfl, -⟩ := applyAdminSetAt_eq_ok happly
    refine ⟨{ t with administrators := ⟨p.administrators, p.threshold⟩ }, ?_,
      rfl, h.recovery, h.replicas, h.members, h.streams, h.policy⟩
    rw [applyOperation, applyAdminSetAt] at happly ⊢
    split_ifs at happly ⊢
    rfl
  | recoverySet p =>
    rw [← Except.ok.inj happly]
    exact ⟨_, rfl, h.administrators, rfl, h.replicas, h.members, h.streams, h.policy⟩
  | replicaSet p =>
    rw [← Except.ok.inj happly]
    refine ⟨_, rfl, h.administrators, h.recovery, ?_, h.members, h.streams, h.policy⟩
    rw [applyReplicaSetAt, applyReplicaSetAt, h.replicas]
  | streamCreate p =>
    rw [applyOperation, applyStreamCreateAt] at happly ⊢
    rw [← h.streams]
    split_ifs at happly ⊢
    rw [← Except.ok.inj happly]
    exact ⟨_, rfl, h.administrators, h.recovery, h.replicas, h.members, rfl, h.policy⟩
  | streamPolicySet p =>
    rw [applyOperation, applyStreamPolicySetAt] at happly ⊢
    rw [← h.streams]
    split at happly
    · rw [← Except.ok.inj happly]
      exact ⟨_, rfl, h.administrators, h.recovery, h.replicas, h.members, rfl, h.policy⟩
    · cases happly
  | streamArchive p =>
    rw [applyOperation, applyStreamArchiveAt] at happly ⊢
    rw [← h.streams]
    split at happly
    · rw [← Except.ok.inj happly]
      exact ⟨_, rfl, h.administrators, h.recovery, h.replicas, h.members, rfl, h.policy⟩
    · cases happly
  | inviteRevoke p =>
    rw [← Except.ok.inj happly]
    refine ⟨_, rfl, h.administrators, h.recovery, h.replicas, h.members, h.streams, ?_, h.policy.migrations,
      h.policy.markers⟩
    rw [applyInviteRevokeAt, applyInviteRevokeAt, h.policy.invites]
  | policySet p =>
    rw [← Except.ok.inj happly]
    refine ⟨_, rfl, h.administrators, h.recovery, h.replicas, h.members, h.streams, ?_, ?_, ?_⟩
    · rw [applyPolicySetAt, applyPolicySetAt, h.policy.invites]
    · rw [applyPolicySetAt, applyPolicySetAt, h.policy.migrations]
    · exact ResolvedForkMarker.perm_sort (h.policy.markers.append_left _)
  | forkResolve p =>
    rw [← Except.ok.inj happly]
    refine ⟨_, rfl, h.administrators, h.recovery, h.replicas, h.members, h.streams, h.policy.invites,
      h.policy.migrations, ?_⟩
    exact ResolvedForkMarker.perm_sort (h.policy.markers.append_right _)
  | migrationAccept p =>
    rw [applyOperation, applyMigrationAcceptAt] at happly ⊢
    rw [← h.policy.migrations]
    split_ifs at happly ⊢
    rw [← Except.ok.inj happly]
    exact ⟨_, rfl, h.administrators, h.recovery, h.replicas, h.members, h.streams, h.policy.invites, rfl,
      h.policy.markers⟩

end GovernanceState.SameComponents

variable (env) in
/-- The operation applies to both states or to neither, and what it makes of them has one root. -/
def StepsAlike (s t : GovernanceState) (seq : UInt64) (op : GovernanceOperationPayload) : Prop :=
  (∀ s', applyEntry s seq op = .ok s' →
    ∃ t', applyEntry t seq op = .ok t' ∧ computeStateRoot env s' = computeStateRoot env t') ∧
  ∀ t', applyEntry t seq op = .ok t' →
    ∃ s', applyEntry s seq op = .ok s' ∧ computeStateRoot env s' = computeStateRoot env t'

theorem GovernanceState.SameComponents.applyEntry (h : s.SameComponents t) (hs : s.Projectable) (ht : t.Projectable)
    (hseq : s.acceptedSeq = t.acceptedSeq)
    (hfree : ∀ p, op = .deviceGrant p → s.deviceBound p.deviceId = false → t.deviceBound p.deviceId = false)
    (happly : Governance.applyEntry s seq op = .ok s') :
    ∃ t', Governance.applyEntry t seq op = .ok t' ∧ computeStateRoot env s' = computeStateRoot env t' := by
  obtain ⟨hnext, mid, hmid, rfl⟩ := applyEntry_eq_ok.mp happly
  obtain ⟨mid', hmid', hsame⟩ := h.apply hs ht hfree hmid
  refine ⟨{ mid' with acceptedSeq := seq }, applyEntry_eq_ok.mpr ⟨hseq ▸ hnext, mid', hmid', rfl⟩, ?_⟩
  have hstamped : ({ mid with acceptedSeq := seq } : GovernanceState).SameComponents { mid' with acceptedSeq := seq } :=
    ⟨hsame.administrators, hsame.recovery, hsame.replicas, hsame.members, hsame.streams, hsame.policy⟩
  exact hstamped.root_eq

/-- Reachable states of one sequence number and one root step alike under every operation, unless it grants a device
that is bound, active or revoked, in exactly one of them to a member that is active; the state that binds the device
refuses it then, and the other does not. -/
theorem computeStateRoot_steps (hs : s.Reachable env) (ht : t.Reachable env) (hfits : s.Fits)
    (hfree : Set.InjOn env.blake3 (s.rootWords env ∪ t.rootWords env)) (hseq : s.acceptedSeq = t.acceptedSeq)
    (hroot : computeStateRoot env s = computeStateRoot env t) (seq : UInt64) (op : GovernanceOperationPayload) :
    StepsAlike env s t seq op ↔
      ∀ p m, op = .deviceGrant p → seq.toNat = s.acceptedSeq.toNat + 1 → s.members.get? p.memberId = some m →
        m.status = .active → s.deviceBound p.deviceId = t.deviceBound p.deviceId := by
  have hsame := sameComponents_of_root hs ht hfits hfree hroot
  have hps := hs.projectable
  have hpt := ht.projectable
  constructor
  · rintro halike p m rfl hnext hm hactive
    obtain ⟨m', hm', hactive', -⟩ := hsame.member_active hm hactive
    have hok := @applyDeviceGrantAt_eq_ok s
    have hok' := @applyDeviceGrantAt_eq_ok t
    cases hbound : s.deviceBound p.deviceId with
    | false =>
      have happly : applyEntry s seq (.deviceGrant p) = .ok _ :=
        applyEntry_eq_ok.mpr ⟨hnext, _, hok.mpr ⟨hbound, m, hm, hactive, rfl⟩, rfl⟩
      obtain ⟨t', ht', -⟩ := halike.1 _ happly
      obtain ⟨-, mid, hmid, -⟩ := applyEntry_eq_ok.mp ht'
      exact (hok'.mp hmid).1.symm
    | true =>
      by_contra hne
      have hbound' : t.deviceBound p.deviceId = false := Bool.eq_false_iff.mpr (Ne.symm hne)
      have happly : applyEntry t seq (.deviceGrant p) = .ok _ :=
        applyEntry_eq_ok.mpr ⟨hseq ▸ hnext, _, hok'.mpr ⟨hbound', m', hm', hactive', rfl⟩, rfl⟩
      obtain ⟨s', hs', -⟩ := halike.2 _ happly
      obtain ⟨-, mid, hmid, -⟩ := applyEntry_eq_ok.mp hs'
      rw [(hok.mp hmid).1] at hbound
      cases hbound
  · intro hbound
    refine ⟨fun s' happly => ?_, fun t' happly => ?_⟩
    · refine hsame.applyEntry hps hpt hseq ?_ happly
      rintro p rfl hunbound
      obtain ⟨hnext, mid, hmid, -⟩ := applyEntry_eq_ok.mp happly
      obtain ⟨-, m, hm, hactive, -⟩ := applyDeviceGrantAt_eq_ok.mp hmid
      rw [← hbound p m rfl hnext hm hactive, hunbound]
    · have hunbound : ∀ p, op = .deviceGrant p → t.deviceBound p.deviceId = false → s.deviceBound p.deviceId = false := by
        rintro p rfl hfree
        obtain ⟨hnext, mid, hmid, -⟩ := applyEntry_eq_ok.mp happly
        obtain ⟨-, m', hm', hactive', -⟩ := applyDeviceGrantAt_eq_ok.mp hmid
        obtain ⟨m, hm, hactive, -⟩ := hsame.symm.member_active hm' hactive'
        rw [hbound p m rfl (hseq ▸ hnext) hm hactive, hfree]
      obtain ⟨s', hs', hroots⟩ := hsame.symm.applyEntry hpt hps hseq.symm hunbound happly
      exact ⟨s', hs', hroots.symm⟩

/-! Two states that differ in the revoked device alone. -/

namespace Toy

def withoutOther : GovernanceState :=
  (applyAll soloGenesis [grant, .deviceGrant ⟨principal 2, Id.ofNat 9, []⟩,
    .deviceRevoke ⟨principal 2, Id.ofNat 9⟩]).toOption.getD soloGenesis

theorem withoutOther_reachable : withoutOther.Reachable toyEnv :=
  applyAll_reachable soloGenesis_reachable (show applyAll soloGenesis [grant, .deviceGrant ⟨principal 2, Id.ofNat 9, []⟩,
    .deviceRevoke ⟨principal 2, Id.ofNat 9⟩] = .ok withoutOther from rfl)

theorem withoutOther_components : withoutOther.components = joined.components := rfl

theorem withoutOther_records : withoutOther.memberRecords = joined.memberRecords := rfl

theorem withoutDevice_root : computeStateRoot toyEnv withoutDevice = computeStateRoot toyEnv withoutOther :=
  computeStateRoot_congr (withoutDevice_components.trans withoutOther_components.symm)
    (withoutDevice_records.trans withoutOther_records.symm)

theorem withoutDevice_fits : withoutDevice.Fits := joined_fits.congr withoutDevice_components withoutDevice_records

theorem applyAll_communityId {s t : GovernanceState} {ops : List GovernanceOperationPayload}
    (h : applyAll s ops = .ok t) : t.communityId = s.communityId := by
  induction ops generalizing s with
  | nil =>
    cases h
    rfl
  | cons op ops ih =>
    rw [applyAll, List.foldlM_cons, bind_eq_ok_iff] at h
    obtain ⟨s', hs', hrest⟩ := h
    exact (ih hrest).trans (applyEntry_communityId hs')

/-- The device that one of the two states has revoked. -/
def regrant : DeviceGrant := ⟨principal 2, Id.ofNat 6, []⟩

theorem withoutDevice_seq : withoutDevice.acceptedSeq = withoutOther.acceptedSeq := by decide

theorem withoutDevice_bound : withoutDevice.deviceBound regrant.deviceId = true := by decide

theorem withoutOther_bound : withoutOther.deviceBound regrant.deviceId = false := by decide

theorem withoutDevice_member :
    ∃ m, withoutDevice.members.get? regrant.memberId = some m ∧ m.status = .active := ⟨_, rfl, rfl⟩

theorem withoutOther_member :
    ∃ m, withoutOther.members.get? regrant.memberId = some m ∧ m.status = .active := ⟨_, rfl, rfl⟩

/-- One root, one sequence number, and an operation that only one of the two takes. -/
theorem not_root_determines_step :
    withoutDevice.Reachable toyEnv ∧ withoutOther.Reachable toyEnv ∧
      withoutDevice.communityId = withoutOther.communityId ∧ withoutDevice.acceptedSeq = withoutOther.acceptedSeq ∧
      computeStateRoot toyEnv withoutDevice = computeStateRoot toyEnv withoutOther ∧
      (∃ next, applyEntry withoutOther 4 (.deviceGrant regrant) = .ok next) ∧
      ∀ next, applyEntry withoutDevice 4 (.deviceGrant regrant) ≠ .ok next := by
  refine ⟨withoutDevice_reachable, withoutOther_reachable, ?_, withoutDevice_seq, withoutDevice_root, ?_, ?_⟩
  · rw [applyAll_communityId (show applyAll soloGenesis [grant, .deviceGrant ⟨principal 2, Id.ofNat 6, []⟩,
        .deviceRevoke ⟨principal 2, Id.ofNat 6⟩] = .ok withoutDevice from rfl),
      applyAll_communityId (show applyAll soloGenesis [grant, .deviceGrant ⟨principal 2, Id.ofNat 9, []⟩,
        .deviceRevoke ⟨principal 2, Id.ofNat 9⟩] = .ok withoutOther from rfl)]
  · obtain ⟨m, hm, hactive⟩ := withoutOther_member
    exact ⟨_, applyEntry_eq_ok.mpr ⟨by decide, _,
      applyDeviceGrantAt_eq_ok.mpr ⟨withoutOther_bound, m, hm, hactive, rfl⟩, rfl⟩⟩
  · intro next hnext
    obtain ⟨-, mid, hmid, -⟩ := applyEntry_eq_ok.mp hnext
    have hbound := ((@applyDeviceGrantAt_eq_ok withoutDevice mid regrant).mp hmid).1
    rw [withoutDevice_bound] at hbound
    cases hbound

theorem computeStateRoot_steps_revoke :
    StepsAlike toyEnv withoutDevice withoutOther 4 (.memberRevoke ⟨principal 2⟩) ∧
      ¬ StepsAlike toyEnv withoutDevice withoutOther 4 (.deviceGrant regrant) := by
  have hwithout := rootWords_hashedFor (withoutDevice_records.trans joined_records)
  have hother := rootWords_hashedFor (withoutOther_records.trans joined_records)
  rw [hashedFor_congr withoutDevice_components withoutDevice_records] at hwithout
  rw [hashedFor_congr withoutOther_components withoutOther_records] at hother
  have hiff := computeStateRoot_steps withoutDevice_reachable withoutOther_reachable withoutDevice_fits
    (hashedFor_joined_injOn.mono (Set.union_subset hwithout hother)) withoutDevice_seq withoutDevice_root 4
  refine ⟨(hiff _).mpr ?_, fun halike => ?_⟩
  · intro p m hop
    cases hop
  · obtain ⟨m, hm, hactive⟩ := withoutDevice_member
    have hbound := (hiff _).mp halike regrant m rfl (by decide) hm hactive
    rw [withoutDevice_bound, withoutOther_bound] at hbound
    cases hbound

end Toy

end IrohRooms.Governance
