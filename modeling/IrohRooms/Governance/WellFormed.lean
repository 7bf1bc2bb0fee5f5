import IrohRooms.Governance.Soundness

/-!
# Well-formed governance states

What every state between a verified genesis and its descendants looks like, by one invariant over the transitions.
An operation rewrites at most one member record, in one of the six ways of `MemberUpdate`; the administrators change
only to a valid threshold; the accumulated sets of the policy only grow.
-/

namespace IrohRooms.Governance

variable {env : Env} {old mid next : GovernanceState} {seq : UInt64} {op : GovernanceOperationPayload}

/-! ### What an operation does to each component -/

/-- The record that an operation at `seq` writes under member `a`. -/
inductive MemberUpdate (old : GovernanceState) (seq : UInt64) (a : PrincipalId) : MemberRecord → Prop
  | grant (roles : List Role) (profile : Option Bytes) (hnew : old.members.get? a = none) :
      MemberUpdate old seq a ⟨a, roles, .active, OrdMap.empty, seq, none, profile⟩
  | regrant {m : MemberRecord} (roles : List Role) (profile : Option Bytes) (hm : old.members.get? a = some m) :
      MemberUpdate old seq a
        { m with roles := roles, status := .active, grantSeq := seq, revokeSeq := none, profile := profile }
  | revoke {m : MemberRecord} (hm : old.members.get? a = some m) :
      MemberUpdate old seq a
        { m with
          status := .revoked
          revokeSeq := some seq
          devices := m.devices.mapValues fun d => { d with status := .revoked } }
  | roleSet {m : MemberRecord} (roles : List Role) (hm : old.members.get? a = some m) :
      MemberUpdate old seq a { m with roles := roles }
  | deviceGrant {m : MemberRecord} (d : DeviceId) (binding : Bytes) (hm : old.members.get? a = some m)
      (hactive : m.status = .active) (hfree : ∀ b m', old.members.get? b = some m' → m'.devices.get? d = none) :
      MemberUpdate old seq a { m with devices := m.devices.insert d ⟨d, .active, binding⟩ }
  | deviceRevoke {m : MemberRecord} {d : DeviceId} {record : DeviceRecord} (hm : old.members.get? a = some m)
      (hd : m.devices.get? d = some record) :
      MemberUpdate old seq a { m with devices := m.devices.insert d { record with status := .revoked } }

/-- The history in a policy: what is in it stays in it. -/
structure CommunityPolicy.Kept (p q : CommunityPolicy) : Prop where
  invites : ∀ invite ∈ p.revokedInvites, invite ∈ q.revokedInvites
  migrations : ∀ migration ∈ p.migrations, migration ∈ q.migrations
  markers : p.forkMarkers.Subperm q.forkMarkers

theorem CommunityPolicy.Kept.refl (p : CommunityPolicy) : p.Kept p := ⟨fun _ h => h, fun _ h => h, .refl _⟩

/-- The states that an operation at `seq` can lead to: each rewrites one component. -/
inductive Transition (old : GovernanceState) (seq : UInt64) : GovernanceState → Prop
  | members {a : PrincipalId} {m : MemberRecord} (h : MemberUpdate old seq a m) :
      Transition old seq { old with members := old.members.insert a m }
  | administrators {admins : AdministratorState} (h : ValidThreshold admins.administrators admins.threshold) :
      Transition old seq { old with administrators := admins }
  | recovery (config : RecoveryConfig) : Transition old seq { old with recovery := ⟨config.canonicalize⟩ }
  | replicas (r : ReplicaRecord) :
      Transition old seq { old with replicas := old.replicas.insert r.descriptor.replicaId r }
  | streamCreate (r : StreamRecord) : Transition old seq { old with streams := old.streams.insert r.streamId r }
  | streamUpdate {id : StreamId} {r r' : StreamRecord} (hr : old.streams.get? id = some r)
      (hid : r'.streamId = r.streamId) : Transition old seq { old with streams := old.streams.insert id r' }
  | policy {q : CommunityPolicy} (h : old.policy.Kept q) : Transition old seq { old with policy := q }

theorem applyAdminSetAt_eq_ok {p : AdminSet} (h : applyAdminSetAt old p = .ok mid) :
    mid = { old with administrators := ⟨p.administrators, p.threshold⟩ } ∧
      ValidThreshold p.administrators p.threshold := by
  rw [applyAdminSetAt] at h
  iterate 5
    split at h
    · cases h
  rename_i _ hsorted hzero hcount hle
  cases h
  have hpos : p.threshold.toNat ≠ 0 := fun h => hzero (UInt16.toNat_inj.mp h)
  exact ⟨rfl, OrdSet.sortDedup_eq_self.mp (not_not.mp hsorted), by omega, by omega, by omega⟩

theorem ResolvedForkMarker.sort_perm (markers : List ResolvedForkMarker) : (sort markers).Perm markers :=
  List.perm_insertionSort _ _

theorem applyPolicySetAt_kept (p : PolicySet) : old.policy.Kept (applyPolicySetAt old p).policy := by
  refine ⟨fun _ h => ?_, fun _ h => ?_, ?_⟩
  · exact OrdSet.mem_extend.mpr (Or.inr (OrdSet.mem_toList.mpr h))
  · exact OrdSet.mem_extend.mpr (Or.inr (OrdSet.mem_toList.mpr h))
  · apply List.Subperm.trans _ (ResolvedForkMarker.sort_perm _).symm.subperm
    exact (List.sublist_append_right _ _).subperm

theorem applyForkResolveAt_kept (p : ForkResolve) : old.policy.Kept (applyForkResolveAt old p).policy := by
  refine ⟨fun _ h => h, fun _ h => h, ?_⟩
  apply List.Subperm.trans _ (ResolvedForkMarker.sort_perm _).symm.subperm
  exact (List.sublist_append_left _ _).subperm

/-- An operation that applies makes one of the transitions. -/
theorem applyOperation_transition (h : applyOperation old seq op = .ok mid) : Transition old seq mid := by
  cases op with
  | memberGrant p =>
    rw [applyOperation, applyMemberGrantAt] at h
    split_ifs at h
    cases h
    cases hm : old.members.get? p.memberId with
    | none => exact .members (.grant p.roles p.profile hm)
    | some m => exact .members (.regrant p.roles p.profile hm)
  | memberRevoke p =>
    rw [applyOperation, applyMemberRevokeAt] at h
    split at h
    · rename_i m hm
      split_ifs at h
      cases h
      exact .members (.revoke hm)
    · cases h
  | memberRoleSet p =>
    rw [applyOperation, applyMemberRoleSetAt] at h
    split_ifs at h
    split at h
    · rename_i m hm
      split_ifs at h
      cases h
      exact .members (.roleSet p.roles hm)
    · cases h
  | deviceGrant p =>
    rw [applyOperation, applyDeviceGrantAt] at h
    split at h
    · rename_i m hm
      split_ifs at h with hactive howned
      cases h
      refine .members (.deviceGrant p.deviceId p.binding hm (not_not.mp hactive) ?_)
      intro b m' hm'
      by_contra hne
      apply howned
      rw [List.any_eq_true]
      exact ⟨m', OrdMap.mem_values.mpr ⟨b, hm'⟩, Option.isSome_iff_ne_none.mpr hne⟩
    · cases h
  | deviceRevoke p =>
    rw [applyOperation, applyDeviceRevokeAt] at h
    split at h
    · rename_i m hm
      split_ifs at h
      split at h
      · rename_i d hd
        split_ifs at h
        cases h
        exact .members (.deviceRevoke hm hd)
      · cases h
    · cases h
  | adminSet p =>
    obtain ⟨rfl, hvalid⟩ := applyAdminSetAt_eq_ok h
    exact .administrators hvalid
  | recoverySet p =>
    cases h
    exact .recovery p.recovery
  | replicaSet p =>
    cases h
    exact .replicas ⟨p.replica, p.status⟩
  | streamCreate p =>
    rw [applyOperation, applyStreamCreateAt] at h
    split_ifs at h
    cases h
    exact .streamCreate ⟨p.streamId, p.policy, false, p.createdAtMs⟩
  | streamPolicySet p =>
    rw [applyOperation, applyStreamPolicySetAt] at h
    split at h
    · rename_i r hr
      cases h
      exact .streamUpdate hr rfl
    · cases h
  | streamArchive p =>
    rw [applyOperation, applyStreamArchiveAt] at h
    split at h
    · rename_i r hr
      cases h
      exact .streamUpdate hr rfl
    · cases h
  | inviteRevoke p =>
    cases h
    exact .policy ⟨fun _ h => OrdSet.mem_add.mpr (Or.inr h), fun _ h => h, .refl _⟩
  | policySet p =>
    cases h
    exact .policy (applyPolicySetAt_kept p)
  | forkResolve p =>
    cases h
    exact .policy (applyForkResolveAt_kept p)
  | migrationAccept p =>
    rw [applyOperation, applyMigrationAcceptAt] at h
    split_ifs at h
    cases h
    exact .policy ⟨fun _ h => h, fun _ h => OrdSet.mem_add.mpr (Or.inr h), .refl _⟩

theorem Transition.kept (h : Transition old seq mid) : old.policy.Kept mid.policy := by
  cases h with
  | policy h => exact h
  | _ => exact .refl _

theorem Transition.administrators_valid (h : Transition old seq mid)
    (hold : ValidThreshold old.administrators.administrators old.administrators.threshold) :
    ValidThreshold mid.administrators.administrators mid.administrators.threshold := by
  cases h with
  | administrators h => exact h
  | _ => exact hold

theorem Transition.members_eq (h : Transition old seq mid) :
    mid.members = old.members ∨ ∃ a m, MemberUpdate old seq a m ∧ mid.members = old.members.insert a m := by
  cases h with
  | members h => exact Or.inr ⟨_, _, h, rfl⟩
  | _ => exact Or.inl rfl

/-! ### The invariant -/

/-- A record after the entries up to `accepted`: revoked with the later sequence number and no active device, or active
without one. -/
structure MemberRecord.WellFormed (m : MemberRecord) (accepted : UInt64) : Prop where
  granted : m.grantSeq.toNat ≤ accepted.toNat
  revoked : m.revokeSeq.isSome ↔ m.status = .revoked
  later : ∀ r, m.revokeSeq = some r → m.grantSeq.toNat < r.toNat
  devices : m.status = .revoked → ∀ d record, m.devices.get? d = some record → record.status = .revoked

structure GovernanceState.WellFormed (s : GovernanceState) : Prop where
  administrators : ValidThreshold s.administrators.administrators s.administrators.threshold
  members : ∀ a m, s.members.get? a = some m → m.WellFormed s.acceptedSeq
  owner : ∀ a b m m' d, s.members.get? a = some m → s.members.get? b = some m' → (m.devices.get? d).isSome →
    (m'.devices.get? d).isSome → a = b

theorem MemberRecord.WellFormed.mono {m : MemberRecord} {accepted accepted' : UInt64} (h : m.WellFormed accepted)
    (hle : accepted.toNat ≤ accepted'.toNat) : m.WellFormed accepted' :=
  ⟨h.granted.trans hle, h.revoked, h.later, h.devices⟩

/-- The rewritten record is well formed at its sequence number. -/
theorem MemberUpdate.wellFormed {a : PrincipalId} {m : MemberRecord} (h : MemberUpdate old seq a m)
    (hold : old.WellFormed) (hseq : seq.toNat = old.acceptedSeq.toNat + 1) : m.WellFormed seq := by
  cases h with
  | grant roles profile hnew => exact ⟨le_refl _, by simp, by simp, by simp⟩
  | regrant roles profile hm => exact ⟨le_refl _, by simp, by simp, by simp⟩
  | @revoke m hm =>
    have hgrant := (hold.members a m hm).granted
    refine ⟨show m.grantSeq.toNat ≤ seq.toNat by omega, by simp, fun r hr => ?_, fun _ d record hd => ?_⟩
    · cases hr
      show m.grantSeq.toNat < seq.toNat
      omega
    · rw [OrdMap.get?_mapValues] at hd
      obtain ⟨record', -, rfl⟩ := Option.map_eq_some_iff.mp hd
      rfl
  | roleSet roles hm =>
    have hm := (hold.members a _ hm).mono (show old.acceptedSeq.toNat ≤ seq.toNat by omega)
    exact ⟨hm.granted, hm.revoked, hm.later, hm.devices⟩
  | deviceGrant d binding hm hactive hfree =>
    have hm := (hold.members a _ hm).mono (show old.acceptedSeq.toNat ≤ seq.toNat by omega)
    refine ⟨hm.granted, hm.revoked, hm.later, fun hrevoked => ?_⟩
    exact absurd (hrevoked.symm.trans hactive) (by simp)
  | @deviceRevoke m d record hm hd =>
    have hm := (hold.members a _ hm).mono (show old.acceptedSeq.toNat ≤ seq.toNat by omega)
    refine ⟨hm.granted, hm.revoked, hm.later, fun hrevoked d' record' hd' => ?_⟩
    rw [OrdMap.get?_insert] at hd'
    split_ifs at hd'
    · cases hd'
      rfl
    · exact hm.devices hrevoked d' record' hd'

/-- A device of the rewritten record was the member's already, or nobody's. -/
theorem MemberUpdate.device {a : PrincipalId} {m : MemberRecord} (h : MemberUpdate old seq a m) {d : DeviceId}
    (hd : (m.devices.get? d).isSome) :
    (∃ m', old.members.get? a = some m' ∧ (m'.devices.get? d).isSome) ∨
      ∀ b m', old.members.get? b = some m' → m'.devices.get? d = none := by
  cases h with
  | grant roles profile hnew => simp at hd
  | regrant roles profile hm => exact Or.inl ⟨_, hm, hd⟩
  | revoke hm =>
    rw [OrdMap.get?_mapValues, Option.isSome_map] at hd
    exact Or.inl ⟨_, hm, hd⟩
  | roleSet roles hm => exact Or.inl ⟨_, hm, hd⟩
  | deviceGrant d' binding hm hactive hfree =>
    rw [OrdMap.get?_insert] at hd
    split_ifs at hd with heq
    · subst heq
      exact Or.inr hfree
    · exact Or.inl ⟨_, hm, hd⟩
  | @deviceRevoke m d' record hm hd' =>
    rw [OrdMap.get?_insert] at hd
    split_ifs at hd with heq
    · subst heq
      exact Or.inl ⟨_, hm, by rw [hd']; rfl⟩
    · exact Or.inl ⟨_, hm, hd⟩

theorem GovernanceState.WellFormed.apply (h : old.WellFormed) (happly : applyEntry old seq op = .ok next) :
    next.WellFormed := by
  obtain ⟨hseq, mid, hmid, rfl⟩ := applyEntry_eq_ok.mp happly
  have htrans := applyOperation_transition hmid
  have hadmins := htrans.administrators_valid h.administrators
  rcases htrans.members_eq with heq | ⟨a, m, hupdate, heq⟩
  · refine ⟨hadmins, ?_, ?_⟩
    · intro b m hm
      exact (h.members b m (heq ▸ hm)).mono (show old.acceptedSeq.toNat ≤ seq.toNat by omega)
    · intro b c m m' d hm hm'
      exact h.owner b c m m' d (heq ▸ hm) (heq ▸ hm')
  · -- a device shared by the new record and another member's would have had two owners before
    have hother : ∀ b m' d, b ≠ a → old.members.get? b = some m' → (m.devices.get? d).isSome →
        ¬ (m'.devices.get? d).isSome := by
      intro b m' d hne hm' hd hd'
      rcases hupdate.device hd with ⟨m₀, hm₀, hd₀⟩ | hfree
      · exact hne (h.owner b a m' m₀ d hm' hm₀ hd' hd₀)
      · rw [hfree b m' hm'] at hd'
        cases hd'
    refine ⟨hadmins, ?_, ?_⟩
    · intro b m' hm'
      dsimp only at hm' ⊢
      rw [heq, OrdMap.get?_insert] at hm'
      split_ifs at hm'
      · cases hm'
        exact hupdate.wellFormed h hseq
      · exact (h.members b m' hm').mono (show old.acceptedSeq.toNat ≤ seq.toNat by omega)
    · intro b c m₁ m₂ d hm₁ hm₂ hd₁ hd₂
      dsimp only at hm₁ hm₂
      rw [heq, OrdMap.get?_insert] at hm₁ hm₂
      split_ifs at hm₁ hm₂ with hb hc hc
      · rw [hb, hc]
      · cases hm₁
        exact absurd hd₂ (hother c m₂ d hc hm₂ hd₁)
      · cases hm₂
        exact absurd hd₁ (hother b m₁ d hb hm₁ hd₂)
      · exact h.owner b c m₁ m₂ d hm₁ hm₂ hd₁ hd₂

/-! ### Reachable states -/

/-- The states that entries lead to from a verified genesis. -/
inductive GovernanceState.Reachable (env : Env) : GovernanceState → Prop
  | genesis {config : GenesisConfig} {signatures : List GenesisSignature} {communityId : CommunityId}
      (h : verifyGenesis env config signatures = .ok communityId) : Reachable env (.fromGenesis config communityId)
  | apply {s next : GovernanceState} {seq : UInt64} {op : GovernanceOperationPayload} (hs : Reachable env s)
      (h : applyEntry s seq op = .ok next) : Reachable env next

theorem GenesisConfig.validate_eq_ok {config : GenesisConfig} (h : config.validate = .ok ()) :
    ValidThreshold config.administrators config.adminThreshold := by
  rw [validate] at h
  iterate 9
    split at h
    · cases h
  rename_i hsorted hzero hcount hle _ _
  have hpos : config.adminThreshold.toNat ≠ 0 := fun h => hzero (UInt16.toNat_inj.mp h)
  exact ⟨OrdSet.sortDedup_eq_self.mp (not_not.mp hsorted), by omega, by omega, by omega⟩

theorem verifyGenesis_validate {config : GenesisConfig} {signatures : List GenesisSignature}
    {communityId : CommunityId} (h : verifyGenesis env config signatures = .ok communityId) :
    config.validate = .ok () := by
  obtain ⟨u, hvalid, -⟩ := bind_eq_ok_iff.mp h
  exact hvalid

/-- The first members are the administrators, without devices. -/
theorem GovernanceState.fromGenesis_member {config : GenesisConfig} {communityId : CommunityId} {a : PrincipalId}
    {m : MemberRecord} (h : (fromGenesis config communityId).members.get? a = some m) :
    m = ⟨a, [.admin], .active, OrdMap.empty, 0, none, none⟩ := by
  have hfold : ∀ (l : List PrincipalId) (map : OrdMap PrincipalId MemberRecord),
      (∀ m, map.get? a = some m → m = ⟨a, [.admin], .active, OrdMap.empty, 0, none, none⟩) →
      ∀ m, (l.foldl (fun map x => map.insert x ⟨x, [.admin], .active, OrdMap.empty, 0, none, none⟩) map).get? a
        = some m → m = ⟨a, [.admin], .active, OrdMap.empty, 0, none, none⟩ := by
    intro l
    induction l with
    | nil => exact fun map hmap => hmap
    | cons x l ih =>
      intro map hmap
      apply ih
      intro m hm
      rw [OrdMap.get?_insert] at hm
      split_ifs at hm with heq
      · cases hm
        rw [heq]
      · exact hmap m hm
  exact hfold config.administrators OrdMap.empty (by simp) m h

theorem GovernanceState.fromGenesis_wellFormed {config : GenesisConfig} (communityId : CommunityId)
    (h : config.validate = .ok ()) : (fromGenesis config communityId).WellFormed := by
  refine ⟨GenesisConfig.validate_eq_ok h, fun a m hm => ?_, fun a b m m' d hm _ hd => ?_⟩
  · rw [fromGenesis_member hm]
    exact ⟨le_refl _, by simp, by simp, by simp⟩
  · rw [fromGenesis_member hm] at hd
    cases hd

theorem GovernanceState.Reachable.invariant {s : GovernanceState} (h : Reachable env s) : s.WellFormed := by
  induction h with
  | genesis hg => exact fromGenesis_wellFormed _ (verifyGenesis_validate hg)
  | apply _ happly ih => exact ih.apply happly

theorem applyEntry_policy (h : applyEntry old seq op = .ok next) : old.policy.Kept next.policy := by
  obtain ⟨-, mid, hmid, rfl⟩ := applyEntry_eq_ok.mp h
  show old.policy.Kept mid.policy
  exact (applyOperation_transition hmid).kept

/-- Every reachable state is well formed, and every entry that applies to it keeps the revoked invites, the accepted
migrations and the resolved forks. -/
theorem GovernanceState.reachable_wellFormed (s : GovernanceState) (h : Reachable env s) :
    s.WellFormed ∧ ∀ seq op next, applyEntry s seq op = .ok next → s.policy.Kept next.policy :=
  ⟨h.invariant, fun _ _ _ happly => applyEntry_policy happly⟩

/-- The snapshots that a machine retains are reachable, resolutions included. -/
theorem GovernanceLineage.Sound.reachable {lineage : GovernanceLineage} (hs : lineage.Sound env)
    (hg : lineage.genesis.state.Reachable env) {id : GovernanceId} {node : LineageNode}
    (hnode : lineage.get id = some node) : node.state.state.Reachable env := by
  induction hn : node.seq.toNat using Nat.strong_induction_on generalizing id node with
  | _ n ih =>
    obtain ⟨p, hp, hstep⟩ := (hs.nodes id node hnode).step
    refine .apply ?_ hstep.apply
    rcases hprev : node.prev with _ | q <;> rw [hprev] at hp
    · rw [← Option.some.inj hp]
      exact hg
    · obtain ⟨up, hup, hseq⟩ := hs.known_prev hnode hprev
      rw [GovernanceLineage.pred, hup] at hp
      rw [← Option.some.inj hp]
      exact ih up.seq.toNat (by omega) hup rfl

namespace Toy

/-- One operation after the other, each at the next sequence number. -/
def applyAll (s : GovernanceState) (ops : List GovernanceOperationPayload) : Except Reject GovernanceState :=
  ops.foldlM (fun s op => applyEntry s (s.acceptedSeq + 1) op) s

theorem applyAll_reachable {s t : GovernanceState} (hs : s.Reachable env)
    {ops : List GovernanceOperationPayload} (h : applyAll s ops = .ok t) : t.Reachable env := by
  induction ops generalizing s with
  | nil =>
    cases h
    exact hs
  | cons op ops ih =>
    rw [applyAll, List.foldlM_cons, bind_eq_ok_iff] at h
    obtain ⟨s', hs', hrest⟩ := h
    exact ih (.apply hs hs') hrest

/-- Member 5 joins with a device, is revoked and comes back. -/
def comeback : List GovernanceOperationPayload :=
  [.memberGrant ⟨principal 5, [.member], none⟩, .deviceGrant ⟨principal 5, Id.ofNat 6, []⟩,
    .inviteRevoke ⟨Id.ofNat 7⟩, .memberRevoke ⟨principal 5⟩, .memberGrant ⟨principal 5, [.member], none⟩,
    .memberRevoke ⟨principal 5⟩]

def afterComeback : GovernanceState := (applyAll (genesis small).state comeback).toOption.getD (genesis small).state

theorem afterComeback_reachable : afterComeback.Reachable tailEnv := by
  obtain ⟨communityId, hg, hstate⟩ := bind_eq_ok_iff.mp (genesis_validated small)
  have hgenesis : (genesis small).state.Reachable tailEnv := by
    rw [← Except.ok.inj hstate]
    exact .genesis hg
  exact applyAll_reachable hgenesis (show applyAll (genesis small).state comeback = .ok afterComeback from rfl)

/-- Member 5 was revoked by the sixth entry, after its grant by the fifth. -/
theorem reachable_wellFormed_comeback :
    afterComeback.WellFormed ∧ afterComeback.acceptedSeq = 6 ∧
      (afterComeback.members.get? (principal 5)).map (fun m => (m.grantSeq, m.revokeSeq)) = some (5, some 6) :=
  ⟨(GovernanceState.reachable_wellFormed afterComeback afterComeback_reachable).1, rfl, rfl⟩

end Toy

end IrohRooms.Governance
