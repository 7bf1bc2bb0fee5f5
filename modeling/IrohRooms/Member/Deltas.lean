import IrohRooms.Governance.Commitment
import IrohRooms.Member.Rebuild

/-!
# What an operation does to the projected records

The projection never sees a revoked device. Each member operation changes the projected record of one member, and the
change is a function of that record and the payload: the member map of a state can be kept up to date from the payloads
alone.
-/

namespace IrohRooms.Governance

/-- The labels of a role set, sorted and each once. -/
def cloneRoles (roles : List Role) : List String := OrdSet.sortDedup (roles.map Role.asStr)

namespace ProjectedMemberRecord

/-! ### Deltas -/

def granted (p : MemberGrant) (seq : UInt64) : ProjectedMemberRecord :=
  ⟨p.memberId, .active, cloneRoles p.roles, [], seq, none, p.profile⟩

/-- Devices survive a regrant. -/
def regranted (r : ProjectedMemberRecord) (p : MemberGrant) (seq : UInt64) : ProjectedMemberRecord :=
  { r with roles := cloneRoles p.roles, status := .active, grantSeq := seq, revokeSeq := none, profile := p.profile }

def revoked (r : ProjectedMemberRecord) (seq : UInt64) : ProjectedMemberRecord :=
  { r with status := .revoked, revokeSeq := some seq, activeDevices := [] }

def withRoles (r : ProjectedMemberRecord) (p : MemberRoleSet) : ProjectedMemberRecord :=
  { r with roles := cloneRoles p.roles }

def withDevice (r : ProjectedMemberRecord) (p : DeviceGrant) : ProjectedMemberRecord :=
  { r with activeDevices :=
      (r.activeDevices ++ [ActiveDevice.mk p.deviceId p.binding]).insertionSort fun a b => a.deviceId ≤ b.deviceId }

def withoutDevice (r : ProjectedMemberRecord) (p : DeviceRevoke) : ProjectedMemberRecord :=
  { r with activeDevices := r.activeDevices.filter fun d => d.deviceId ≠ p.deviceId }

end ProjectedMemberRecord

/-- The projected records of a state. -/
def GovernanceState.records (s : GovernanceState) : OrdMap PrincipalId ProjectedMemberRecord :=
  s.members.mapValues projectGovernanceMemberUnchecked

/-- The member whose record an operation rewrites, and the new record. -/
def memberEffect (records : OrdMap PrincipalId ProjectedMemberRecord) (seq : UInt64) :
    GovernanceOperationPayload → Option (PrincipalId × ProjectedMemberRecord)
  | .memberGrant p => match records.get? p.memberId with
    | some r => some (p.memberId, r.regranted p seq)
    | none => some (p.memberId, .granted p seq)
  | .memberRevoke p => (records.get? p.memberId).map fun r => (p.memberId, r.revoked seq)
  | .memberRoleSet p => (records.get? p.memberId).map fun r => (p.memberId, r.withRoles p)
  | .deviceGrant p => (records.get? p.memberId).map fun r => (p.memberId, r.withDevice p)
  | .deviceRevoke p => (records.get? p.memberId).map fun r => (p.memberId, r.withoutDevice p)
  | _ => none

/-! ### Active devices -/

/-- A record that can be projected: it has a role, and each device stands under its own id. -/
structure MemberRecord.Projectable (m : MemberRecord) : Prop where
  roles : m.roles ≠ []
  devices : m.devices.KeyedBy DeviceRecord.deviceId

section Devices

variable {m : MemberRecord} {x : ActiveDevice}

theorem mem_activeDevices (h : m.devices.KeyedBy DeviceRecord.deviceId) :
    x ∈ (projectGovernanceMemberUnchecked m).activeDevices ↔
      m.devices.get? x.deviceId = some ⟨x.deviceId, .active, x.binding⟩ := by
  simp only [projectGovernanceMemberUnchecked, List.mem_map, List.mem_filter, OrdMap.mem_values, decide_eq_true_eq]
  constructor
  · rintro ⟨⟨id, status, binding⟩, ⟨⟨k, hk⟩, hactive⟩, rfl⟩
    obtain rfl : id = k := h k _ hk
    obtain rfl : status = .active := hactive
    exact hk
  · intro hget
    exact ⟨_, ⟨⟨_, hget⟩, rfl⟩, rfl⟩

theorem activeDevices_sorted (h : m.devices.KeyedBy DeviceRecord.deviceId) :
    (projectGovernanceMemberUnchecked m).activeDevices.Pairwise fun a b => a.deviceId < b.deviceId := by
  have hvalues : m.devices.values.Pairwise fun a b => a.deviceId < b.deviceId := by
    refine List.pairwise_map.mpr (m.devices.sorted.imp_of_mem fun {a b} ha hb hlt => ?_)
    rwa [h a.1 a.2 (OrdMap.mem_entries.mp ha), h b.1 b.2 (OrdMap.mem_entries.mp hb)]
  exact List.pairwise_map.mpr (hvalues.filter _)

/-- Lists under ascending ids are equal when they have the same items. -/
theorem eq_of_ascending {l l' : List ActiveDevice} (hl : l.Pairwise fun a b => a.deviceId < b.deviceId)
    (hl' : l'.Pairwise fun a b => a.deviceId < b.deviceId) (h : ∀ x, x ∈ l ↔ x ∈ l') : l = l' := by
  have hnodup : ∀ {l : List ActiveDevice}, (l.Pairwise fun a b => a.deviceId < b.deviceId) → l.Nodup :=
    fun hl => hl.imp fun hlt heq => hlt.ne (congrArg ActiveDevice.deviceId heq)
  have hperm := (List.perm_ext_iff_of_nodup (hnodup hl) (hnodup hl')).mpr h
  rw [← Member.insertionSort_keyed hperm hl', Member.insertionSort_keyed (List.Perm.refl l) hl]

theorem project_revoke (m : MemberRecord) (seq : UInt64) :
    projectGovernanceMemberUnchecked
      { m with
        status := .revoked
        revokeSeq := some seq
        devices := m.devices.mapValues fun d => { d with status := .revoked } } =
      (projectGovernanceMemberUnchecked m).revoked seq := by
  have hnone : ((m.devices.mapValues fun d => { d with status := .revoked }).values.filter
      fun d => d.status = .active) = [] := by
    rw [List.filter_eq_nil_iff]
    intro d hd
    obtain ⟨k, hk⟩ := OrdMap.mem_values.mp hd
    rw [OrdMap.get?_mapValues] at hk
    obtain ⟨d', -, rfl⟩ := Option.map_eq_some_iff.mp hk
    simp
  simp [projectGovernanceMemberUnchecked, ProjectedMemberRecord.revoked, hnone]

theorem project_deviceGrant {p : DeviceGrant} (h : m.devices.KeyedBy DeviceRecord.deviceId)
    (hfree : m.devices.get? p.deviceId = none) :
    projectGovernanceMemberUnchecked { m with devices := m.devices.insert p.deviceId ⟨p.deviceId, .active, p.binding⟩ } =
      (projectGovernanceMemberUnchecked m).withDevice p := by
  have hkeyed : (m.devices.insert p.deviceId ⟨p.deviceId, .active, p.binding⟩).KeyedBy DeviceRecord.deviceId :=
    h.insert rfl
  generalize hm' : ({ m with devices := m.devices.insert p.deviceId ⟨p.deviceId, .active, p.binding⟩ } : MemberRecord) = m'
  have hdevices : m'.devices = m.devices.insert p.deviceId ⟨p.deviceId, .active, p.binding⟩ := by rw [← hm']
  rw [← hdevices] at hkeyed
  have hmem : ∀ x, x ∈ (projectGovernanceMemberUnchecked m).activeDevices ++ [ActiveDevice.mk p.deviceId p.binding] ↔
      x ∈ (projectGovernanceMemberUnchecked m').activeDevices := by
    intro x
    rw [List.mem_append, List.mem_singleton, mem_activeDevices h, mem_activeDevices hkeyed, hdevices, OrdMap.get?_insert]
    split_ifs with hid
    · rw [hid, hfree]
      obtain ⟨id, binding⟩ := x
      obtain rfl : id = p.deviceId := hid
      simp [eq_comm]
    · have hne : x ≠ ⟨p.deviceId, p.binding⟩ := fun heq => hid (congrArg ActiveDevice.deviceId heq)
      simp [hne]
  have hnodup : ((projectGovernanceMemberUnchecked m).activeDevices ++ [ActiveDevice.mk p.deviceId p.binding]).Nodup := by
    have hold := (activeDevices_sorted h).imp fun {a b} hlt heq => hlt.ne (congrArg ActiveDevice.deviceId heq)
    refine List.nodup_append.mpr ⟨hold, List.nodup_singleton _, ?_⟩
    intro a ha b hb heq
    rw [List.mem_singleton.mp hb] at heq
    rw [mem_activeDevices h, heq, hfree] at ha
    cases ha
  have hsorted := activeDevices_sorted hkeyed
  have hperm := (List.perm_ext_iff_of_nodup hnodup
    (hsorted.imp fun hlt heq => hlt.ne (congrArg ActiveDevice.deviceId heq))).mpr hmem
  rw [ProjectedMemberRecord.withDevice, Member.insertionSort_keyed hperm hsorted, ← hm']
  rfl

theorem project_deviceRevoke {p : DeviceRevoke} {d : DeviceRecord} (h : m.devices.KeyedBy DeviceRecord.deviceId)
    (hd : m.devices.get? p.deviceId = some d) :
    projectGovernanceMemberUnchecked { m with devices := m.devices.insert p.deviceId { d with status := .revoked } } =
      (projectGovernanceMemberUnchecked m).withoutDevice p := by
  have hkeyed : (m.devices.insert p.deviceId { d with status := .revoked }).KeyedBy DeviceRecord.deviceId :=
    h.insert (h p.deviceId d hd)
  generalize hm' : ({ m with devices := m.devices.insert p.deviceId { d with status := .revoked } } : MemberRecord) = m'
  have hdevices : m'.devices = m.devices.insert p.deviceId { d with status := .revoked } := by rw [← hm']
  rw [← hdevices] at hkeyed
  have heq : (projectGovernanceMemberUnchecked m').activeDevices =
      (projectGovernanceMemberUnchecked m).activeDevices.filter fun d => d.deviceId ≠ p.deviceId := by
    refine eq_of_ascending (activeDevices_sorted hkeyed) ((activeDevices_sorted h).filter _) fun x => ?_
    rw [List.mem_filter, mem_activeDevices hkeyed, mem_activeDevices h, hdevices, OrdMap.get?_insert]
    split_ifs with hid
    · simp [hid]
    · simp [hid]
  rw [ProjectedMemberRecord.withoutDevice, ← heq, ← hm']
  rfl

end Devices

/-! ### When a member operation applies -/

section Operations

variable {old mid : GovernanceState} {seq : UInt64} {op : GovernanceOperationPayload}

/-- The state with a new record of one member. -/
def GovernanceState.putMember (s : GovernanceState) (a : PrincipalId) (m : MemberRecord) : GovernanceState :=
  { s with members := s.members.insert a m }

/-- Whether some member has or had the device. -/
def GovernanceState.deviceBound (s : GovernanceState) (d : DeviceId) : Bool :=
  s.members.values.any fun m => m.devices.contains d

/-- The record after a grant. -/
def MemberGrant.record (p : MemberGrant) (seq : UInt64) : Option MemberRecord → MemberRecord
  | some m => { m with roles := p.roles, status := .active, grantSeq := seq, revokeSeq := none, profile := p.profile }
  | none => ⟨p.memberId, p.roles, .active, OrdMap.empty, seq, none, p.profile⟩

theorem applyMemberGrantAt_eq_ok {p : MemberGrant} :
    applyMemberGrantAt old p seq = .ok mid ↔ rolesMalformed p.roles = false ∧
      mid = old.putMember p.memberId (p.record seq (old.members.get? p.memberId)) := by
  rw [applyMemberGrantAt]
  split_ifs with h
  · simp [h]
  · cases old.members.get? p.memberId <;> simp [h, GovernanceState.putMember, MemberGrant.record, eq_comm]

theorem applyMemberRevokeAt_eq_ok {p : MemberRevoke} :
    applyMemberRevokeAt old p seq = .ok mid ↔ ∃ m, old.members.get? p.memberId = some m ∧ m.status = .active ∧
      mid = old.putMember p.memberId
        { m with
          status := .revoked
          revokeSeq := some seq
          devices := m.devices.mapValues fun d => { d with status := .revoked } } := by
  rw [applyMemberRevokeAt]
  cases old.members.get? p.memberId with
  | none => simp
  | some m =>
    dsimp only
    split_ifs with h
    · simp [h, GovernanceState.putMember, eq_comm]
    · simp [h]

theorem applyMemberRoleSetAt_eq_ok {p : MemberRoleSet} :
    applyMemberRoleSetAt old p = .ok mid ↔ rolesMalformed p.roles = false ∧ ∃ m, old.members.get? p.memberId = some m ∧
      m.status = .active ∧ mid = old.putMember p.memberId { m with roles := p.roles } := by
  rw [applyMemberRoleSetAt]
  split_ifs with hroles
  · simp [hroles]
  · cases old.members.get? p.memberId with
    | none => simp
    | some m =>
      dsimp only
      split_ifs with h
      · simp [h, hroles, GovernanceState.putMember, eq_comm]
      · simp [h]

theorem applyDeviceGrantAt_eq_ok {p : DeviceGrant} :
    applyDeviceGrantAt old p = .ok mid ↔ old.deviceBound p.deviceId = false ∧
      ∃ m, old.members.get? p.memberId = some m ∧ m.status = .active ∧
        mid = old.putMember p.memberId
          { m with devices := m.devices.insert p.deviceId ⟨p.deviceId, .active, p.binding⟩ } := by
  rw [applyDeviceGrantAt]
  cases old.members.get? p.memberId with
  | none => simp
  | some m =>
    dsimp only
    split_ifs with h hbound
    · simp [h]
    · simp [show old.deviceBound p.deviceId = true from hbound]
    · have hfree : old.deviceBound p.deviceId = false := Bool.eq_false_iff.mpr hbound
      simp [hfree, not_not.mp h, GovernanceState.putMember, eq_comm]

theorem applyDeviceRevokeAt_eq_ok {p : DeviceRevoke} :
    applyDeviceRevokeAt old p = .ok mid ↔ ∃ m d, old.members.get? p.memberId = some m ∧ m.status = .active ∧
      m.devices.get? p.deviceId = some d ∧ d.status = .active ∧
        mid = old.putMember p.memberId
          { m with devices := m.devices.insert p.deviceId { d with status := .revoked } } := by
  rw [applyDeviceRevokeAt]
  cases old.members.get? p.memberId with
  | none => simp
  | some m =>
    dsimp only
    split_ifs with h
    · simp [h]
    · cases hd : m.devices.get? p.deviceId with
      | none => simp [hd]
      | some d =>
        dsimp only
        split_ifs with hactive
        · simp [hd, hactive]
        · rw [Except.ok.injEq, eq_comm]
          simp [not_not.mp h, hd, not_not.mp hactive, GovernanceState.putMember]

theorem deviceBound_eq_false {s : GovernanceState} {d : DeviceId} :
    s.deviceBound d = false ↔ ∀ a m, s.members.get? a = some m → m.devices.get? d = none := by
  rw [GovernanceState.deviceBound, List.any_eq_false]
  constructor
  · intro h a m hm
    simpa [OrdMap.contains] using h m (OrdMap.mem_values.mpr ⟨a, hm⟩)
  · intro h m hm
    obtain ⟨a, ha⟩ := OrdMap.mem_values.mp hm
    simp [OrdMap.contains, h a m ha]

/-! ### Records after an operation -/

theorem records_putMember (a : PrincipalId) (m : MemberRecord) :
    (old.putMember a m).records = old.records.insert a (projectGovernanceMemberUnchecked m) := by
  refine OrdMap.ext_get? fun k => ?_
  rw [GovernanceState.records, GovernanceState.putMember, OrdMap.get?_mapValues, OrdMap.get?_insert, OrdMap.get?_insert,
    GovernanceState.records, OrdMap.get?_mapValues]
  split_ifs <;> rfl

theorem get?_records (a : PrincipalId) :
    old.records.get? a = (old.members.get? a).map projectGovernanceMemberUnchecked :=
  OrdMap.get?_mapValues _ _ _

/-- The member that an operation is about. -/
def GovernanceOperationPayload.member? : GovernanceOperationPayload → Option PrincipalId
  | .memberGrant p => some p.memberId
  | .memberRevoke p => some p.memberId
  | .memberRoleSet p => some p.memberId
  | .deviceGrant p => some p.memberId
  | .deviceRevoke p => some p.memberId
  | _ => none

theorem applyOperation_members (hop : op.member? = none) (h : applyOperation old seq op = .ok mid) :
    mid.members = old.members := by
  cases op with
  | memberGrant p | memberRevoke p | memberRoleSet p | deviceGrant p | deviceRevoke p => cases hop
  | adminSet p =>
    obtain ⟨rfl, -⟩ := applyAdminSetAt_eq_ok h
    rfl
  | streamCreate p =>
    rw [applyOperation, applyStreamCreateAt] at h
    split_ifs at h
    rw [← Except.ok.inj h]
  | streamPolicySet p =>
    rw [applyOperation, applyStreamPolicySetAt] at h
    split at h
    · rw [← Except.ok.inj h]
    · cases h
  | streamArchive p =>
    rw [applyOperation, applyStreamArchiveAt] at h
    split at h
    · rw [← Except.ok.inj h]
    · cases h
  | migrationAccept p =>
    rw [applyOperation, applyMigrationAcceptAt] at h
    split_ifs at h
    rw [← Except.ok.inj h]
  | recoverySet p | replicaSet p | inviteRevoke p | policySet p | forkResolve p =>
    rw [← Except.ok.inj h]
    rfl

/-- Every record of the state can be projected. -/
def GovernanceState.Projectable (s : GovernanceState) : Prop := ∀ a m, s.members.get? a = some m → m.Projectable

/-- The projected records after an operation are the ones that its payload makes of those before. -/
theorem applyOperation_records (hold : old.Projectable) (h : applyOperation old seq op = .ok mid) :
    mid.records = ((memberEffect old.records seq op).map fun e => old.records.insert e.1 e.2).getD old.records := by
  cases op with
  | memberGrant p =>
    obtain ⟨-, rfl⟩ := applyMemberGrantAt_eq_ok.mp h
    rw [records_putMember, memberEffect, get?_records]
    cases old.members.get? p.memberId <;> rfl
  | memberRevoke p =>
    obtain ⟨m, hm, -, rfl⟩ := applyMemberRevokeAt_eq_ok.mp h
    rw [records_putMember, memberEffect, get?_records, hm, project_revoke]
    rfl
  | memberRoleSet p =>
    obtain ⟨-, m, hm, -, rfl⟩ := applyMemberRoleSetAt_eq_ok.mp h
    rw [records_putMember, memberEffect, get?_records, hm]
    rfl
  | deviceGrant p =>
    obtain ⟨hfree, m, hm, -, rfl⟩ := applyDeviceGrantAt_eq_ok.mp h
    rw [records_putMember, memberEffect, get?_records, hm,
      project_deviceGrant (hold _ m hm).devices (deviceBound_eq_false.mp hfree _ m hm)]
    rfl
  | deviceRevoke p =>
    obtain ⟨m, d, hm, -, hd, -, rfl⟩ := applyDeviceRevokeAt_eq_ok.mp h
    rw [records_putMember, memberEffect, get?_records, hm, project_deviceRevoke (hold _ m hm).devices hd]
    rfl
  | _ =>
    rw [GovernanceState.records, applyOperation_members rfl h]
    rfl

theorem GovernanceState.Projectable.putMember (hold : old.Projectable) {a : PrincipalId} {m : MemberRecord}
    (hm : m.Projectable) : (old.putMember a m).Projectable := by
  intro b m' hb
  rw [GovernanceState.putMember, OrdMap.get?_insert] at hb
  split_ifs at hb
  · rwa [← Option.some.inj hb]
  · exact hold b m' hb

theorem ne_nil_of_rolesMalformed {roles : List Role} (h : rolesMalformed roles = false) : roles ≠ [] := by
  rintro rfl
  cases h

theorem GovernanceState.Projectable.apply (hold : old.Projectable) (h : applyOperation old seq op = .ok mid) :
    mid.Projectable := by
  cases op with
  | memberGrant p =>
    obtain ⟨hroles, rfl⟩ := applyMemberGrantAt_eq_ok.mp h
    refine hold.putMember ?_
    cases hm : old.members.get? p.memberId with
    | none => exact ⟨ne_nil_of_rolesMalformed hroles, OrdMap.keyedBy_empty⟩
    | some m => exact ⟨ne_nil_of_rolesMalformed hroles, (hold _ m hm).devices⟩
  | memberRevoke p =>
    obtain ⟨m, hm, -, rfl⟩ := applyMemberRevokeAt_eq_ok.mp h
    refine hold.putMember ⟨(hold _ m hm).roles, fun k d hd => ?_⟩
    rw [OrdMap.get?_mapValues] at hd
    obtain ⟨d', hd', rfl⟩ := Option.map_eq_some_iff.mp hd
    exact (hold _ m hm).devices k d' hd'
  | memberRoleSet p =>
    obtain ⟨hroles, m, hm, -, rfl⟩ := applyMemberRoleSetAt_eq_ok.mp h
    exact hold.putMember ⟨ne_nil_of_rolesMalformed hroles, (hold _ m hm).devices⟩
  | deviceGrant p =>
    obtain ⟨-, m, hm, -, rfl⟩ := applyDeviceGrantAt_eq_ok.mp h
    exact hold.putMember ⟨(hold _ m hm).roles, (hold _ m hm).devices.insert rfl⟩
  | deviceRevoke p =>
    obtain ⟨m, d, hm, -, hd, -, rfl⟩ := applyDeviceRevokeAt_eq_ok.mp h
    exact hold.putMember ⟨(hold _ m hm).roles, (hold _ m hm).devices.insert ((hold _ m hm).devices _ d hd)⟩
  | _ =>
    rw [GovernanceState.Projectable, applyOperation_members rfl h]
    exact hold

theorem GovernanceState.Reachable.projectable {env : Env} {s : GovernanceState} (h : s.Reachable env) :
    s.Projectable := by
  induction h with
  | genesis hg =>
    intro a m hm
    rw [GovernanceState.fromGenesis_member hm]
    exact ⟨by simp, OrdMap.keyedBy_empty⟩
  | apply _ happly ih =>
    obtain ⟨-, mid, hmid, rfl⟩ := applyEntry_eq_ok.mp happly
    have hafter : mid.Projectable := ih.apply hmid
    exact hafter

end Operations

end IrohRooms.Governance
