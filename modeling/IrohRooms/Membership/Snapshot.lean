import IrohRooms.Membership.Fold
import Mathlib.Order.MinMax

/-!
# What a snapshot says

The lookups of `fold`: the admin's record is fixed by the genesis, every other touched subject has the record of
`resolveMember` up to the cap, and nobody else is a member. An Active member is the admin or has a join among its
causal heads and no departure, so it always has a bound device.
-/

namespace IrohRooms

variable {env : Env} {room : RoomId} {scope : List Entry}

/-! ### Status from heads -/

theorem mergeStatus_some {st c : Status} {h : Entry} (hc : statusContribution h.event.content = some c) :
    mergeStatus st h = max st c := by
  simp [mergeStatus, hc]

theorem mergeStatus_none {st : Status} {h : Entry} (hc : statusContribution h.event.content = none) :
    mergeStatus st h = st := by
  simp [mergeStatus, hc]

theorem le_mergeStatus (st : Status) (h : Entry) : st ≤ mergeStatus st h := by
  cases hc : statusContribution h.event.content with
  | none => rw [mergeStatus_none hc]
  | some c =>
    rw [mergeStatus_some hc]
    exact le_max_left st c

/-- The merged status is the start value or some head's contribution. -/
theorem foldl_mergeStatus_cases (heads : List Entry) (st : Status) : heads.foldl mergeStatus st = st ∨
    ∃ h ∈ heads, statusContribution h.event.content = some (heads.foldl mergeStatus st) := by
  induction heads generalizing st with
  | nil => exact Or.inl rfl
  | cons h heads ih =>
    rw [List.foldl_cons]
    rcases ih (mergeStatus st h) with hst | ⟨h', hmem, hc'⟩
    · cases hc : statusContribution h.event.content with
      | none => exact Or.inl (hst.trans (mergeStatus_none hc))
      | some c =>
        rw [mergeStatus_some hc] at hst ⊢
        rcases max_choice st c with hmax | hmax
        · exact Or.inl (hst.trans hmax)
        · exact Or.inr ⟨h, List.mem_cons_self, hc.trans (congrArg some (hst.trans hmax).symm)⟩
    · exact Or.inr ⟨h', List.mem_cons_of_mem _ hmem, hc'⟩

theorem le_foldl_mergeStatus (heads : List Entry) (st : Status) : st ≤ heads.foldl mergeStatus st := by
  induction heads generalizing st with
  | nil => exact le_refl st
  | cons h heads ih => exact le_trans (le_mergeStatus st h) (ih _)

theorem contribution_le_foldl {heads : List Entry} {h : Entry} (hmem : h ∈ heads) {c : Status}
    (hc : statusContribution h.event.content = some c) (st : Status) : c ≤ heads.foldl mergeStatus st := by
  induction heads generalizing st with
  | nil => exact absurd hmem List.not_mem_nil
  | cons h' heads ih =>
    rw [List.foldl_cons]
    rcases List.mem_cons.mp hmem with rfl | hmem
    · refine le_trans ?_ (le_foldl_mergeStatus heads _)
      rw [mergeStatus_some hc]
      exact le_max_right st c
    · exact ih hmem _

/-- Active means some join among the heads, and no departure. -/
theorem statusFromHeads_active {heads : List Entry} (h : statusFromHeads heads = .active) :
    (∃ j ∈ heads, isJoin j.event = true) ∧
      ∀ e ∈ heads, statusContribution e.event.content ≠ some .removed := by
  refine ⟨?_, fun e he hrem => ?_⟩
  · rcases foldl_mergeStatus_cases heads .invited with hinv | ⟨j, hj, hc⟩
    · exact absurd (h.symm.trans hinv) (by decide)
    · rw [show heads.foldl mergeStatus .invited = .active from h] at hc
      refine ⟨j, hj, ?_⟩
      cases hcont : j.event.content <;> simp_all [statusContribution, isJoin, Content.eventType]
  · have hle := contribution_le_foldl he hrem .invited
    rw [show heads.foldl mergeStatus .invited = .active from h] at hle
    exact absurd hle (by decide)

/-! ### The bound device -/

theorem lowestJoinDevice_ne_none {entries : List Entry} {j : Entry} (hj : j ∈ entries)
    (hjoin : isJoin j.event = true) : lowestJoinDevice entries ≠ none := by
  have hmem : j ∈ entries.filter fun e => isJoin e.event := List.mem_filter.mpr ⟨hj, hjoin⟩
  unfold lowestJoinDevice
  cases hmin : ((entries.filter fun e => isJoin e.event).map Entry.id).min? with
  | none =>
    rw [List.min?_eq_none_iff, List.map_eq_nil_iff] at hmin
    rw [hmin] at hmem
    exact absurd hmem List.not_mem_nil
  | some i =>
    obtain ⟨e, he, hei⟩ := List.mem_map.mp (List.min?_mem hmin)
    cases hfind : (entries.filter fun e => isJoin e.event).find? fun e => e.id == i with
    | none => exact absurd hei (by simpa using List.find?_eq_none.mp hfind e he)
    | some e' =>
      intro hnone
      simp only [hmin, Option.bind_some, hfind, Option.map_some, reduceCtorEq] at hnone

theorem resolveMember_device_ne_none {s : IdentityKey} (h : (resolveMember scope s).status = .active) :
    (resolveMember scope s).device ≠ none := by
  obtain ⟨⟨j, hj, hjoin⟩, -⟩ := statusFromHeads_active h
  obtain ⟨d, hd⟩ := Option.ne_none_iff_exists'.mp (lowestJoinDevice_ne_none hj hjoin)
  simp [resolveMember, resolveDevice, hd]

/-! ### Lookups -/

theorem touchEvents_ne_nil {s : IdentityKey} :
    touchEvents scope s ≠ [] ↔ ∃ e ∈ scope, touched e.event = some s := by
  rw [touchEvents, ne_eq, List.filter_eq_nil_iff]
  push Not
  simp

theorem mem_subjects {admin : Option IdentityKey} {s : IdentityKey} :
    s ∈ subjects scope admin ↔ admin ≠ some s ∧ touchEvents scope s ≠ [] := by
  rw [touchEvents_ne_nil]
  simp [subjects, and_comm]

theorem foldSubject_get? (st : FoldState) (s i : IdentityKey) : (foldSubject scope st s).members.get? i =
    if i = s ∧ touchEvents scope s ≠ [] then some (resolveMember scope s) else st.members.get? i := by
  unfold foldSubject
  by_cases ht : touchEvents scope s = []
  · simp [ht]
  · simp only [ht, if_false, OrdMap.get?_insert, ne_eq, not_false_iff, and_true]

theorem foldl_foldSubject_get? (l : List IdentityKey) (st : FoldState) (i : IdentityKey) :
    (l.foldl (foldSubject scope) st).members.get? i =
      if i ∈ l ∧ touchEvents scope i ≠ [] then some (resolveMember scope i) else st.members.get? i := by
  induction l generalizing st with
  | nil => simp
  | cons s l ih =>
    rw [List.foldl_cons, ih, foldSubject_get?]
    by_cases his : i = s
    · subst his
      by_cases ht : touchEvents scope i = [] <;> simp [ht]
    · simp [his]

/-- The ranks the fold collects. -/
def foldRanks (scope : List Entry) : OrdMap IdentityKey EventId :=
  ((subjects scope ((findGenesis scope).map SignedEvent.senderId)).foldl (foldSubject scope)
    (seedAdmin (findGenesis scope))).activeRanks

def foldAdmitted (env : Env) (scope : List Entry) : List IdentityKey :=
  admittedMembers env ((findGenesis scope).map SignedEvent.senderId) (foldRanks scope)

theorem fold_admin : (fold env room scope).admin = (findGenesis scope).map SignedEvent.senderId := rfl

theorem fold_member (i : IdentityKey) : (fold env room scope).member i =
    (if (fold env room scope).admin ≠ some i ∧ touchEvents scope i ≠ [] then some (resolveMember scope i)
      else (seedAdmin (findGenesis scope)).members.get? i).map (demote (foldAdmitted env scope)) := by
  rw [MembershipSnapshot.member, fold_admin]
  show (capActiveMembers env _ _ _).get? i = _
  rw [capActiveMembers, OrdMap.get?_mapValues, foldl_foldSubject_get?]
  simp only [mem_subjects, and_assoc, and_self]
  rfl

theorem seedAdmin_get? (g : Option SignedEvent) (i : IdentityKey) : (seedAdmin g).members.get? i =
    g.bind fun e => if i = e.senderId then some ⟨e.senderId, some e.deviceId, .active, .admin⟩ else none := by
  cases g with
  | none => rfl
  | some e => simp [seedAdmin, OrdMap.get?_insert]

/-- The admin's record comes from the genesis alone and is never demoted. -/
theorem fold_member_admin {g : SignedEvent} (hg : findGenesis scope = some g) :
    (fold env room scope).member g.senderId = some ⟨g.senderId, some g.deviceId, .active, .admin⟩ := by
  rw [fold_member, fold_admin, hg, if_neg (by simp), seedAdmin_get?]
  simp [demote, foldAdmitted, admittedMembers, hg]

/-- Any other member was touched and has its resolved record, up to the cap. -/
theorem fold_member_other {i : IdentityKey} {mem : Member} (hi : (fold env room scope).admin ≠ some i)
    (h : (fold env room scope).member i = some mem) :
    touchEvents scope i ≠ [] ∧ mem = demote (foldAdmitted env scope) (resolveMember scope i) := by
  rw [fold_member] at h
  by_cases ht : touchEvents scope i = []
  · rw [if_neg (by simp [ht]), seedAdmin_get?] at h
    rw [fold_admin] at hi
    cases hg : findGenesis scope with
    | none => simp [hg] at h
    | some g =>
      have hne : ¬ i = g.senderId := fun heq => hi (by simp [hg, heq])
      simp [hg, hne] at h
  · rw [if_pos ⟨hi, ht⟩] at h
    exact ⟨ht, (Option.some.inj h).symm⟩

@[simp] theorem demote_device (admitted : List IdentityKey) (m : Member) : (demote admitted m).device = m.device := by
  unfold demote
  split_ifs <;> rfl

theorem demote_active {admitted : List IdentityKey} {m : Member} (h : (demote admitted m).status = .active) :
    m.status = .active := by
  unfold demote at h
  split_ifs at h
  exact h

/-- An Active subject other than the admin is resolved Active from its heads. -/
theorem resolveMember_active_of_isActive {i : IdentityKey} (hi : (fold env room scope).admin ≠ some i)
    (h : (fold env room scope).isActive i = true) : (resolveMember scope i).status = .active := by
  obtain ⟨mem, hmem, hst⟩ := MembershipSnapshot.isActive_iff.mp h
  obtain ⟨-, rfl⟩ := fold_member_other hi hmem
  exact demote_active hst

/-- Every Active member has a bound device. -/
theorem boundDevice_ne_none_of_isActive {i : IdentityKey} (h : (fold env room scope).isActive i = true) :
    (fold env room scope).boundDevice i ≠ none := by
  obtain ⟨mem, hmem, hst⟩ := MembershipSnapshot.isActive_iff.mp h
  rw [MembershipSnapshot.boundDevice, hmem]
  by_cases hi : (fold env room scope).admin = some i
  · rw [fold_admin] at hi
    obtain ⟨g, hg, rfl⟩ := Option.map_eq_some_iff.mp hi
    rw [fold_member_admin hg, Option.some.injEq] at hmem
    simp [← hmem]
  · have hdev := resolveMember_device_ne_none (resolveMember_active_of_isActive hi h)
    obtain ⟨-, rfl⟩ := fold_member_other hi hmem
    simpa using hdev

theorem boundDevice_admin_ne_none {i : IdentityKey} (h : (fold env room scope).admin = some i) :
    (fold env room scope).boundDevice i ≠ none := by
  rw [fold_admin] at h
  obtain ⟨g, hg, rfl⟩ := Option.map_eq_some_iff.mp h
  simp [MembershipSnapshot.boundDevice, fold_member_admin hg]

/-! ### The device index -/

theorem foldSubject_byDevice (st : FoldState) (s : IdentityKey) (d : DeviceKey) :
    (foldSubject scope st s).byDevice.get? d =
      if touchEvents scope s ≠ [] ∧ (resolveMember scope s).device = some d then some s else st.byDevice.get? d := by
  unfold foldSubject
  by_cases ht : touchEvents scope s = []
  · simp [ht]
  · simp only [ht, if_false, ne_eq, not_false_iff, true_and]
    cases hdev : (resolveMember scope s).device with
    | none => simp
    | some d' =>
      simp only [OrdMap.get?_insert, Option.some.injEq]
      by_cases hd : d = d'
      · simp [hd]
      · simp [hd, Ne.symm hd]

/-- An indexed device is the seeded one, or the resolved device of a subject folded in. -/
theorem foldl_foldSubject_byDevice {l : List IdentityKey} {st : FoldState} {d : DeviceKey} {i : IdentityKey}
    (h : (l.foldl (foldSubject scope) st).byDevice.get? d = some i) :
    (i ∈ l ∧ touchEvents scope i ≠ [] ∧ (resolveMember scope i).device = some d) ∨ st.byDevice.get? d = some i := by
  induction l generalizing st with
  | nil => exact Or.inr h
  | cons s l ih =>
    rcases ih h with ⟨hi, hresolved⟩ | hst
    · exact Or.inl ⟨List.mem_cons_of_mem s hi, hresolved⟩
    · rw [foldSubject_byDevice] at hst
      split_ifs at hst with hs
      · cases hst
        exact Or.inl ⟨List.mem_cons_self, hs⟩
      · exact Or.inr hst

/-- The identity of a device is one the device is bound to. -/
theorem boundDevice_of_identityOfDevice {d : DeviceKey} {i : IdentityKey}
    (h : (fold env room scope).identityOfDevice d = some i) : (fold env room scope).boundDevice i = some d := by
  have hindex : ((subjects scope ((findGenesis scope).map SignedEvent.senderId)).foldl (foldSubject scope)
      (seedAdmin (findGenesis scope))).byDevice.get? d = some i := h
  rcases foldl_foldSubject_byDevice hindex with ⟨hi, htouch, hdev⟩ | hseed
  · have hadmin : (fold env room scope).admin ≠ some i := (mem_subjects.mp hi).1
    rw [MembershipSnapshot.boundDevice, fold_member, if_pos ⟨hadmin, htouch⟩]
    simp [hdev]
  · cases hg : findGenesis scope with
    | none => simp [hg, seedAdmin] at hseed
    | some g =>
      simp only [hg, seedAdmin, OrdMap.get?_insert, OrdMap.get?_empty] at hseed
      split_ifs at hseed with hd
      rw [MembershipSnapshot.boundDevice, ← Option.some.inj hseed, fold_member_admin hg, hd]
      rfl

@[simp] theorem demote_identity (admitted : List IdentityKey) (m : Member) :
    (demote admitted m).identity = m.identity := by
  unfold demote
  split_ifs <;> rfl

/-- A member is filed under its own identity. -/
theorem fold_member_identity {i : IdentityKey} {mem : Member} (h : (fold env room scope).member i = some mem) :
    mem.identity = i := by
  by_cases hi : (fold env room scope).admin = some i
  · rw [fold_admin] at hi
    obtain ⟨g, hg, rfl⟩ := Option.map_eq_some_iff.mp hi
    rw [fold_member_admin hg] at h
    rw [← Option.some.inj h]
  · obtain ⟨-, rfl⟩ := fold_member_other hi h
    exact demote_identity _ _

end IrohRooms
