import IrohRooms.Lib.Grouping
import IrohRooms.Governance.WellFormed
import IrohRooms.Member.Inclusion

/-!
# What a state root commits to

Two states with one root have the same six components. The encoders of the component records bind, each by its fields;
the leaves of the member tree are bound by the tree, empty or not; and a list of records determines a map because every
reachable state keeps its records under their own ids.
-/

namespace IrohRooms.Governance

open Cbor MerkleTree Member

variable {env : Env} {s t : GovernanceState}

/-! ### Records -/

theorem binds_id {kind : IdKind} : Binds (Id.toCbor : Id kind → CborValue) := Binds.bytes.comp Id.asBytes_injective

theorem binds_ids {kind : IdKind} : Binds fun l : List (Id kind) => .array (l.map Id.toCbor) := binds_id.array

theorem binds_uint16 : Binds fun n : UInt16 => .uint n.toUInt64 :=
  Binds.uint.comp fun a b h => by simpa using congrArg UInt64.toUInt16 h

theorem binds_uint8 : Binds fun n : UInt8 => .uint n.toUInt64 :=
  Binds.uint.comp fun a b h => by simpa using congrArg UInt64.toUInt8 h

theorem AdministratorState.binds : Binds AdministratorState.toCbor :=
  Binds.record (fun _ => by simp) fun a b h => by
    obtain ⟨admins, threshold⟩ := a
    obtain ⟨admins', threshold'⟩ := b
    obtain rfl : admins = admins' := binds_ids.field (h "administrators")
    obtain rfl : threshold = threshold' := binds_uint16.field (h "threshold")
    rfl

theorem RecoveryConfig.binds : Binds RecoveryConfig.toCbor :=
  Binds.record (fun _ => by simp) fun a b h => by
    obtain ⟨threshold, keys⟩ := a
    obtain ⟨threshold', keys'⟩ := b
    obtain rfl : threshold = threshold' := binds_uint16.field (h "threshold")
    obtain rfl : keys = keys' := binds_ids.field (h "recovery_keys")
    rfl

theorem ReplicaDescriptor.binds : Binds ReplicaDescriptor.toCbor :=
  Binds.record (fun _ => by simp) fun a b h => by
    obtain ⟨id, endpoint, capability⟩ := a
    obtain ⟨id', endpoint', capability'⟩ := b
    obtain rfl : id = id' := binds_id.field (h "replica_id")
    obtain rfl : endpoint = endpoint' := Binds.bytes.field (h "endpoint")
    obtain rfl : capability = capability' := binds_uint8.field (h "capability")
    rfl

theorem ReplicaStatus.binds : Binds ReplicaStatus.toCbor := by
  intro a b _ h
  cases a <;> cases b
  · rfl
  · simpa using encode_text_inj h
  · simpa using encode_text_inj h
  · rfl

theorem ReplicaRecord.binds : Binds ReplicaRecord.toCbor :=
  Binds.record (fun _ => by simp) fun a b h => by
    obtain ⟨descriptor, status⟩ := a
    obtain ⟨descriptor', status'⟩ := b
    obtain rfl : descriptor = descriptor' := ReplicaDescriptor.binds.field (h "descriptor")
    obtain rfl : status = status' := ReplicaStatus.binds.field (h "status")
    rfl

theorem StreamPolicy.binds : Binds StreamPolicy.toCbor :=
  Binds.record (fun _ => by simp) fun a b h => by
    obtain ⟨access⟩ := a
    obtain ⟨access'⟩ := b
    obtain rfl : access = access' := binds_uint8.field (h "access")
    rfl

theorem StreamRecord.binds : Binds StreamRecord.toCbor :=
  Binds.record (fun _ => by simp) fun a b h => by
    obtain ⟨id, policy, archived, created⟩ := a
    obtain ⟨id', policy', archived', created'⟩ := b
    have hflag : Binds fun x : Bool => .uint (if x then 1 else 0) := Binds.uint.comp fun x y hxy => by
      cases x <;> cases y <;> simp_all
    obtain rfl : id = id' := binds_id.field (h "stream_id")
    obtain rfl : policy = policy' := StreamPolicy.binds.field (h "policy")
    obtain rfl : archived = archived' := hflag.field (h "archived")
    obtain rfl : created = created' := Binds.uint.field (h "created_at_ms")
    rfl

theorem ResolvedForkMarker.binds : Binds ResolvedForkMarker.toCbor :=
  Binds.record (fun _ => by simp) fun a b h => by
    obtain ⟨heads, selected, root, created⟩ := a
    obtain ⟨heads', selected', root', created'⟩ := b
    obtain rfl : heads = heads' := binds_ids.field (h "branch_heads")
    obtain rfl : selected = selected' := binds_id.field (h "selected_head")
    obtain rfl : root = root' := binds_id.field (h "selected_state_root")
    obtain rfl : created = created' := Binds.uint.field (h "created_at_ms")
    rfl

theorem ActiveDevice.binds :
    Binds fun d : ActiveDevice => .map [("device_id", d.deviceId.toCbor), ("binding", .bytes d.binding)] :=
  Binds.record (fun _ => by simp) fun a b h => by
    obtain ⟨id, binding⟩ := a
    obtain ⟨id', binding'⟩ := b
    obtain rfl : id = id' := binds_id.field (h "device_id")
    obtain rfl : binding = binding' := Binds.bytes.field (h "binding")
    rfl

theorem MemberStatus.asStr_injective : Function.Injective MemberStatus.asStr := by
  intro a b h
  have hparse := MemberStatus.parse_eq_ok.mpr h
  exact Except.ok.inj ((MemberStatus.parse_eq_ok.mpr rfl).symm.trans hparse)

/-- The entries that a record may leave out come last. -/
theorem ProjectedMemberRecord.binds : Binds ProjectedMemberRecord.toCbor := by
  refine Binds.record (fun r => ?_) fun a b h => ?_
  · cases r.revokeSeq <;> cases r.profile <;> simp
  · obtain ⟨id, status, roles, devices, granted, revoked, profile⟩ := a
    obtain ⟨id', status', roles', devices', granted', revoked', profile'⟩ := b
    obtain rfl : id = id' := binds_id.field (h "member_id")
    obtain rfl : status = status' := (Binds.text.comp MemberStatus.asStr_injective).field (h "status")
    obtain rfl : roles = roles' := Binds.text.array.field (h "roles")
    obtain rfl : devices = devices' := ActiveDevice.binds.array.field (h "active_devices")
    obtain rfl : granted = granted' := Binds.uint.field (h "grant_seq")
    have hrevoked : SameField (revoked.map CborValue.uint) (revoked'.map CborValue.uint) := by
      have hkey := h "revoke_seq"
      cases revoked <;> cases revoked' <;> cases profile <;> cases profile' <;> exact hkey
    have hprofile : SameField (profile.map CborValue.bytes) (profile'.map CborValue.bytes) := by
      have hkey := h "profile"
      cases revoked <;> cases revoked' <;> cases profile <;> cases profile' <;> exact hkey
    obtain rfl := Binds.uint.optional hrevoked
    obtain rfl := Binds.bytes.optional hprofile
    rfl

/-- A policy is bound up to the order of its markers. -/
structure CommunityPolicy.Same (p q : CommunityPolicy) : Prop where
  invites : p.revokedInvites = q.revokedInvites
  migrations : p.migrations = q.migrations
  markers : p.forkMarkers.Perm q.forkMarkers

theorem toList_injective {kind : IdKind} : Function.Injective (OrdSet.toList : OrdSet (Id kind) → List (Id kind)) := by
  intro a b h
  refine OrdSet.ext_mem fun x => ?_
  rw [← OrdSet.mem_toList, ← OrdSet.mem_toList, h]

theorem CommunityPolicy.same_of_encode {p q : CommunityPolicy} (hfits : (encode p.toCbor).length ≤ usizeMax)
    (h : encode p.toCbor = encode q.toCbor) : p.Same q := by
  have hfields := sameField_of_encode_map (by simp) (by simp) hfits h
  have hmarkers := ResolvedForkMarker.binds.array.field (hfields "fork_markers")
  refine ⟨?_, ?_, ?_⟩
  · exact toList_injective (binds_ids.field (hfields "revoked_invites"))
  · exact toList_injective (binds_ids.field (hfields "migrations"))
  · have hperm := ResolvedForkMarker.sort_perm p.forkMarkers
    rw [hmarkers] at hperm
    exact hperm.symm.trans (ResolvedForkMarker.sort_perm q.forkMarkers)

/-! ### Records under their own ids -/

structure GovernanceState.Keyed (s : GovernanceState) : Prop where
  members : s.members.KeyedBy MemberRecord.memberId
  replicas : s.replicas.KeyedBy fun r => r.descriptor.replicaId
  streams : s.streams.KeyedBy StreamRecord.streamId

theorem MemberUpdate.memberId_eq {old : GovernanceState} {seq : UInt64} {a : PrincipalId} {m : MemberRecord}
    (h : MemberUpdate old seq a m) (hold : old.members.KeyedBy MemberRecord.memberId) : m.memberId = a := by
  cases h with
  | grant roles profile hnew => rfl
  | regrant roles profile hm => simpa using hold a _ hm
  | revoke hm => simpa using hold a _ hm
  | roleSet roles hm => simpa using hold a _ hm
  | deviceGrant d binding hm hactive hfree => simpa using hold a _ hm
  | deviceRevoke hm hd => simpa using hold a _ hm

theorem Transition.keyed {old mid : GovernanceState} {seq : UInt64} (h : Transition old seq mid) (hold : old.Keyed) :
    mid.Keyed := by
  cases h with
  | members h => exact ⟨hold.members.insert (h.memberId_eq hold.members), hold.replicas, hold.streams⟩
  | replicas r => exact ⟨hold.members, hold.replicas.insert rfl, hold.streams⟩
  | streamCreate r => exact ⟨hold.members, hold.replicas, hold.streams.insert rfl⟩
  | streamUpdate hr hid => exact ⟨hold.members, hold.replicas, hold.streams.insert (hid.trans (hold.streams _ _ hr))⟩
  | administrators h => exact ⟨hold.members, hold.replicas, hold.streams⟩
  | recovery config => exact ⟨hold.members, hold.replicas, hold.streams⟩
  | policy h => exact ⟨hold.members, hold.replicas, hold.streams⟩

theorem GovernanceState.Reachable.keyed (h : Reachable env s) : s.Keyed := by
  induction h with
  | @genesis config signatures communityId hg =>
    refine ⟨?_, ?_, OrdMap.keyedBy_empty⟩
    · exact OrdMap.KeyedBy.foldl (f := fun a => MemberRecord.mk a [.admin] .active OrdMap.empty 0 none none)
        (g := fun a => a) (fun _ => rfl) config.administrators OrdMap.keyedBy_empty
    · exact OrdMap.KeyedBy.foldl (f := fun d => ReplicaRecord.mk d .active) (g := fun d => d.replicaId)
        (fun _ => rfl) config.replicas OrdMap.keyedBy_empty
  | apply _ happly ih =>
    obtain ⟨-, mid, hmid, rfl⟩ := applyEntry_eq_ok.mp happly
    obtain ⟨hmembers, hreplicas, hstreams⟩ := (applyOperation_transition hmid).keyed ih
    exact ⟨hmembers, hreplicas, hstreams⟩

/-! ### The member tree -/

/-- The records that the leaves of the member tree commit to. -/
def GovernanceState.memberRecords (s : GovernanceState) : List Bytes :=
  s.members.values.map fun m => encode (projectGovernanceMemberUnchecked m).toCbor

theorem membersDevicesRolesRoot_eq (s : GovernanceState) :
    membersDevicesRolesRoot env s = ((tree s.memberRecords).map (framing env).eval).getD (emptyMemberRoot env) := by
  have heval := map_eval_tree (framing env).leafHash (framing env).nodeHash s.memberRecords
  have hleaves : (s.members.values.map fun m => memberLeafHash env (encode (projectGovernanceMemberUnchecked m).toCbor)) =
      s.memberRecords.map (framing env).leafHash := by
    rw [GovernanceState.memberRecords, List.map_map]
    rfl
  unfold membersDevicesRolesRoot
  dsimp only
  rw [hleaves, reduceLevels_eq, List.length_map]
  exact congrArg (fun o => Option.getD o (emptyMemberRoot env)) heval.symm

/-- The root of the member tree determines its records, also when there are none. -/
theorem memberRecords_eq (hfree : Set.InjOn env.blake3 (treeWords env s.memberRecords ∪ treeWords env t.memberRecords))
    (h : membersDevicesRolesRoot env s = membersDevicesRolesRoot env t) : s.memberRecords = t.memberRecords := by
  have hinj := framing_injOn hfree
  have hempty : ∀ tr : MerkleTree.Tree Bytes, Set.InjOn (framing env).hash ((framing env).words tr ∪ {emptyWord}) →
      (framing env).eval tr ≠ emptyMemberRoot env := by
    intro tr hinj heq
    obtain ⟨word, hword, hframed, heval⟩ := @Framing.exists_word_of_eval _ _ _ (framing env) tr
    exact framed_ne_empty hframed (hinj (.inl hword) (.inr rfl) (heval.symm.trans heq))
  rw [membersDevicesRolesRoot_eq, membersDevicesRolesRoot_eq] at h
  unfold treeWords at hinj
  cases hs : tree s.memberRecords with
  | none =>
    cases ht : tree t.memberRecords with
    | none => rw [eq_nil_of_tree hs, eq_nil_of_tree ht]
    | some tr =>
      rw [hs, ht] at h hinj
      rw [Set.union_comm] at hinj
      exact absurd h.symm (hempty tr hinj)
  | some tr =>
    cases ht : tree t.memberRecords with
    | none =>
      rw [hs, ht] at h hinj
      exact absurd h (hempty tr hinj)
    | some tr' =>
      rw [hs, ht] at h hinj
      obtain rfl := Framing.eval_inj hinj h
      rw [← leaves_of_tree hs, leaves_of_tree ht]

/-! ### The root -/

/-- The components that are hashed as they are, with their labels. -/
def GovernanceState.components (s : GovernanceState) : List (String × CborValue) :=
  [("administrators", s.administrators.toCbor), ("recovery", s.recovery.config.toCbor),
    ("replicas", .array (s.replicas.values.map ReplicaRecord.toCbor)),
    ("stream_manifest", .array (s.streams.values.map StreamRecord.toCbor)), ("community_policy", s.policy.toCbor)]

def componentPreimage (label : String) (value : CborValue) : CborValue := .map [("label", .text label), ("value", value)]

def stateWord (value : CborValue) : Bytes := contextBytes Domain.governanceState ++ encode value

variable (env) in
/-- The words hashed for the root of a state. -/
def GovernanceState.rootWords (s : GovernanceState) : Set Bytes :=
  {stateWord (governanceStateRootRecord env s).toCbor} ∪ {w | ∃ c ∈ s.components, w = stateWord (componentPreimage c.1 c.2)} ∪
    treeWords env s.memberRecords

/-- The encodings made for the root fit in memory. -/
structure GovernanceState.Fits (s : GovernanceState) : Prop where
  components : ∀ c ∈ s.components, (encode (componentPreimage c.1 c.2)).length ≤ usizeMax
  members : ∀ record ∈ s.memberRecords, record.length ≤ usizeMax

/-- What the root of a state commits to. -/
structure GovernanceState.SameComponents (s t : GovernanceState) : Prop where
  administrators : s.administrators = t.administrators
  recovery : s.recovery = t.recovery
  replicas : s.replicas = t.replicas
  members : s.members.mapValues projectGovernanceMemberUnchecked = t.members.mapValues projectGovernanceMemberUnchecked
  streams : s.streams = t.streams
  policy : s.policy.Same t.policy

/-- The root is made from the components and the projected members, and from nothing else. -/
theorem governanceStateRootRecord_congr (hcomponents : s.components = t.components)
    (hrecords : s.memberRecords = t.memberRecords) :
    governanceStateRootRecord env s = governanceStateRootRecord env t := by
  simp only [GovernanceState.components, List.cons.injEq, Prod.mk.injEq, true_and, and_true] at hcomponents
  obtain ⟨hadmins, hrecovery, hreplicas, hstreams, hpolicy⟩ := hcomponents
  rw [governanceStateRootRecord, governanceStateRootRecord, membersDevicesRolesRoot_eq, membersDevicesRolesRoot_eq,
    hadmins, hrecovery, hreplicas, hstreams, hpolicy, hrecords]

theorem computeStateRoot_congr (hcomponents : s.components = t.components)
    (hrecords : s.memberRecords = t.memberRecords) : computeStateRoot env s = computeStateRoot env t := by
  rw [computeStateRoot, computeStateRoot, governanceStateRootRecord_congr hcomponents hrecords]

theorem GovernanceState.Fits.congr (h : s.Fits) (hcomponents : t.components = s.components)
    (hrecords : t.memberRecords = s.memberRecords) : t.Fits := by
  refine ⟨?_, ?_⟩
  · rw [hcomponents]
    exact h.components
  · rw [hrecords]
    exact h.members

theorem binds_rootRecord : Binds GovernanceStateRootRecord.toCbor := by
  intro a b hfits h
  obtain ⟨a₁, a₂, a₃, a₄, a₅, a₆⟩ := a
  obtain ⟨b₁, b₂, b₃, b₄, b₅, b₆⟩ := b
  have hlist := binds_ids [a₁, a₂, a₃, a₄, a₅, a₆] [b₁, b₂, b₃, b₄, b₅, b₆] hfits h
  simp only [List.cons.injEq, and_true] at hlist
  obtain ⟨rfl, rfl, rfl, rfl, rfl, rfl⟩ := hlist
  rfl

theorem length_rootRecord (r : GovernanceStateRootRecord) : (encode r.toCbor).length ≤ usizeMax := by
  have hid : ∀ x : Digest, (encode x.toCbor).length = 34 := by
    intro x
    rw [Id.toCbor, encode, List.length_append, Id.length_asBytes]
    rfl
  have hhead : (writeHead 4 (lenArg 6)).length = 1 := rfl
  rw [GovernanceStateRootRecord.toCbor, encode_eq_head, List.length_append]
  show (writeHead 4 (lenArg 6)).length + (List.flatMap encode _).length ≤ usizeMax
  simp [hhead, hid, usizeMax]

/-- A component is read off its root. -/
theorem component_inj {label : String} {v w : CborValue} (hfits : (encode (componentPreimage label v)).length ≤ usizeMax)
    (h : stateWord (componentPreimage label v) = stateWord (componentPreimage label w)) :
    (encode v).length ≤ usizeMax ∧ encode v = encode w := by
  have hmap := List.append_cancel_left h
  exact (sameField_of_encode_map (by simp) (by simp) hfits hmap "value").of_some

theorem projected_eq (hfits : s.Fits) (h : s.memberRecords = t.memberRecords) :
    s.members.values.map projectGovernanceMemberUnchecked = t.members.values.map projectGovernanceMemberUnchecked := by
  have hall : List.Forall₂ (fun r r' : ProjectedMemberRecord => encode r.toCbor = encode r'.toCbor)
      (s.members.values.map projectGovernanceMemberUnchecked) (t.members.values.map projectGovernanceMemberUnchecked) := by
    unfold GovernanceState.memberRecords at h
    rw [← List.forall₂_eq_eq_eq, List.forall₂_map_left_iff, List.forall₂_map_right_iff] at h
    rw [List.forall₂_map_left_iff, List.forall₂_map_right_iff]
    exact h
  refine Binds.eq_of_forall₂ hall fun r hr r' hrr' => ?_
  obtain ⟨m, hm, rfl⟩ := List.mem_map.mp hr
  exact ProjectedMemberRecord.binds _ _ (hfits.members _ (List.mem_map.mpr ⟨m, hm, rfl⟩)) hrr'

theorem sameComponents_of_root (hs : s.Reachable env) (ht : t.Reachable env) (hfits : s.Fits)
    (hfree : Set.InjOn env.blake3 (s.rootWords env ∪ t.rootWords env))
    (h : computeStateRoot env s = computeStateRoot env t) : s.SameComponents t := by
  have hroots : governanceStateRootRecord env s = governanceStateRootRecord env t := by
    have hword : stateWord (governanceStateRootRecord env s).toCbor = stateWord (governanceStateRootRecord env t).toCbor :=
      hfree (.inl (.inl (.inl rfl))) (.inr (.inl (.inl rfl))) (Id.mk.inj h)
    exact binds_rootRecord _ _ (length_rootRecord _) (List.append_cancel_left hword)
  -- a component with the same root on both sides has the same encoding
  have hcomponent : ∀ (label : String) (v w : CborValue), (label, v) ∈ s.components → (label, w) ∈ t.components →
      componentRoot env label v = componentRoot env label w → (encode v).length ≤ usizeMax ∧ encode v = encode w := by
    intro label v w hv hw hroot
    have hlength := hfits.components (label, v) hv
    refine component_inj hlength ?_
    exact hfree (.inl (.inl (.inr ⟨_, hv, rfl⟩))) (.inr (.inl (.inr ⟨_, hw, rfl⟩))) (Id.mk.inj hroot)
  have hkeyed := hs.keyed
  have hkeyed' := ht.keyed
  have hadmins := hcomponent "administrators" _ _ (by simp [GovernanceState.components])
    (by simp [GovernanceState.components]) (congrArg GovernanceStateRootRecord.administratorsRoot hroots)
  have hrecovery := hcomponent "recovery" _ _ (by simp [GovernanceState.components])
    (by simp [GovernanceState.components]) (congrArg GovernanceStateRootRecord.recoveryRoot hroots)
  have hreplicas := hcomponent "replicas" _ _ (by simp [GovernanceState.components])
    (by simp [GovernanceState.components]) (congrArg GovernanceStateRootRecord.replicasRoot hroots)
  have hstreams := hcomponent "stream_manifest" _ _ (by simp [GovernanceState.components])
    (by simp [GovernanceState.components]) (congrArg GovernanceStateRootRecord.streamManifestRoot hroots)
  have hpolicy := hcomponent "community_policy" _ _ (by simp [GovernanceState.components])
    (by simp [GovernanceState.components]) (congrArg GovernanceStateRootRecord.communityPolicyRoot hroots)
  have hrecords : s.memberRecords = t.memberRecords := memberRecords_eq
    (hfree.mono (Set.union_subset_union Set.subset_union_right Set.subset_union_right))
    (congrArg GovernanceStateRootRecord.membersDevicesRolesRoot hroots)
  refine ⟨?_, ?_, ?_, ?_, ?_, ?_⟩
  · exact AdministratorState.binds _ _ hadmins.1 hadmins.2
  · exact congrArg RecoveryState.mk (RecoveryConfig.binds _ _ hrecovery.1 hrecovery.2)
  · exact hkeyed.replicas.eq hkeyed'.replicas (ReplicaRecord.binds.array _ _ hreplicas.1 hreplicas.2)
  · have hname : ∀ m, (projectGovernanceMemberUnchecked m).memberId = m.memberId := fun _ => rfl
    exact hkeyed.members.mapValues_eq hkeyed'.members hname (projected_eq hfits hrecords)
  · exact hkeyed.streams.eq hkeyed'.streams (StreamRecord.binds.array _ _ hstreams.1 hstreams.2)
  · exact CommunityPolicy.same_of_encode hpolicy.1 hpolicy.2

/-- The root of a state that can be reached binds every component of it. -/
theorem computeStateRoot_binds (hs : s.Reachable env) (ht : t.Reachable env) (hfits : s.Fits)
    (hfree : Set.InjOn env.blake3 (s.rootWords env ∪ t.rootWords env))
    (h : computeStateRoot env s = computeStateRoot env t) : s.SameComponents t :=
  sameComponents_of_root hs ht hfits hfree h

/-! Two states of one root: a device that was granted and revoked is no longer committed to. -/

namespace Toy

def solo : GenesisConfig := ⟨2, 0, Id.ofNat 7, 1, [principal 1], ⟨1, [principal 8]⟩, [], .empty⟩

def soloSignatures : List GenesisSignature :=
  [⟨principal 1, toyEnv.sign (key 1) (signingMessage Domain.community (genesisConfigCsb solo))⟩]

def soloGenesis : GovernanceState := .fromGenesis solo (deriveCommunityId toyEnv solo)

theorem soloGenesis_reachable : soloGenesis.Reachable toyEnv :=
  .genesis (show verifyGenesis toyEnv solo soloSignatures = .ok (deriveCommunityId toyEnv solo) by decide +kernel)

def grant : GovernanceOperationPayload := .memberGrant ⟨principal 2, [.member], none⟩

def joined : GovernanceState := (applyAll soloGenesis [grant]).toOption.getD soloGenesis

def withoutDevice : GovernanceState :=
  (applyAll soloGenesis [grant, .deviceGrant ⟨principal 2, Id.ofNat 6, []⟩,
    .deviceRevoke ⟨principal 2, Id.ofNat 6⟩]).toOption.getD soloGenesis

theorem joined_reachable : joined.Reachable toyEnv :=
  applyAll_reachable soloGenesis_reachable (show applyAll soloGenesis [grant] = .ok joined from rfl)

theorem withoutDevice_reachable : withoutDevice.Reachable toyEnv :=
  applyAll_reachable soloGenesis_reachable (show applyAll soloGenesis [grant, .deviceGrant ⟨principal 2, Id.ofNat 6, []⟩,
    .deviceRevoke ⟨principal 2, Id.ofNat 6⟩] = .ok withoutDevice from rfl)

/-- The words hashed for a state of two members. -/
def hashedFor (s : GovernanceState) (x y : Bytes) : List Bytes :=
  stateWord (governanceStateRootRecord toyEnv s).toCbor :: s.components.map (fun c => stateWord (componentPreimage c.1 c.2)) ++
    [(framing toyEnv).leafWord x, (framing toyEnv).leafWord y,
      (framing toyEnv).nodeWord (memberLeafHash toyEnv x) (memberLeafHash toyEnv y)]

theorem rootWords_hashedFor {s : GovernanceState} {x y : Bytes} (h : s.memberRecords = [x, y]) :
    s.rootWords toyEnv ⊆ {w | w ∈ hashedFor s x y} := by
  have htree : tree s.memberRecords = some (.node (.leaf x) (.leaf y)) := by
    rw [h]
    rfl
  rw [GovernanceState.rootWords, treeWords, htree]
  rintro w ((rfl | ⟨c, hc, rfl⟩) | (rfl | rfl | rfl))
  · exact List.mem_append_left _ List.mem_cons_self
  · exact List.mem_append_left _ (List.mem_cons_of_mem _ (List.mem_map.mpr ⟨c, hc, rfl⟩))
  · exact List.mem_append_right _ (List.mem_cons_of_mem _ (List.mem_cons_of_mem _ List.mem_cons_self))
  · exact List.mem_append_right _ List.mem_cons_self
  · exact List.mem_append_right _ (List.mem_cons_of_mem _ List.mem_cons_self)

def adminRecord : Bytes := encode (ProjectedMemberRecord.toCbor ⟨principal 1, .active, ["admin"], [], 0, none, none⟩)

def memberRecord : Bytes := encode (ProjectedMemberRecord.toCbor ⟨principal 2, .active, ["member"], [], 1, none, none⟩)

theorem hashedFor_congr {s t : GovernanceState} {x y : Bytes} (hcomponents : s.components = t.components)
    (hrecords : s.memberRecords = t.memberRecords) : hashedFor s x y = hashedFor t x y := by
  rw [hashedFor, hashedFor, governanceStateRootRecord_congr hcomponents hrecords, hcomponents]

theorem joined_records : joined.memberRecords = [adminRecord, memberRecord] := rfl

theorem withoutDevice_components : withoutDevice.components = joined.components := rfl

theorem withoutDevice_records : withoutDevice.memberRecords = joined.memberRecords := rfl

/-- What is found of the words of the joined state, evaluated in one go. -/
theorem joined_computed :
    ((hashedFor joined adminRecord memberRecord).map toyEnv.blake3).Nodup ∧
      (∀ c ∈ joined.components, (encode (componentPreimage c.1 c.2)).length ≤ usizeMax) ∧
      ∀ record ∈ joined.memberRecords, record.length ≤ usizeMax := by
  decide +kernel

theorem hashedFor_joined_injOn : Set.InjOn toyEnv.blake3 {w | w ∈ hashedFor joined adminRecord memberRecord} :=
  fun _ hx _ hy => List.inj_on_of_nodup_map joined_computed.1 hx hy

theorem joined_fits : joined.Fits := ⟨joined_computed.2.1, joined_computed.2.2⟩

theorem computeStateRoot_binds_withoutDevice :
    computeStateRoot toyEnv joined = computeStateRoot toyEnv withoutDevice ∧ joined.SameComponents withoutDevice ∧
      joined.acceptedSeq ≠ withoutDevice.acceptedSeq := by
  have hroot : computeStateRoot toyEnv joined = computeStateRoot toyEnv withoutDevice :=
    computeStateRoot_congr withoutDevice_components.symm withoutDevice_records.symm
  have hjoined := rootWords_hashedFor joined_records
  have hwithout := rootWords_hashedFor (withoutDevice_records.trans joined_records)
  rw [hashedFor_congr withoutDevice_components withoutDevice_records] at hwithout
  refine ⟨hroot, ?_, by decide⟩
  exact computeStateRoot_binds joined_reachable withoutDevice_reachable joined_fits
    (hashedFor_joined_injOn.mono (Set.union_subset hjoined hwithout)) hroot

end Toy

end IrohRooms.Governance
