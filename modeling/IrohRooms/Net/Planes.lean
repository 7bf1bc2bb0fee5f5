import IrohRooms.Lib.LastWrite
import IrohRooms.Membership.Cap
import IrohRooms.Net.Blob
import IrohRooms.Net.Pipe

/-!
# The three access planes

Each plane finds the identity behind a device in its own index: the accept gate in a table it fills over all members
in identity order, the pipe plane in the index of the fold, which enters the admin first and then every other touched
subject, and the blob plane in the set of the Active members' devices. Nothing in the fold keeps two identities from
binding one device, and where they do, the last identity entered hides the others in the first two indices.
-/

namespace IrohRooms

/-- Stage one of the pipe gate, on the reply to its snapshot query. -/
def stage1Reject (snapshot : Option MembershipSnapshot) (device : DeviceKey) : Option PipeDenyCause :=
  match snapshot with
  | none => some .unknownDevice
  | some s =>
    match s.identityOfDevice device with
    | none => some .unknownDevice
    | some identity => if s.isActive identity then none else some .notActive

theorem stage1Reject_eq_none {s : MembershipSnapshot} {d : DeviceKey} :
    stage1Reject (some s) d = none ↔ ∃ i, s.identityOfDevice d = some i ∧ s.isActive i = true := by
  unfold stage1Reject
  cases hd : s.identityOfDevice d with
  | none => simp [hd]
  | some i => simp [hd]

namespace MembershipSnapshot

/-- The identities a device is bound to. -/
def owners (s : MembershipSnapshot) (d : DeviceKey) : Set IdentityKey := {i | s.boundDevice i = some d}

end MembershipSnapshot

variable {env : Env} {room : RoomId} {isPoint : DeviceKey → Bool} {scope : List Entry}

/-! ### The index of the accept gate -/

theorem values_sorted : (fold env room scope).members.values.Pairwise fun a b => a.identity < b.identity := by
  have hkeys := (fold env room scope).members.keys_sorted
  rw [← values_map_identity, List.pairwise_map] at hkeys
  exact hkeys

theorem written_members (d : DeviceKey) :
    LastWrite.Written (fun m : Member => if m.device = some d then some m.identity else none)
      (fold env room scope).members.values = (fold env room scope).owners d := by
  ext i
  simp only [LastWrite.Written, MembershipSnapshot.owners, Set.mem_ofPred_eq, OrdMap.mem_values,
    MembershipSnapshot.boundDevice_eq_some]
  constructor
  · rintro ⟨m, ⟨k, hk⟩, hm⟩
    have hkey : m.identity = k := fold_member_identity hk
    split_ifs at hm with hd
    rw [Option.some.injEq, hkey] at hm
    exact ⟨m, hm ▸ hk, hd⟩
  · rintro ⟨m, hm, hd⟩
    have hkey : m.identity = i := fold_member_identity hm
    exact ⟨m, ⟨i, hm⟩, by rw [if_pos hd, hkey]⟩

/-- The accept gate takes a device for its greatest owner. -/
theorem deviceToIdentity_eq_some (failClosed : List IdentityKey) {d : EndpointId isPoint} {i : IdentityKey} :
    (AdmissionView.fromSnapshot (fold env room scope) failClosed : AdmissionView isPoint).deviceToIdentity.get? d =
      some i ↔ IsGreatest ((fold env room scope).owners d.val) i := by
  have hstep : ∀ (view : AdmissionView isPoint) (m : Member),
      (view.enter (fold env room scope) m).deviceToIdentity.get? d =
        (if m.device = some d.val then some m.identity else none).or (view.deviceToIdentity.get? d) := by
    intro view m
    simp only [AdmissionView.enter]
    cases hid : m.device.bind (EndpointId.fromBytes isPoint) with
    | none =>
      have hne : m.device ≠ some d.val := by
        intro hd
        rw [hd, Option.bind_some] at hid
        rw [EndpointId.fromBytes_eq_some.mpr (rfl : d.val = d.val)] at hid
        cases hid
      rw [if_neg hne, Option.none_or]
    | some id =>
      obtain ⟨dev, hdev, hpoint⟩ := Option.bind_eq_some_iff.mp hid
      rw [EndpointId.fromBytes_eq_some] at hpoint
      simp only [OrdMap.get?_insert, hdev, ← hpoint, Option.some.injEq]
      by_cases hd : d = id
      · rw [if_pos hd, if_pos (congrArg Subtype.val hd.symm), Option.some_or]
      · rw [if_neg hd, if_neg fun heq => hd (Subtype.ext heq.symm), Option.none_or]
  rw [AdmissionView.fromSnapshot, LastWrite.foldl_read_eq_some (fun view : AdmissionView isPoint => view.deviceToIdentity.get? d)
    (fun m : Member => if m.device = some d.val then some m.identity else none) Member.identity hstep values_sorted]
  · rw [written_members]
    simp
  · intro m _ k hk
    split_ifs at hk
    exact Option.some.inj hk

/-- The Active members are the identities the gate lets through. -/
theorem mem_active_iff (isPoint : DeviceKey → Bool) (failClosed : List IdentityKey) {i : IdentityKey} :
    i ∈ (AdmissionView.fromSnapshot (fold env room scope) failClosed : AdmissionView isPoint).active ↔
      (fold env room scope).isActive i = true := by
  have hfold : ∀ (l : List Member) (view : AdmissionView isPoint),
      i ∈ (l.foldl (AdmissionView.enter (fold env room scope)) view).active ↔
        (∃ m ∈ l, m.identity = i ∧ (fold env room scope).isActive i = true) ∨ i ∈ view.active := by
    intro l
    induction l with
    | nil => simp
    | cons m l ih =>
      intro view
      rw [List.foldl_cons, ih]
      by_cases hactive : (fold env room scope).isActive m.identity = true
      · simp only [AdmissionView.enter, hactive, if_true, OrdSet.mem_add, List.mem_cons, exists_eq_or_imp]
        constructor
        · rintro (h | rfl | h)
          · exact Or.inl (Or.inr h)
          · exact Or.inl (Or.inl ⟨rfl, hactive⟩)
          · exact Or.inr h
        · rintro ((⟨rfl, -⟩ | h) | h)
          · exact Or.inr (Or.inl rfl)
          · exact Or.inl h
          · exact Or.inr (Or.inr h)
      · simp only [AdmissionView.enter, hactive, Bool.false_eq_true, if_false, List.mem_cons, exists_eq_or_imp]
        constructor
        · rintro (h | h)
          · exact Or.inl (Or.inr h)
          · exact Or.inr h
        · rintro ((⟨rfl, h⟩ | h) | h)
          · exact absurd h hactive
          · exact Or.inl h
          · exact Or.inr h
  rw [AdmissionView.fromSnapshot, hfold]
  constructor
  · rintro (⟨m, -, -, h⟩ | h)
    · exact h
    · cases h
  · intro h
    obtain ⟨m, hm, -⟩ := MembershipSnapshot.isActive_iff.mp h
    exact Or.inl ⟨m, OrdMap.mem_values.mpr ⟨i, hm⟩, fold_member_identity hm, h⟩

/-- With nobody failed closed, the gate admits a device as its greatest owner, if that one is Active. -/
theorem decide_admitted_iff {d : EndpointId isPoint} {i : IdentityKey} :
    (AdmissionView.fromSnapshot (fold env room scope) [] : AdmissionView isPoint).decide d = .admitted i ↔
      IsGreatest ((fold env room scope).owners d.val) i ∧ (fold env room scope).isActive i = true := by
  have hopen : (AdmissionView.fromSnapshot (fold env room scope) [] : AdmissionView isPoint).failClosed = .empty :=
    (AdmissionView.foldl_enter _ _ _).2.2
  rw [← deviceToIdentity_eq_some [], ← mem_active_iff isPoint []]
  unfold AdmissionView.decide
  cases hget : (AdmissionView.fromSnapshot (fold env room scope) [] : AdmissionView isPoint).deviceToIdentity.get? d with
  | none => simp
  | some j =>
    simp only [hopen, OrdSet.not_mem_empty, if_false, Option.some.injEq]
    split_ifs with hactive
    · rw [AdmissionDecision.admitted.injEq]
      constructor
      · rintro rfl
        exact ⟨rfl, hactive⟩
      · exact fun h => h.1
    · constructor
      · intro h
        cases h
      · rintro ⟨rfl, h⟩
        exact absurd h hactive

/-! ### The index of the pipe plane -/

/-- The device of a member other than the admin is the resolved one. -/
theorem mem_owners_other {d : DeviceKey} {i : IdentityKey} (hi : (fold env room scope).admin ≠ some i) :
    i ∈ (fold env room scope).owners d ↔ touchEvents scope i ≠ [] ∧ (resolveMember scope i).device = some d := by
  rw [MembershipSnapshot.owners, Set.mem_ofPred_eq, MembershipSnapshot.boundDevice_eq_some]
  constructor
  · rintro ⟨m, hm, hd⟩
    obtain ⟨htouch, rfl⟩ := fold_member_other hi hm
    exact ⟨htouch, by rwa [demote_device] at hd⟩
  · rintro ⟨htouch, hd⟩
    rw [fold_member, if_pos ⟨hi, htouch⟩, Option.map_some]
    exact ⟨_, rfl, by rwa [demote_device]⟩

theorem seedAdmin_byDevice {d : DeviceKey} {i : IdentityKey} :
    (seedAdmin (findGenesis scope)).byDevice.get? d = some i ↔
      (fold env room scope).admin = some i ∧ i ∈ (fold env room scope).owners d := by
  rw [fold_admin, MembershipSnapshot.owners, Set.mem_ofPred_eq, MembershipSnapshot.boundDevice_eq_some]
  cases hg : findGenesis scope with
  | none => simp [seedAdmin]
  | some g =>
    simp only [seedAdmin, OrdMap.get?_insert, OrdMap.get?_empty, Option.map_some, Option.some.injEq]
    constructor
    · intro h
      split_ifs at h with hd
      have hi : g.senderId = i := Option.some.inj h
      subst hi
      exact ⟨rfl, _, fold_member_admin hg, by rw [hd]⟩
    · rintro ⟨rfl, m, hm, hd⟩
      rw [fold_member_admin hg, Option.some.injEq] at hm
      rw [← hm, Option.some.injEq] at hd
      rw [if_pos hd.symm]

theorem subjects_sorted (admin : Option IdentityKey) : (subjects scope admin).Pairwise fun a b => a < b :=
  (OrdMap.keys_sorted _).filter _

theorem written_subjects (d : DeviceKey) :
    LastWrite.Written (fun s => if touchEvents scope s ≠ [] ∧ (resolveMember scope s).device = some d then some s
      else none) (subjects scope (fold env room scope).admin) =
      {i | i ∈ (fold env room scope).owners d ∧ (fold env room scope).admin ≠ some i} := by
  ext i
  simp only [LastWrite.Written, Set.mem_ofPred_eq, mem_subjects]
  constructor
  · rintro ⟨s, ⟨hadmin, -⟩, hs⟩
    split_ifs at hs with hd
    rw [Option.some.injEq] at hs
    subst hs
    exact ⟨(mem_owners_other hadmin).mpr hd, hadmin⟩
  · rintro ⟨hown, hadmin⟩
    have hd := (mem_owners_other hadmin).mp hown
    exact ⟨i, ⟨hadmin, hd.1⟩, if_pos hd⟩

/-- The pipe plane takes a device for its greatest owner other than the admin, for the admin if it has no other. -/
theorem identityOfDevice_eq_some {d : DeviceKey} {i : IdentityKey} :
    (fold env room scope).identityOfDevice d = some i ↔
      IsGreatest {i | i ∈ (fold env room scope).owners d ∧ (fold env room scope).admin ≠ some i} i ∨
        ({i | i ∈ (fold env room scope).owners d ∧ (fold env room scope).admin ≠ some i} = ∅ ∧
          (fold env room scope).admin = some i ∧ i ∈ (fold env room scope).owners d) := by
  have hstep : ∀ (st : FoldState) (s : IdentityKey), (foldSubject scope st s).byDevice.get? d =
      (if touchEvents scope s ≠ [] ∧ (resolveMember scope s).device = some d then some s else none).or
        (st.byDevice.get? d) := by
    intro st s
    rw [foldSubject_byDevice]
    split_ifs <;> rfl
  rw [← written_subjects, ← seedAdmin_byDevice]
  refine LastWrite.foldl_read_eq_some (fun st : FoldState => st.byDevice.get? d) _ (fun s => s) hstep
    (subjects_sorted _) ?_
  intro s _ k hk
  split_ifs at hk
  exact Option.some.inj hk

/-! ### Agreement -/

/-- The planes agree on a device: it is admitted on all three or on none, for one identity, and an Active member's
device is admitted. -/
structure PlanesAgree (s : MembershipSnapshot) (referenced : OrdSet HashRef) (d : EndpointId isPoint) : Prop where
  blob : (∃ i, (AdmissionView.fromSnapshot s [] : AdmissionView isPoint).decide d = .admitted i) ↔
    (BlobAclView.fromSnapshot s referenced : BlobAclView isPoint).isActive d = true
  pipe : (BlobAclView.fromSnapshot s referenced : BlobAclView isPoint).isActive d = true ↔
    stage1Reject (some s) d.val = none
  identity : ∀ i, (AdmissionView.fromSnapshot s [] : AdmissionView isPoint).decide d = .admitted i →
    s.identityOfDevice d.val = some i
  bound : ∀ i, s.isActive i = true → s.boundDevice i = some d.val →
    (∃ j, (AdmissionView.fromSnapshot s [] : AdmissionView isPoint).decide d = .admitted j) ∧
      (BlobAclView.fromSnapshot s referenced : BlobAclView isPoint).isActive d = true ∧
      stage1Reject (some s) d.val = none

/-- If an Active identity owns the device, then its greatest owner is Active, and is the admin only as the sole one. -/
def TopOwnerActive (s : MembershipSnapshot) (d : DeviceKey) : Prop :=
  (∃ i ∈ s.owners d, s.isActive i = true) → ∃ top, IsGreatest (s.owners d) top ∧ s.isActive top = true ∧
    (s.admin = some top → ∀ i ∈ s.owners d, i = top)

/-- The blob plane serves a device with any Active owner. -/
theorem blob_isActive_iff {referenced : OrdSet HashRef} {d : EndpointId isPoint} :
    (BlobAclView.fromSnapshot (fold env room scope) referenced : BlobAclView isPoint).isActive d = true ↔
      ∃ i ∈ (fold env room scope).owners d.val, (fold env room scope).isActive i = true := by
  rw [BlobAclView.fromSnapshot_isActive]
  simp only [MembershipSnapshot.owners, Set.mem_ofPred_eq, MembershipSnapshot.boundDevice_eq_some,
    MembershipSnapshot.isActive_iff, MembershipSnapshot.activeMembers, List.mem_filter, beq_iff_eq, OrdMap.mem_values]
  constructor
  · rintro ⟨m, ⟨⟨i, hm⟩, hactive⟩, hd⟩
    exact ⟨i, ⟨m, hm, hd⟩, m, hm, hactive⟩
  · rintro ⟨i, ⟨m, hm, hd⟩, m', hm', hactive⟩
    obtain rfl : m = m' := Option.some.inj (hm.symm.trans hm')
    exact ⟨m, ⟨⟨i, hm⟩, hactive⟩, hd⟩

/-- A greatest owner that is not the admin of a shared device is what the pipe plane resolves. -/
theorem identityOfDevice_top {d : DeviceKey} {top : IdentityKey} (htop : IsGreatest ((fold env room scope).owners d) top)
    (hsole : (fold env room scope).admin = some top → ∀ i ∈ (fold env room scope).owners d, i = top) :
    (fold env room scope).identityOfDevice d = some top := by
  rw [identityOfDevice_eq_some]
  by_cases hadmin : (fold env room scope).admin = some top
  · refine Or.inr ⟨?_, hadmin, htop.1⟩
    rw [Set.eq_empty_iff_forall_notMem]
    rintro i ⟨hi, hne⟩
    exact hne (hsole hadmin i hi ▸ hadmin)
  · exact Or.inl ⟨⟨htop.1, hadmin⟩, fun i hi => htop.2 hi.1⟩

theorem owners_eq_of_identityOfDevice {d : DeviceKey} {top : IdentityKey}
    (hid : (fold env room scope).identityOfDevice d = some top) (hadmin : (fold env room scope).admin = some top) :
    ∀ i ∈ (fold env room scope).owners d, i = top := by
  rcases identityOfDevice_eq_some.mp hid with hgreatest | ⟨hempty, -, -⟩
  · exact absurd hadmin hgreatest.1.2
  · intro i hi
    by_contra hne
    have hmem : i ∈ ({i | i ∈ (fold env room scope).owners d ∧ (fold env room scope).admin ≠ some i} : Set _) := by
      refine ⟨hi, fun ha => hne ?_⟩
      exact Option.some.inj (ha.symm.trans hadmin)
    rw [hempty] at hmem
    exact hmem

theorem fold_planesAgree_iff (referenced : OrdSet HashRef) (d : EndpointId isPoint) :
    PlanesAgree (fold env room scope) referenced d ↔ TopOwnerActive (fold env room scope) d.val := by
  constructor
  · intro h howner
    obtain ⟨top, htop⟩ := h.blob.mpr (blob_isActive_iff.mpr howner)
    obtain ⟨hgreatest, hactive⟩ := decide_admitted_iff.mp htop
    exact ⟨top, hgreatest, hactive, owners_eq_of_identityOfDevice (h.identity top htop)⟩
  · intro h
    by_cases howner : ∃ i ∈ (fold env room scope).owners d.val, (fold env room scope).isActive i = true
    · obtain ⟨top, hgreatest, hactive, hsole⟩ := h howner
      have hblob : (BlobAclView.fromSnapshot (fold env room scope) referenced : BlobAclView isPoint).isActive d = true :=
        blob_isActive_iff.mpr howner
      have hadmitted := decide_admitted_iff.mpr ⟨hgreatest, hactive⟩
      have hid := identityOfDevice_top hgreatest hsole
      have hpipe := stage1Reject_eq_none.mpr ⟨top, hid, hactive⟩
      refine ⟨?_, ?_, ?_, fun _ _ _ => ⟨⟨top, hadmitted⟩, hblob, hpipe⟩⟩
      · exact iff_of_true ⟨top, hadmitted⟩ hblob
      · exact iff_of_true hblob hpipe
      · intro i hi
        rw [hid, hgreatest.unique (decide_admitted_iff.mp hi).1]
    · have hblob : ¬ (BlobAclView.fromSnapshot (fold env room scope) referenced : BlobAclView isPoint).isActive d = true :=
        fun hb => howner (blob_isActive_iff.mp hb)
      have hadmitted : ∀ i, (AdmissionView.fromSnapshot (fold env room scope) [] : AdmissionView isPoint).decide d ≠
          .admitted i := by
        intro i hi
        obtain ⟨hgreatest, hactive⟩ := decide_admitted_iff.mp hi
        exact howner ⟨i, hgreatest.1, hactive⟩
      refine ⟨?_, ?_, fun i hi => absurd hi (hadmitted i), fun i hactive hd => absurd ⟨i, hd, hactive⟩ howner⟩
      · exact iff_of_false (fun hex => hex.elim hadmitted) hblob
      · refine iff_of_false hblob fun hpipe => howner ?_
        obtain ⟨i, hid, hactive⟩ := stage1Reject_eq_none.mp hpipe
        exact ⟨i, boundDevice_of_identityOfDevice hid, hactive⟩

/-- The planes agree on a device exactly when its Active owners are not hidden behind another one. -/
theorem planes_agree_iff (m : RoomMembership env room) (referenced : OrdSet HashRef) (d : EndpointId isPoint) :
    PlanesAgree m.snapshot referenced d ↔ TopOwnerActive m.snapshot d.val := fold_planesAgree_iff referenced d

/-- Participant `k` joins with the device of `dev`. -/
def Toy.joinWith (k dev n : Nat) (prev : List Nat) : SignedEvent :=
  buildMemberJoined toyEnv (Toy.idSeed k) (Toy.devSeed dev) Toy.room (BitVec.ofNat 128 n) (BitVec.ofNat 128 n) .member
    (DeviceBinding.create toyEnv Toy.room (Toy.idSeed k) (Toy.device dev)) none (prev.map Bytes32.ofNat) 102

/-- Participant `3` is removed, and `2` is invited and joins with the device of `3`. -/
def Toy.successor : List (Nat × SignedEvent) :=
  [(10, Toy.genesis), (11, Toy.invite 3 7 .member none [10]), (12, Toy.join 3 7 .member [11]),
    (13, Toy.remove 3 1 [12]), (14, Toy.invite 2 8 .member none [13]), (15, Toy.joinWith 2 3 8 [14])]

/-- The accept gate still takes the device for the removed identity and turns the Active member away. -/
theorem successor_turned_away : ¬ ∀ (env : Env) (room : RoomId) (events : List (ValidatedEvent env room))
    (isPoint : DeviceKey → Bool) (referenced : OrdSet HashRef) (d : EndpointId isPoint),
    PlanesAgree (RoomMembership.fromEvents events).snapshot referenced d := by
  intro hall
  have h := hall toyEnv Toy.room (Toy.log Toy.successor) (fun _ => true) .empty ⟨Toy.device 3, rfl⟩
  obtain ⟨hactive, hbound, hreject⟩ :
      (RoomMembership.fromEvents (Toy.log Toy.successor)).snapshot.isActive (Toy.identity 2) = true ∧
      (RoomMembership.fromEvents (Toy.log Toy.successor)).snapshot.boundDevice (Toy.identity 2) = some (Toy.device 3) ∧
      (AdmissionView.fromSnapshot (RoomMembership.fromEvents (Toy.log Toy.successor)).snapshot [] :
        AdmissionView fun _ => true).decide ⟨Toy.device 3, rfl⟩ = .reject .notActive := by decide +kernel
  obtain ⟨⟨j, hj⟩, -⟩ := h.bound (Toy.identity 2) hactive hbound
  rw [hreject] at hj
  cases hj

end IrohRooms
