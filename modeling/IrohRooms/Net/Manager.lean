import IrohRooms.Net.Shared
import Mathlib.Combinatorics.SimpleGraph.Connectivity.Connected

/-!
# The peer manager

Which devices a node keeps a dial loop for, and how the running loops are brought in line with a new snapshot. In the
full mesh these are the devices of all Active members; with the gossip overlay they are a few seeds, among them the
admin's device, so what the nodes dial together is connected. A reconcile stops what is no longer wanted or admitted,
tears its link down, and starts what is missing. The dial loops themselves and the addresses they dial are left out.
-/

namespace IrohRooms

variable {isPoint : DeviceKey → Bool}

/-- How many seeds a node dials, beside the admin's device. -/
def gossipBootstrapSeeds : Nat := 3

/-- The manager with the state it shares; `dials` are the devices that have a running loop. -/
structure PeerManager (isPoint : DeviceKey → Bool) where
  shared : Shared isPoint
  selfDevice : EndpointId isPoint
  dials : OrdSet (EndpointId isPoint)
  activeLinks : OrdSet (EndpointId isPoint)
  onDemand : OrdSet (EndpointId isPoint)

namespace PeerManager

/-- Add the device of a member, unless it is the node's own or no endpoint id. -/
def enlist (selfDevice : EndpointId isPoint) (out : OrdSet (EndpointId isPoint)) (m : Member) :
    OrdSet (EndpointId isPoint) :=
  match m.device.bind (EndpointId.fromBytes isPoint) with
  | some id => if id ≠ selfDevice then out.add id else out
  | none => out

def desiredDevices (snapshot : MembershipSnapshot) (selfDevice : EndpointId isPoint) : OrdSet (EndpointId isPoint) :=
  snapshot.activeMembers.foldl (enlist selfDevice) .empty

/-- The lowest few of the desired devices, and the admin's. -/
def desiredSeeds (snapshot : MembershipSnapshot) (selfDevice : EndpointId isPoint) : OrdSet (EndpointId isPoint) :=
  let seeds := OrdSet.ofList ((desiredDevices snapshot selfDevice).toList.take gossipBootstrapSeeds)
  (snapshot.activeMembers.filter fun m => some m.identity == snapshot.admin).foldl (enlist selfDevice) seeds

variable (m : PeerManager isPoint) (overlay : Bool) (authorize : EndpointId isPoint → AdmissionDecision)
  (snapshot : MembershipSnapshot) (enforceAdmission : Bool) (tsMs : Nat)

/-- The devices of the Active members that the gate admits, if it is asked. -/
def admittedLinks : OrdSet (EndpointId isPoint) :=
  let membershipLinks := desiredDevices snapshot m.selfDevice
  if enforceAdmission then
    membershipLinks.filter fun d => match authorize d with
      | .admitted _ => true
      | _ => false
  else membershipLinks

/-- The devices to dial. -/
def desiredLinks : OrdSet (EndpointId isPoint) :=
  let admitted := m.admittedLinks authorize snapshot enforceAdmission
  if overlay then (desiredSeeds snapshot m.selfDevice).inter admitted else admitted

/-- The devices to stop: loops that are no longer desired, devices that are no longer admitted, and on-demand links
of devices that are not. -/
def toStop : OrdSet (EndpointId isPoint) :=
  let admitted := m.admittedLinks authorize snapshot enforceAdmission
  let desired := m.desiredLinks overlay authorize snapshot enforceAdmission
  let revoked := m.activeLinks.filter fun d => d ∉ admitted
  let stale := if overlay then m.onDemand.filter fun d => d ∉ admitted else .empty
  ((m.dials.filter fun d => d ∉ desired).extend revoked.toList).extend stale.toList

/-- Stop one device. -/
def stopDial (admitted membershipLinks : OrdSet (EndpointId isPoint)) (m : PeerManager isPoint)
    (device : EndpointId isPoint) : PeerManager isPoint :=
  { m with
    dials := OrdMap.erase m.dials device
    shared := m.shared.teardownReconciledLink device (device ∈ admitted)
      (enforceAdmission && !decide (device ∈ membershipLinks)) tsMs }

/-- Start a loop for a device that has none. -/
def startDial (m : PeerManager isPoint) (device : EndpointId isPoint) : PeerManager isPoint :=
  if device ∈ m.dials then m
  else { m with dials := m.dials.add device, shared := m.shared.setConnecting device tsMs }

/-- Record the admitted devices, and drop the on-demand links of the others. -/
def recordAdmitted : PeerManager isPoint :=
  let admitted := m.admittedLinks authorize snapshot enforceAdmission
  { m with
    activeLinks := admitted
    onDemand := if overlay then m.onDemand.filter fun d => d ∈ admitted else m.onDemand }

def reconcileInner : PeerManager isPoint :=
  let admitted := m.admittedLinks authorize snapshot enforceAdmission
  let stopped := (m.toStop overlay authorize snapshot enforceAdmission).toList.foldl
    (stopDial enforceAdmission tsMs admitted (desiredDevices snapshot m.selfDevice))
    (m.recordAdmitted overlay authorize snapshot enforceAdmission)
  (m.desiredLinks overlay authorize snapshot enforceAdmission).toList.foldl (startDial tsMs) stopped

/-! ### Seeds -/

section Seeds

variable {snapshot : MembershipSnapshot} {selfDevice d : EndpointId isPoint}

theorem mem_enlist {out : OrdSet (EndpointId isPoint)} {m : Member} :
    d ∈ enlist selfDevice out m ↔ d ∈ out ∨ (m.device = some d.val ∧ d ≠ selfDevice) := by
  have hbound : m.device.bind (EndpointId.fromBytes isPoint) = some d ↔ m.device = some d.val := by
    rw [Option.bind_eq_some_iff]
    constructor
    · rintro ⟨device, hdevice, hid⟩
      rw [hdevice, EndpointId.fromBytes_eq_some.mp hid]
    · intro hdevice
      exact ⟨d.val, hdevice, EndpointId.fromBytes_eq_some.mpr rfl⟩
  unfold enlist
  rw [← hbound]
  cases m.device.bind (EndpointId.fromBytes isPoint) with
  | none => simp
  | some id =>
    dsimp only
    rw [Option.some.injEq]
    split_ifs with hself
    · rw [OrdSet.mem_add]
      grind
    · grind

theorem mem_foldl_enlist {members : List Member} {out : OrdSet (EndpointId isPoint)} :
    d ∈ members.foldl (enlist selfDevice) out ↔
      d ∈ out ∨ ∃ m ∈ members, m.device = some d.val ∧ d ≠ selfDevice := by
  induction members generalizing out with
  | nil => simp
  | cons m members ih =>
    rw [List.foldl_cons, ih, mem_enlist]
    simp only [List.mem_cons, exists_eq_or_imp]
    tauto

theorem length_enlist_le (selfDevice : EndpointId isPoint) (out : OrdSet (EndpointId isPoint)) (m : Member) :
    (enlist selfDevice out m).toList.length ≤ out.toList.length + 1 := by
  unfold enlist
  split
  · split_ifs
    · exact OrdSet.length_add_le _ _
    · omega
  · omega

theorem length_foldl_enlist_le (selfDevice : EndpointId isPoint) (members : List Member)
    (out : OrdSet (EndpointId isPoint)) :
    (members.foldl (enlist selfDevice) out).toList.length ≤ out.toList.length + members.length := by
  induction members generalizing out with
  | nil => exact Nat.le_refl _
  | cons m members ih =>
    have hone := length_enlist_le selfDevice out m
    have hrest := ih (enlist selfDevice out m)
    rw [List.foldl_cons, List.length_cons]
    omega

/-- The devices of the Active members. -/
def activeDevices (snapshot : MembershipSnapshot) : Set (EndpointId isPoint) :=
  { d | ∃ m ∈ snapshot.activeMembers, m.device = some d.val }

theorem mem_desiredDevices : d ∈ desiredDevices snapshot selfDevice ↔ d ∈ activeDevices snapshot ∧ d ≠ selfDevice := by
  rw [desiredDevices, mem_foldl_enlist, activeDevices, Set.mem_ofPred_eq]
  simp only [OrdSet.not_mem_empty, false_or]
  tauto

theorem desiredSeeds_subset (hd : d ∈ desiredSeeds snapshot selfDevice) :
    d ∈ desiredDevices snapshot selfDevice := by
  rcases mem_foldl_enlist.mp hd with hlow | ⟨m, hm, hdevice, hself⟩
  · exact OrdSet.mem_toList.mp (List.mem_of_mem_take (OrdSet.mem_ofList.mp hlow))
  · exact mem_desiredDevices.mpr ⟨⟨m, (List.mem_filter.mp hm).1, hdevice⟩, hself⟩

/-- The admin's device is a seed of every other node. -/
theorem admin_mem_desiredSeeds {m : Member} (hm : m ∈ snapshot.activeMembers)
    (hadmin : snapshot.admin = some m.identity) (hdevice : m.device = some d.val) (hself : d ≠ selfDevice) :
    d ∈ desiredSeeds snapshot selfDevice := by
  refine mem_foldl_enlist.mpr (.inr ⟨m, List.mem_filter.mpr ⟨hm, ?_⟩, hdevice, hself⟩)
  rw [hadmin, beq_self_eq_true]

/-- One member at most is the admin, as each is filed under its own identity. -/
theorem length_admins_le (hkeyed : ∀ i m, snapshot.member i = some m → m.identity = i) :
    (snapshot.activeMembers.filter fun m => some m.identity == snapshot.admin).length ≤ 1 := by
  have hkeys : snapshot.members.values.map Member.identity = snapshot.members.keys := by
    rw [OrdMap.values, OrdMap.keys, List.map_map]
    refine List.map_congr_left fun e he => ?_
    exact hkeyed e.1 e.2 (OrdMap.mem_entries.mp he)
  have hnodup : (snapshot.members.values.map Member.identity).Nodup := by
    rw [hkeys]
    exact OrdMap.keys_nodup _
  cases hadmin : snapshot.admin with
  | none => simp
  | some a =>
    calc (snapshot.activeMembers.filter fun m => some m.identity == some a).length
        ≤ (snapshot.members.values.filter fun m => some m.identity == some a).length :=
          (List.filter_sublist.filter _).length_le
      _ = (snapshot.members.values.map Member.identity).count a := by
          rw [← List.countP_eq_length_filter, List.count, List.countP_map]
          rfl
      _ ≤ 1 := List.nodup_iff_count_le_one.mp hnodup a

/-- What the nodes dial together, if each of them dials its seeds. -/
def overlayLinks (snapshot : MembershipSnapshot) : SimpleGraph (activeDevices snapshot : Set (EndpointId isPoint)) :=
  SimpleGraph.fromRel fun a b => b.val ∈ desiredSeeds snapshot a.val

/-- With an Active admin that has a device, the links of all Active devices to their seeds are connected, and each
dials few devices, all of them Active and not itself. -/
theorem overlayLinks_connected (hkeyed : ∀ i m, snapshot.member i = some m → m.identity = i) {m : Member}
    (hm : m ∈ snapshot.activeMembers) (hadmin : snapshot.admin = some m.identity) (hub : EndpointId isPoint)
    (hdevice : m.device = some hub.val) :
    (overlayLinks snapshot : SimpleGraph (activeDevices snapshot : Set (EndpointId isPoint))).Connected ∧
    ∀ selfDevice : EndpointId isPoint,
      (desiredSeeds snapshot selfDevice).toList.length ≤ gossipBootstrapSeeds + 1 ∧
      ∀ d ∈ desiredSeeds snapshot selfDevice, d ∈ activeDevices snapshot ∧ d ≠ selfDevice := by
  refine ⟨?_, fun selfDevice => ⟨?_, fun d hd => mem_desiredDevices.mp (desiredSeeds_subset hd)⟩⟩
  · -- Every node dials the admin's device, so the links contain a star.
    refine (SimpleGraph.connected_iff_exists_forall_reachable _).mpr ⟨⟨hub, m, hm, hdevice⟩, fun d => ?_⟩
    by_cases hd : hub = d.val
    · have hsame : (⟨hub, m, hm, hdevice⟩ : (activeDevices snapshot : Set (EndpointId isPoint))) = d := Subtype.ext hd
      rw [hsame]
    · refine SimpleGraph.Adj.reachable ?_
      refine (SimpleGraph.fromRel_adj _ _ _).mpr ⟨fun hsame => hd (congrArg Subtype.val hsame), .inr ?_⟩
      exact admin_mem_desiredSeeds hm hadmin hdevice hd
  · have hlow : (OrdSet.ofList ((desiredDevices snapshot selfDevice).toList.take gossipBootstrapSeeds)).toList.length ≤
        gossipBootstrapSeeds := by
      have hextend := OrdSet.length_extend_le .empty
        ((desiredDevices snapshot selfDevice).toList.take gossipBootstrapSeeds)
      have hnone : (OrdSet.toList (.empty : OrdSet (EndpointId isPoint))).length = 0 := rfl
      have htake := List.length_take_le gossipBootstrapSeeds (desiredDevices snapshot selfDevice).toList
      unfold OrdSet.ofList
      omega
    have hfold := length_foldl_enlist_le selfDevice
      (snapshot.activeMembers.filter fun m => some m.identity == snapshot.admin)
      (OrdSet.ofList ((desiredDevices snapshot selfDevice).toList.take gossipBootstrapSeeds))
    have hone := length_admins_le hkeyed
    rw [desiredSeeds]
    omega

end Seeds

/-! ### Reconcile -/

section Reconcile

variable {m : PeerManager isPoint} {overlay : Bool} {authorize : EndpointId isPoint → AdmissionDecision}
  {snapshot : MembershipSnapshot} {enforce : Bool} {tsMs : Nat} {d : EndpointId isPoint}

theorem desiredLinks_subset (hd : d ∈ m.desiredLinks overlay authorize snapshot enforce) :
    d ∈ m.admittedLinks authorize snapshot enforce := by
  unfold desiredLinks at hd
  cases overlay with
  | true => exact (OrdSet.mem_inter.mp hd).2
  | false => exact hd

theorem mem_toStop : d ∈ m.toStop overlay authorize snapshot enforce ↔
    (d ∈ m.dials ∧ d ∉ m.desiredLinks overlay authorize snapshot enforce) ∨
    (d ∈ m.activeLinks ∧ d ∉ m.admittedLinks authorize snapshot enforce) ∨
    (overlay = true ∧ d ∈ m.onDemand ∧ d ∉ m.admittedLinks authorize snapshot enforce) := by
  unfold toStop
  rw [OrdSet.mem_extend, OrdSet.mem_extend, OrdSet.mem_toList, OrdSet.mem_toList, OrdSet.mem_filter, OrdSet.mem_filter]
  cases overlay with
  | true => simp [or_assoc]
  | false => simp

/-- A device to dial is not stopped. -/
theorem desiredLinks_not_mem_toStop (hd : d ∈ m.desiredLinks overlay authorize snapshot enforce) :
    d ∉ m.toStop overlay authorize snapshot enforce := by
  have hadmitted := desiredLinks_subset hd
  rw [mem_toStop]
  tauto

/-- Stopping devices takes them from the loops, tears down the link of each of them once, and leaves the others. -/
theorem foldl_stopDial (enforce : Bool) (tsMs : Nat) (admitted membershipLinks : OrdSet (EndpointId isPoint))
    (l : List (EndpointId isPoint)) (hl : l.Nodup) (m : PeerManager isPoint) :
    ∃ shared dials, l.foldl (stopDial enforce tsMs admitted membershipLinks) m = { m with shared, dials } ∧
    (∀ d, d ∈ dials ↔ d ∈ m.dials ∧ d ∉ l) ∧
    (∀ d ∉ l, shared.held d = m.shared.held d) ∧
    ∀ d ∈ l, ∃ entry : PeerEntry, entry.state = .offline ∧
      entry.offlineReason = (if d ∈ admitted then .linkDropped else .deauthorized) ∧
      shared.held d = (m.shared.held d).stopped entry := by
  induction l generalizing m with
  | nil => exact ⟨m.shared, m.dials, rfl, by simp, by simp, by simp⟩
  | cons device l ih =>
    obtain ⟨hfresh, hrest⟩ := List.nodup_cons.mp hl
    obtain ⟨shared, dials, hfold, hdials, hkept, htorn⟩ :=
      ih hrest (stopDial enforce tsMs admitted membershipLinks m device)
    have hdevice := fun d => m.shared.held_teardownReconciledLink device d (device ∈ admitted)
      (enforce && !decide (device ∈ membershipLinks)) tsMs
    refine ⟨shared, dials, ?_, fun d => ?_, fun d hd => ?_, fun d hd => ?_⟩
    · rw [List.foldl_cons, hfold]
      rfl
    · rw [hdials, stopDial, OrdSet.mem_erase, List.mem_cons]
      tauto
    · obtain ⟨entry, -, -, hheld⟩ := hdevice d
      rw [hkept d (List.not_mem_of_not_mem_cons hd), stopDial, hheld, if_neg (List.ne_of_not_mem_cons hd)]
    · obtain ⟨entry, hstate, hreason, hheld⟩ := hdevice d
      by_cases hd' : d = device
      · rw [if_pos hd'] at hheld
        refine ⟨entry, hstate, ?_, ?_⟩
        · rw [hreason, hd']
          simp only [decide_eq_true_eq]
        · rw [hkept d (hd' ▸ hfresh), stopDial, hheld, hd']
      · obtain ⟨later, hlater, hlaterReason, hlaterHeld⟩ := htorn d ((List.mem_cons.mp hd).resolve_left hd')
        refine ⟨later, hlater, hlaterReason, ?_⟩
        rw [hlaterHeld, stopDial, hheld, if_neg hd']

/-- Starting devices adds those that are missing to the loops and changes nothing but the table entries of these. -/
theorem foldl_startDial (tsMs : Nat) (l : List (EndpointId isPoint)) (m : PeerManager isPoint) :
    ∃ shared dials, l.foldl (startDial tsMs) m = { m with shared, dials } ∧
    (∀ d, d ∈ dials ↔ d ∈ m.dials ∨ d ∈ l) ∧
    (∀ d, d ∉ l ∨ d ∈ m.dials → shared.held d = m.shared.held d) ∧
    ∀ d, shared.held d = { m.shared.held d with entry := (shared.held d).entry } := by
  induction l generalizing m with
  | nil => exact ⟨m.shared, m.dials, rfl, by simp, by simp, fun d => rfl⟩
  | cons device l ih =>
    obtain ⟨shared, dials, hfold, hdials, hkept, hentry⟩ := ih (startDial tsMs m device)
    by_cases hrunning : device ∈ m.dials
    · have hsame : startDial tsMs m device = m := if_pos hrunning
      rw [hsame] at hfold hdials hkept hentry
      refine ⟨shared, dials, ?_, fun d => ?_, fun d hd => ?_, hentry⟩
      · rw [List.foldl_cons, hsame, hfold]
      · rw [hdials, List.mem_cons]
        grind
      · exact hkept d (by grind)
    · have hstarted : startDial tsMs m device =
          { m with dials := m.dials.add device, shared := m.shared.setConnecting device tsMs } := if_neg hrunning
      rw [hstarted] at hfold hdials hkept hentry
      have hdevice := fun d => m.shared.held_setConnecting device d tsMs
      refine ⟨shared, dials, ?_, fun d => ?_, fun d hd => ?_, fun d => ?_⟩
      · rw [List.foldl_cons, hstarted, hfold]
      · rw [hdials, OrdSet.mem_add, List.mem_cons]
        tauto
      · have hne : d ≠ device := by grind
        obtain ⟨entry, -, hheld⟩ := hdevice d
        rw [hkept d (by grind [OrdSet.mem_add]), hheld, if_neg hne]
      · obtain ⟨entry, -, hheld⟩ := hdevice d
        rw [hentry d, hheld]
        split_ifs with hd
        · rw [hd]
        · rfl

theorem foldl_startDial_running (l : List (EndpointId isPoint)) (hl : ∀ d ∈ l, d ∈ m.dials) :
    l.foldl (startDial tsMs) m = m := by
  induction l with
  | nil => rfl
  | cons device l ih =>
    have hsame : startDial tsMs m device = m := if_pos (hl device List.mem_cons_self)
    rw [List.foldl_cons, hsame]
    exact ih fun d hd => hl d (List.mem_cons_of_mem _ hd)

/-- What a reconcile does: each device to stop is torn down, each desired one has a loop, and of the devices that are
not stopped only the table entry of a new loop changes. -/
theorem reconcileInner_eq (m : PeerManager isPoint) (overlay : Bool)
    (authorize : EndpointId isPoint → AdmissionDecision) (snapshot : MembershipSnapshot) (enforce : Bool) (tsMs : Nat) :
    ∃ shared, m.reconcileInner overlay authorize snapshot enforce tsMs =
      { m.recordAdmitted overlay authorize snapshot enforce with
        shared
        dials := m.desiredLinks overlay authorize snapshot enforce } ∧
    (∀ d ∈ m.toStop overlay authorize snapshot enforce, ∃ entry : PeerEntry, entry.state = .offline ∧
      entry.offlineReason =
        (if d ∈ m.admittedLinks authorize snapshot enforce then .linkDropped else .deauthorized) ∧
      shared.held d = (m.shared.held d).stopped entry) ∧
    ∀ d ∉ m.toStop overlay authorize snapshot enforce,
      shared.held d = { m.shared.held d with entry := (shared.held d).entry } ∧
      (d ∉ m.desiredLinks overlay authorize snapshot enforce ∨ d ∈ m.dials → shared.held d = m.shared.held d) := by
  obtain ⟨stopped, left, hstop, hleft, hkept, htorn⟩ := foldl_stopDial enforce tsMs
    (m.admittedLinks authorize snapshot enforce) (desiredDevices snapshot m.selfDevice)
    (m.toStop overlay authorize snapshot enforce).toList (OrdMap.keys_nodup _)
    (m.recordAdmitted overlay authorize snapshot enforce)
  obtain ⟨shared, dials, hstart, hdials, hsame, hentry⟩ := foldl_startDial tsMs
    (m.desiredLinks overlay authorize snapshot enforce).toList
    { m.recordAdmitted overlay authorize snapshot enforce with shared := stopped, dials := left }
  simp only [OrdSet.mem_toList, recordAdmitted] at hleft hkept htorn hdials hsame
  have hexact : dials = m.desiredLinks overlay authorize snapshot enforce := by
    refine OrdSet.ext_mem fun d => ?_
    have hstays := @desiredLinks_not_mem_toStop _ m overlay authorize snapshot enforce d
    have hstops := @mem_toStop _ m overlay authorize snapshot enforce d
    rw [hdials, hleft]
    tauto
  refine ⟨shared, ?_, fun d hd => ?_, fun d hd => ⟨?_, fun hd' => ?_⟩⟩
  · rw [reconcileInner, hstop, hstart, hexact]
  · obtain ⟨entry, hstate, hreason, hheld⟩ := htorn d hd
    refine ⟨entry, hstate, hreason, ?_⟩
    rw [hsame d (.inl fun hdesired => desiredLinks_not_mem_toStop hdesired hd), hheld]
  · rw [hentry d, hkept d hd]
  · have hleft' : d ∉ m.desiredLinks overlay authorize snapshot enforce ∨ d ∈ left :=
      hd'.imp_right fun hdial => (hleft d).mpr ⟨hdial, hd⟩
    rw [hsame d hleft', hkept d hd]

/-- A manager that is in line with the snapshot has nothing to stop, and a reconcile leaves it as it is. -/
theorem reconcileInner_settled (m : PeerManager isPoint) (tsMs : Nat)
    (hdials : m.dials = m.desiredLinks overlay authorize snapshot enforce)
    (hactive : m.activeLinks = m.admittedLinks authorize snapshot enforce)
    (hdemand : overlay = true → ∀ d ∈ m.onDemand, d ∈ m.admittedLinks authorize snapshot enforce) :
    (∀ d, d ∉ m.toStop overlay authorize snapshot enforce) ∧
    m.reconcileInner overlay authorize snapshot enforce tsMs = m := by
  have hnone : ∀ d, d ∉ m.toStop overlay authorize snapshot enforce := by
    intro d
    rw [mem_toStop, hdials, hactive]
    have hadmitted := fun h => hdemand h d
    tauto
  have hempty : m.toStop overlay authorize snapshot enforce = .empty :=
    OrdSet.ext_mem fun d => iff_of_false (hnone d) (OrdSet.not_mem_empty d)
  have hrecorded : m.recordAdmitted overlay authorize snapshot enforce = m := by
    unfold recordAdmitted
    rw [← hactive]
    split_ifs with hoverlay
    · have honDemand : m.onDemand.filter (fun d => d ∈ m.activeLinks) = m.onDemand := by
        refine OrdSet.ext_mem fun d => ?_
        rw [OrdSet.mem_filter, decide_eq_true_iff, hactive]
        exact and_iff_left_of_imp (hdemand hoverlay d)
      dsimp only
      rw [honDemand]
    · rfl
  refine ⟨hnone, ?_⟩
  rw [reconcileInner, hempty, hrecorded]
  refine foldl_startDial_running _ fun d hd => ?_
  rw [← hdials] at hd
  exact OrdSet.mem_toList.mp hd

/-- After a reconcile the loops are those of the desired devices and the active links are the admitted ones; a device
that was admitted before and is no longer has lost its queue, its stamp has moved, and it is shown deauthorized; a
desired device is not torn down, and nothing at all is changed of one that had its loop. Whatever happens to the links
in between, a second reconcile with the same answers stops nothing and starts nothing. -/
theorem reconcileInner_exact (m : PeerManager isPoint) (overlay : Bool)
    (authorize : EndpointId isPoint → AdmissionDecision) (snapshot : MembershipSnapshot) (enforce : Bool) (tsMs : Nat) :
    let after := m.reconcileInner overlay authorize snapshot enforce tsMs
    let admitted := m.admittedLinks authorize snapshot enforce
    let desired := m.desiredLinks overlay authorize snapshot enforce
    after.dials = desired ∧ after.activeLinks = admitted ∧
    (∀ d ∈ m.activeLinks, d ∉ admitted →
      (after.shared.held d).queue = none ∧
      (after.shared.held d).generation = some (m.shared.links.nextGeneration d) ∧
      ∃ entry, (after.shared.held d).entry = some entry ∧ entry.state = .offline ∧
        entry.offlineReason = .deauthorized) ∧
    (∀ d ∈ desired, d ∈ admitted ∧ d ∉ m.toStop overlay authorize snapshot enforce ∧
      after.shared.held d = { m.shared.held d with entry := (after.shared.held d).entry } ∧
      (d ∈ m.dials → after.shared.held d = m.shared.held d)) ∧
    ∀ shared' tsMs',
      let again : PeerManager isPoint := { after with shared := shared' }
      (∀ d, d ∉ again.toStop overlay authorize snapshot enforce) ∧
      (∀ d ∈ again.desiredLinks overlay authorize snapshot enforce, d ∈ again.dials) ∧
      again.reconcileInner overlay authorize snapshot enforce tsMs' = again := by
  obtain ⟨shared, hafter, htorn, hkept⟩ := reconcileInner_eq m overlay authorize snapshot enforce tsMs
  dsimp only
  rw [hafter]
  refine ⟨rfl, rfl, fun d hd hrevoked => ?_, fun d hd => ?_, fun shared' tsMs' => ?_⟩
  · obtain ⟨entry, hstate, hreason, hheld⟩ := htorn d (mem_toStop.mpr (.inr (.inl ⟨hd, hrevoked⟩)))
    rw [if_neg hrevoked] at hreason
    rw [hheld]
    exact ⟨rfl, rfl, entry, rfl, hstate, hreason⟩
  · have hstays := desiredLinks_not_mem_toStop hd
    exact ⟨desiredLinks_subset hd, hstays, (hkept d hstays).1, fun hdial => (hkept d hstays).2 (.inr hdial)⟩
  · -- The second reconcile finds the manager in line with the snapshot, with whatever shared state.
    have hsettled := reconcileInner_settled
      { m.recordAdmitted overlay authorize snapshot enforce with
        shared := shared'
        dials := m.desiredLinks overlay authorize snapshot enforce } tsMs' rfl rfl ?_
    · exact ⟨hsettled.1, fun d hd => hd, hsettled.2⟩
    · intro hoverlay d hd
      simp only [recordAdmitted, if_pos hoverlay, OrdSet.mem_filter, decide_eq_true_iff] at hd
      exact hd.2

end Reconcile

end PeerManager

namespace Toy

def activeMember (k : Nat) : Member := ⟨identity k, some (device k), .active, .member⟩

/-- A room of six members, all of them Active. -/
def crowd : MembershipSnapshot :=
  ⟨room, some (identity 6),
    [1, 2, 3, 4, 5, 6].foldl (fun members k => members.insert (identity k) (activeMember k)) .empty, .empty⟩

end Toy

theorem overlayLinks_connected_crowd :
    (PeerManager.overlayLinks Toy.crowd :
      SimpleGraph (PeerManager.activeDevices Toy.crowd : Set (EndpointId fun _ => true))).Connected ∧
    ((PeerManager.desiredSeeds Toy.crowd (Toy.somePoint 1)).toList.length ≤ gossipBootstrapSeeds + 1) := by
  have hfiled : ∀ e ∈ Toy.crowd.members.entries, e.2.identity = e.1 := by decide
  have hkeyed : ∀ i m, Toy.crowd.member i = some m → m.identity = i :=
    fun i m hm => hfiled (i, m) (OrdMap.mem_entries.mpr hm)
  have h := PeerManager.overlayLinks_connected hkeyed (m := Toy.activeMember 6) (by decide) rfl
    (Toy.somePoint 6) rfl
  exact ⟨h.1, (h.2 (Toy.somePoint 1)).1⟩

end IrohRooms
