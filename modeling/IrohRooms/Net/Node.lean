import IrohRooms.Membership.Snapshot
import IrohRooms.Net.Blob
import IrohRooms.Net.Pipe
import IrohRooms.Sync.Invariant

/-!
# The reconciler, and the planes side by side

After every step of the pump the reconciler refreshes the admission table and the blob view from the engine. Only
the admission table is given the fail-closed subjects: `fail_closed_enforced_iff` says in which states of a node
the overlay nevertheless holds on all three planes.
-/

namespace IrohRooms

section Planes

variable {isPoint : DeviceKey → Bool} {env : Env} {sealing : Sealing} {room : RoomId}

/-- The change detectors and the two cells; a session that serves no blobs has no blob cell. -/
structure RoomReconciler (isPoint : DeviceKey → Bool) where
  cell : AdmissionView isPoint
  last : Option (AdmissionView isPoint)
  blobAclCell : Option (BlobAclView isPoint)
  lastReferenced : Option (OrdSet HashRef)

namespace RoomReconciler

def new (blobAclCell : Option (BlobAclView isPoint)) : RoomReconciler isPoint := ⟨.empty, none, blobAclCell, none⟩

variable (r : RoomReconciler isPoint) (e : SyncEngine env sealing room)

def admissionView : AdmissionView isPoint := .fromSnapshot e.snapshot e.failClosedSubjects

def membershipChanged : Bool := r.last != some (admissionView e)

def hashesChanged : Bool := r.lastReferenced != some e.fileSharedHashes

/-- Whether the blob cell is written. -/
def installsBlobAcl : Bool := r.blobAclCell.isSome && (r.membershipChanged e || r.hashesChanged e)

def maybeReconcile : RoomReconciler isPoint :=
  let blob := if r.installsBlobAcl e then
      { r with
        blobAclCell := some (.fromSnapshot e.snapshot e.fileSharedHashes)
        lastReferenced := some e.fileSharedHashes }
    else r
  if r.membershipChanged e then
    { blob with
      cell := admissionView e
      last := some (admissionView e) }
  else blob

def forceReconcile : RoomReconciler isPoint :=
  maybeReconcile { r with last := none, lastReferenced := none } e

end RoomReconciler

/-- An installed blob view is that of the engine. -/
theorem RoomReconciler.maybeReconcile_blob {r : RoomReconciler isPoint} {e : SyncEngine env sealing room}
    (h : r.installsBlobAcl e = true) :
    (r.maybeReconcile e).blobAclCell = some (.fromSnapshot e.snapshot e.fileSharedHashes) := by
  unfold maybeReconcile
  rw [if_pos h]
  dsimp only
  split_ifs <;> rfl

/-! ### The fail-closed overlay on the three planes -/

/-- The admission table refuses the device. -/
def AdmissionRefuses (e : SyncEngine env sealing room) (d : EndpointId isPoint) : Prop :=
  ∃ cause, (RoomReconciler.admissionView e).decide d = .reject cause

/-- Every blob view installed in this state leaves the device out. -/
def BlobRefuses (e : SyncEngine env sealing room) (d : EndpointId isPoint) : Prop :=
  ∀ (r : RoomReconciler isPoint) (view : BlobAclView isPoint), r.installsBlobAcl e = true →
    (r.maybeReconcile e).blobAclCell = some view → view.isActive d = false

/-- The pipe gate accepts the device on no pipe at no time. -/
def PipeRefuses (e : SyncEngine env sealing room) (d : DeviceKey) : Prop :=
  ∀ registry pipeId now target, evaluate (servePipeQuery e) registry d pipeId now ≠ .accept target

theorem blobRefuses_iff {e : SyncEngine env sealing room} {d : EndpointId isPoint} :
    BlobRefuses e d ↔ ¬ ∃ m ∈ e.snapshot.activeMembers, m.device = some d.val := by
  rw [← BlobAclView.fromSnapshot_isActive e.snapshot e.fileSharedHashes, Bool.not_eq_true]
  constructor
  · intro h
    have hinstalls : (RoomReconciler.new (some .empty) : RoomReconciler isPoint).installsBlobAcl e = true := rfl
    exact h _ _ hinstalls (RoomReconciler.maybeReconcile_blob hinstalls)
  · intro h r view hinstalls hview
    rw [RoomReconciler.maybeReconcile_blob hinstalls, Option.some.injEq] at hview
    rw [← hview]
    exact h

/-- No Active member has the device. -/
def Inert (snapshot : MembershipSnapshot) (d : DeviceKey) : Prop :=
  ∀ i, snapshot.boundDevice i = some d → snapshot.isActive i = false

theorem inert_iff {scope : List Entry} {d : DeviceKey} : Inert (fold env room scope) d ↔
    ¬ ∃ m ∈ (fold env room scope).activeMembers, m.device = some d := by
  constructor
  · intro h ⟨m, hm, hdev⟩
    obtain ⟨hmem, hactive⟩ := List.mem_filter.mp hm
    obtain ⟨i, hi⟩ := OrdMap.mem_values.mp hmem
    have hinert := h i (MembershipSnapshot.boundDevice_eq_some.mpr ⟨m, hi, hdev⟩)
    rw [MembershipSnapshot.isActive_iff.mpr ⟨m, hi, by simpa using hactive⟩] at hinert
    cases hinert
  · intro h i hbound
    rw [← Bool.not_eq_true]
    intro hactive
    obtain ⟨m, hm, hstatus⟩ := MembershipSnapshot.isActive_iff.mp hactive
    obtain ⟨m', hm', hdev⟩ := MembershipSnapshot.boundDevice_eq_some.mp hbound
    rw [hm, Option.some.injEq] at hm'
    rw [← hm'] at hdev
    exact h ⟨m, List.mem_filter.mpr ⟨OrdMap.mem_values.mpr ⟨i, hm⟩, by simpa using hstatus⟩, hdev⟩

/-- The accept gate refuses a device that no Active member has. -/
theorem admissionRefuses_of_inert {e : SyncEngine env sealing room} {scope : List Entry}
    (hfold : e.snapshot = fold env room scope) {d : EndpointId isPoint} (h : Inert e.snapshot d.val) :
    AdmissionRefuses e d := by
  rcases AdmissionView.decide_cases (RoomReconciler.admissionView e) d with ⟨i, hadmitted⟩ | hreject
  · obtain ⟨⟨m, hm, hid, hdev⟩, hactive, -⟩ := AdmissionView.fromSnapshot_admitted hadmitted
    obtain ⟨j, hj⟩ := OrdMap.mem_values.mp hm
    have hj' : (fold env room scope).member j = some m := by rw [← hfold]; exact hj
    have hji : j = i := (fold_member_identity hj').symm.trans hid
    have hinert := h i (MembershipSnapshot.boundDevice_eq_some.mpr ⟨m, hji ▸ hj, hdev⟩)
    rw [hactive] at hinert
    cases hinert
  · exact hreject

/-- The pipe gate refuses a device that no Active member has. -/
theorem pipeRefuses_of_inert {e : SyncEngine env sealing room} {scope : List Entry}
    (hfold : e.snapshot = fold env room scope) {d : DeviceKey} (h : Inert e.snapshot d) : PipeRefuses e d := by
  intro registry pipeId now target haccept
  obtain ⟨-, -, opened, -, hallowed⟩ := evaluate_servePipeQuery.mp haccept
  obtain ⟨⟨i, hi, hactive, -⟩, -⟩ := (pipeConnectAllowed_accept e.snapshot d opened now).mp hallowed
  rw [hfold] at hi
  have hinert := h i (by rw [hfold]; exact boundDevice_of_identityOfDevice hi)
  rw [hactive] at hinert
  cases hinert

/-- In every state of a node the overlay holds on all planes, for every device of a fail-closed subject, exactly
when no such device is the device of an Active member. -/
theorem fail_closed_enforced_iff {occurs : EventId → SignedEvent → Prop} (e : SyncEngine env sealing room)
    (hreach : Reachable occurs e) :
    (∀ s ∈ e.failClosedSubjects, ∀ d : EndpointId isPoint, e.snapshot.boundDevice s = some d.val →
      AdmissionRefuses e d ∧ BlobRefuses e d ∧ PipeRefuses e d.val) ↔
    ∀ s ∈ e.failClosedSubjects, ∀ d : EndpointId isPoint, e.snapshot.boundDevice s = some d.val →
      Inert e.snapshot d.val := by
  obtain ⟨scope, hfold⟩ := hreach.snapshot_eq_fold
  have hblob : ∀ d : EndpointId isPoint, BlobRefuses e d ↔ Inert e.snapshot d.val := by
    intro d
    rw [blobRefuses_iff, hfold, inert_iff]
  constructor
  · intro h s hs d hd
    exact (hblob d).mp (h s hs d hd).2.1
  · intro h s hs d hd
    have hinert := h s hs d hd
    exact ⟨admissionRefuses_of_inert hfold hinert, (hblob d).mpr hinert, pipeRefuses_of_inert hfold hinert⟩

end Planes

namespace Toy

/-- The engine after a peer advertised an admin tip that is not held. -/
def suspect (events : List (Nat × SignedEvent)) : SyncEngine toyEnv sealing room :=
  (run events).step (.onMessage room (.adminTip (some (Bytes32.ofNat 9, 5))))

theorem reachable_suspect (events : List (Nat × SignedEvent)) : Reachable (fun _ _ => True) (suspect events) :=
  .step (reachable_run fun _ _ => trivial) _ fun _ hf => nomatch hf

/-- Members 2 and 3 join, and 2 opens its pipe to 3. -/
def sharedPipe : List (Nat × SignedEvent) :=
  [(1, genesis), (2, invite 2 2 .member none [1]), (3, join 2 2 .member [2]), (4, invite 3 3 .member none [3]),
    (5, join 3 3 .member [4]), (7, announce 2 [3] [5])]

/-- Only invited: no device is bound yet. -/
def invitedOnly : List (Nat × SignedEvent) := [(1, genesis), (2, invite 2 2 .member none [1])]

end Toy

/-- While the only fail-closed subject has no device, nothing has to be refused. -/
theorem fail_closed_enforced_invited : Toy.identity 2 ∈ (Toy.suspect Toy.invitedOnly).failClosedSubjects ∧
    ∀ s ∈ (Toy.suspect Toy.invitedOnly).failClosedSubjects, ∀ d : EndpointId Toy.allPoints,
      (Toy.suspect Toy.invitedOnly).snapshot.boundDevice s = some d.val →
      AdmissionRefuses (Toy.suspect Toy.invitedOnly) d ∧ BlobRefuses (Toy.suspect Toy.invitedOnly) d ∧
        PipeRefuses (Toy.suspect Toy.invitedOnly) d.val := by
  obtain ⟨hsubject, hunbound⟩ : Toy.identity 2 ∈ (Toy.suspect Toy.invitedOnly).failClosedSubjects ∧
      ∀ s ∈ (Toy.suspect Toy.invitedOnly).failClosedSubjects,
        (Toy.suspect Toy.invitedOnly).snapshot.boundDevice s = none := by decide +kernel
  refine ⟨hsubject, (fail_closed_enforced_iff _ (Toy.reachable_suspect Toy.invitedOnly)).mpr ?_⟩
  intro s hs d hd
  rw [hunbound s hs] at hd
  cases hd

/-- The suspected member 3 is refused by the accept gate, yet active for the blob gate and accepted on its pipe. -/
theorem fail_closed_open_planes : Reachable (fun _ _ => True) (Toy.suspect Toy.sharedPipe) ∧
    Toy.identity 3 ∈ (Toy.suspect Toy.sharedPipe).failClosedSubjects ∧
    (Toy.suspect Toy.sharedPipe).snapshot.boundDevice (Toy.identity 3) = some (Toy.endpoint 3).val ∧
    ¬ BlobRefuses (Toy.suspect Toy.sharedPipe) (Toy.endpoint 3) ∧
    evaluate (servePipeQuery (Toy.suspect Toy.sharedPipe)) Toy.registry (Toy.endpoint 3).val 7 0
      = .accept Toy.loopback := by
  -- the room is evaluated once for all that is read of it
  obtain ⟨hsubject, hbound, hactive, haccept⟩ :
      Toy.identity 3 ∈ (Toy.suspect Toy.sharedPipe).failClosedSubjects ∧
      (Toy.suspect Toy.sharedPipe).snapshot.boundDevice (Toy.identity 3) = some (Toy.endpoint 3).val ∧
      (∃ m ∈ (Toy.suspect Toy.sharedPipe).snapshot.activeMembers, m.device = some (Toy.endpoint 3).val) ∧
      evaluate (servePipeQuery (Toy.suspect Toy.sharedPipe)) Toy.registry (Toy.endpoint 3).val 7 0
        = .accept Toy.loopback := by decide +kernel
  refine ⟨Toy.reachable_suspect _, hsubject, hbound, ?_, haccept⟩
  rw [blobRefuses_iff, not_not]
  exact hactive

end IrohRooms
