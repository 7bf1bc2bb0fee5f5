import IrohRooms.Net.Manager

/-!
# The gossip mesh of a room

A node subscribes to the gossip topic of its room in the background. The reconciler starts a join attempt when there is
no mesh and none is under way; the attempt installs the mesh it has joined if the epoch of the room is still the one it
started with. A reconcile that finds a member revoked, or the node itself removed, aborts the attempt and advances the
epoch. An abort only asks: the attempt may still come to its install step, and then it is the epoch that keeps its mesh
out. The drop of the reconciler aborts the attempt and removes the mesh, but leaves the epoch.

Every step under a lock is a step of its own here, so the attempts run between any two of the reconciler's. The join
itself is iroh-gossip's; an attempt ends it at any time, with a mesh or without.
-/

namespace IrohRooms

variable {isPoint : DeviceKey → Bool}

/-- A joined mesh, told apart by the attempt that joined it. -/
structure GossipMesh where
  roomId : RoomId
  attempt : Nat
  deriving DecidableEq

/-- The meshes and the subscription epochs, 64-bit numbers. -/
structure GossipState where
  meshes : OrdMap RoomId GossipMesh
  meshEpochs : OrdMap RoomId Nat

namespace GossipState

def withActor : GossipState := ⟨.empty, .empty⟩

variable (g : GossipState) (roomId : RoomId)

/-- Advance the epoch of the room and drop its mesh. -/
def beginMeshAttempt : GossipState × Nat :=
  let epoch := ((g.meshEpochs.get? roomId).getD 0 + 1) % 2 ^ 64
  (⟨g.meshes.erase roomId, g.meshEpochs.insert roomId epoch⟩, epoch)

def installMeshIfCurrent (epoch : Nat) (mesh : GossipMesh) : GossipState × Bool :=
  if g.meshEpochs.get? roomId ≠ some epoch then (g, false)
  else ({ g with meshes := g.meshes.insert roomId mesh }, true)

/-- Drop the mesh; the epoch stays. -/
def removeMesh : GossipState × Option GossipMesh :=
  ({ g with meshes := g.meshes.erase roomId }, g.meshes.get? roomId)

def hasMesh : Bool := g.meshes.contains roomId

/-- The number of the room's epoch, `0` before the first one. -/
def epoch : Nat := (g.meshEpochs.get? roomId).getD 0

end GossipState

/-- An attempt joins, then it installs its mesh or has none, then its task is finished. -/
inductive JoinPhase
  | joining | settled | finished
  deriving DecidableEq, Repr

/-- A spawned join attempt. -/
structure JoinAttempt (isPoint : DeviceKey → Bool) where
  roomId : RoomId
  epoch : Nat
  bootstrap : List (EndpointId isPoint)
  aborted : Bool
  phase : JoinPhase

/-- The reconciler; the handle of an attempt is its number. -/
structure GossipReconciler (isPoint : DeviceKey → Bool) where
  roomId : RoomId
  selfDevice : EndpointId isPoint
  lastAdmitted : OrdSet (EndpointId isPoint)
  attempt : Option Nat

namespace GossipReconciler

variable (r : GossipReconciler isPoint) (snapshot : MembershipSnapshot)
  (authorize : EndpointId isPoint → AdmissionDecision)

def admittedDevices : OrdSet (EndpointId isPoint) :=
  (PeerManager.desiredDevices snapshot r.selfDevice).filter fun d => match authorize d with
    | .admitted _ => true
    | _ => false

def selfActive : Bool :=
  match snapshot.identityOfDevice r.selfDevice.val with
  | some identity => snapshot.isActive identity
  | none => false

/-- A device that was admitted at the last reconcile is no longer. -/
def revoked : Bool := r.lastAdmitted.toList.any fun d => d ∉ r.admittedDevices snapshot authorize

def bootstrap : List (EndpointId isPoint) :=
  ((PeerManager.desiredSeeds snapshot r.selfDevice).inter (r.admittedDevices snapshot authorize)).toList

end GossipReconciler

/-- Where the reconciler stands: between two calls, or before a step of the call it is in. -/
inductive ReconcilePoint (isPoint : DeviceKey → Bool)
  | idle
  | invalidate
  | checkMesh (bootstrap : List (EndpointId isPoint))
  | checkAttempt (bootstrap : List (EndpointId isPoint))
  | beginAttempt (bootstrap : List (EndpointId isPoint))
  | spawn (epoch : Nat) (bootstrap : List (EndpointId isPoint))
  | removeMesh
  | dropped
  deriving DecidableEq

/-- The overlay state of a node with its reconciler and all attempts it has spawned, numbered from `0`. -/
structure GossipSession (isPoint : DeviceKey → Bool) where
  gossip : GossipState
  reconciler : GossipReconciler isPoint
  point : ReconcilePoint isPoint
  attempts : List (JoinAttempt isPoint)

/-- What happens next: a call of the reconciler or its drop, the next step of the call it is in, the end of a join with
a mesh or without, the end of a task, or the cancellation of an aborted one. -/
inductive GossipLabel (isPoint : DeviceKey → Bool)
  | reconcile (snapshot : MembershipSnapshot) (authorize : EndpointId isPoint → AdmissionDecision)
  | drop
  | advance
  | settle (attempt : Nat) (joined : Bool)
  | finish (attempt : Nat)
  | cancel (attempt : Nat)

namespace GossipSession

def start (roomId : RoomId) (selfDevice : EndpointId isPoint) : GossipSession isPoint :=
  ⟨.withActor, ⟨roomId, selfDevice, .empty, none⟩, .idle, []⟩

variable (s : GossipSession isPoint)

/-- Take the handle, and ask its attempt to stop. -/
def abortAttempt : GossipSession isPoint :=
  { s with
    reconciler := { s.reconciler with attempt := none }
    attempts := match s.reconciler.attempt with
      | some id => s.attempts.modify id fun t => { t with aborted := true }
      | none => s.attempts }

/-- The handle is that of an attempt that is not finished. -/
def attemptRunning : Bool :=
  match s.reconciler.attempt.bind (s.attempts[·]?) with
  | some t => t.phase ≠ .finished
  | none => false

/-- A call, up to its first step under a lock. -/
def reconcile (snapshot : MembershipSnapshot) (authorize : EndpointId isPoint → AdmissionDecision) :
    GossipSession isPoint :=
  let r := s.reconciler
  if !r.selfActive snapshot then
    { s with reconciler := { r with lastAdmitted := .empty }, point := .invalidate }.abortAttempt
  else
    let noted := { r with lastAdmitted := r.admittedDevices snapshot authorize }
    if r.revoked snapshot authorize then { s with reconciler := noted, point := .invalidate }.abortAttempt
    else { s with reconciler := noted, point := .checkMesh (r.bootstrap snapshot authorize) }

/-- The next step of a call. -/
def advance : GossipSession isPoint :=
  let roomId := s.reconciler.roomId
  match s.point with
  | .invalidate => { s with gossip := (s.gossip.beginMeshAttempt roomId).1, point := .idle }
  | .checkMesh bootstrap => { s with point := if s.gossip.hasMesh roomId then .idle else .checkAttempt bootstrap }
  | .checkAttempt bootstrap =>
    if s.attemptRunning then { s with point := .idle }
    else { s with reconciler := { s.reconciler with attempt := none }, point := .beginAttempt bootstrap }
  | .beginAttempt bootstrap =>
    let begun := s.gossip.beginMeshAttempt roomId
    { s with gossip := begun.1, point := .spawn begun.2 bootstrap }
  | .spawn epoch bootstrap =>
    { s with
      attempts := s.attempts ++ [⟨roomId, epoch, bootstrap, false, .joining⟩]
      reconciler := { s.reconciler with attempt := some s.attempts.length }
      point := .idle }
  | .removeMesh => { s with gossip := (s.gossip.removeMesh roomId).1, point := .dropped }
  | .idle | .dropped => s

/-- A joining attempt comes to its install step, or it has failed. -/
def settle (id : Nat) (joined : Bool) : GossipSession isPoint :=
  match s.attempts[id]? with
  | some t =>
    if t.phase = .joining then
      { s with
        gossip := if joined then (s.gossip.installMeshIfCurrent t.roomId t.epoch ⟨t.roomId, id⟩).1 else s.gossip
        attempts := s.attempts.modify id fun t => { t with phase := .settled } }
    else s
  | none => s

/-- The task of an attempt returns once it has settled, and is dropped at an await point of its join if it is
aborted. -/
def endTask (ends : JoinAttempt isPoint → Bool) (id : Nat) : GossipSession isPoint :=
  { s with attempts := s.attempts.modify id fun t => if ends t then { t with phase := .finished } else t }

/-- A label that is not enabled changes nothing. -/
def step : GossipLabel isPoint → GossipSession isPoint
  | .reconcile snapshot authorize => match s.point with
    | .idle => s.reconcile snapshot authorize
    | _ => s
  | .drop => match s.point with
    | .idle => { s with point := .removeMesh }.abortAttempt
    | _ => s
  | .advance => s.advance
  | .settle id joined => s.settle id joined
  | .finish id => s.endTask (fun t => t.phase = .settled) id
  | .cancel id => s.endTask (fun t => t.phase = .joining && t.aborted) id

def run (labels : List (GossipLabel isPoint)) : GossipSession isPoint := labels.foldl step s

/-- The step calls `begin_mesh_attempt`. -/
def begins : GossipLabel isPoint → Bool
  | .advance => match s.point with
    | .invalidate | .beginAttempt _ => true
    | _ => false
  | _ => false

/-- How often a run calls `begin_mesh_attempt`. -/
def begun : GossipSession isPoint → List (GossipLabel isPoint) → Nat
  | _, [] => 0
  | s, label :: labels => (if s.begins label then 1 else 0) + begun (s.step label) labels

/-- The step under a lock that carries out a revocation, a self-removal or the drop of the reconciler. -/
def invalidates : GossipLabel isPoint → Bool
  | .advance => match s.point with
    | .invalidate | .removeMesh => true
    | _ => false
  | _ => false

/-- The number of the epoch of the reconciler's room. -/
def epoch : Nat := s.gossip.epoch s.reconciler.roomId

/-- After a revocation, a self-removal or the drop the room has no mesh of an attempt that was started before it. -/
def StaleFree (labels : List (GossipLabel isPoint)) : Prop :=
  ∀ pre label mid, pre ++ label :: mid <+: labels → (s.run pre).invalidates label = true →
    ∀ mesh, (s.run (pre ++ label :: mid)).gossip.meshes.get? s.reconciler.roomId = some mesh →
      (s.run pre).attempts.length ≤ mesh.attempt

/-- No attempt that is still joining has the current epoch. -/
def Settled : Prop :=
  ∀ t ∈ s.attempts, t.phase = .joining → s.gossip.meshEpochs.get? t.roomId ≠ some t.epoch

/-- The reconciler is dropped only when no attempt that is still joining has the current epoch. -/
def DropsSettled (labels : List (GossipLabel isPoint)) : Prop :=
  ∀ pre, pre ++ [.advance] <+: labels → (s.run pre).point = .removeMesh → (s.run pre).Settled

/-! ### What a step does -/

/-- The attempts after a step that starts none. -/
structure Progress (before after : List (JoinAttempt isPoint)) : Prop where
  length : after.length = before.length
  keeps : ∀ {id : Nat} {t : JoinAttempt isPoint}, after[id]? = some t → ∃ u : JoinAttempt isPoint,
    before[id]? = some u ∧ t.roomId = u.roomId ∧ t.epoch = u.epoch ∧ (t.phase = .joining → u.phase = .joining)

theorem Progress.refl (l : List (JoinAttempt isPoint)) : Progress l l where
  length := rfl
  keeps h := ⟨_, h, rfl, rfl, id⟩

theorem Progress.modify (l : List (JoinAttempt isPoint)) (id : Nat) {f : JoinAttempt isPoint → JoinAttempt isPoint}
    (hf : ∀ t, (f t).roomId = t.roomId ∧ (f t).epoch = t.epoch ∧ ((f t).phase = .joining → t.phase = .joining)) :
    Progress l (l.modify id f) where
  length := List.length_modify f l id
  keeps := by
    intro k t h
    rw [List.getElem?_modify, Option.map_eq_map, Option.map_eq_some_iff] at h
    obtain ⟨u, hu, rfl⟩ := h
    refine ⟨u, hu, ?_⟩
    split_ifs
    · exact hf u
    · exact ⟨rfl, rfl, fun h => h⟩

theorem progress_abortAttempt (s : GossipSession isPoint) : Progress s.attempts s.abortAttempt.attempts := by
  unfold abortAttempt
  cases s.reconciler.attempt with
  | none => exact Progress.refl s.attempts
  | some id => exact Progress.modify s.attempts id fun t => ⟨rfl, rfl, fun h => h⟩

/-- What a step does to the overlay state and to the attempts. -/
inductive Change (s : GossipSession isPoint) (label : GossipLabel isPoint) (s' : GossipSession isPoint) : Prop
  | quiet (hbegins : s.begins label = false) (hgossip : s'.gossip = s.gossip)
      (hattempts : Progress s.attempts s'.attempts)
      (hpoint : ∀ epoch bootstrap, s'.point = .spawn epoch bootstrap → s.point = .spawn epoch bootstrap)
  | begins (hbegins : s.begins label = true) (hgossip : s'.gossip = (s.gossip.beginMeshAttempt s.reconciler.roomId).1)
      (hattempts : s'.attempts = s.attempts)
      (hpoint : ∀ epoch bootstrap, s'.point = .spawn epoch bootstrap →
        epoch = (s.gossip.beginMeshAttempt s.reconciler.roomId).2)
  | spawns (epoch : Nat) (bootstrap : List (EndpointId isPoint)) (hbegins : s.begins label = false)
      (hfrom : s.point = .spawn epoch bootstrap) (hgossip : s'.gossip = s.gossip)
      (hattempts : s'.attempts = s.attempts ++ [⟨s.reconciler.roomId, epoch, bootstrap, false, .joining⟩])
      (hpoint : s'.point = .idle)
  | settles (id : Nat) (t : JoinAttempt isPoint) (hbegins : s.begins label = false)
      (hattempt : s.attempts[id]? = some t) (hjoining : t.phase = .joining)
      (hgossip : s'.gossip = (s.gossip.installMeshIfCurrent t.roomId t.epoch ⟨t.roomId, id⟩).1)
      (hattempts : Progress s.attempts s'.attempts) (hpoint : s'.point = s.point)
  | removes (hbegins : s.begins label = false) (hgossip : s'.gossip = (s.gossip.removeMesh s.reconciler.roomId).1)
      (hattempts : s'.attempts = s.attempts) (hpoint : s'.point = .dropped)

theorem change_reconcile (s : GossipSession isPoint) (snapshot : MembershipSnapshot)
    (authorize : EndpointId isPoint → AdmissionDecision) :
    Change s (.reconcile snapshot authorize) (s.step (.reconcile snapshot authorize)) := by
  simp only [step]
  split
  · unfold reconcile
    dsimp only
    split_ifs
    · exact .quiet rfl rfl (progress_abortAttempt _) fun _ _ h => by cases h
    · exact .quiet rfl rfl (progress_abortAttempt _) fun _ _ h => by cases h
    · exact .quiet rfl rfl (.refl _) fun _ _ h => by cases h
  · exact .quiet rfl rfl (.refl _) fun _ _ h => h

theorem change_advance (s : GossipSession isPoint) : Change s .advance (s.step .advance) := by
  simp only [step, advance]
  cases hpoint : s.point with
  | idle => exact .quiet (by simp [GossipSession.begins, hpoint]) rfl (.refl _) fun _ _ h => h
  | invalidate => exact .begins (by simp [GossipSession.begins, hpoint]) rfl rfl fun _ _ h => by cases h
  | checkMesh bootstrap =>
    refine .quiet (by simp [GossipSession.begins, hpoint]) rfl (.refl _) fun _ _ h => ?_
    dsimp only at h
    split_ifs at h
  | checkAttempt bootstrap =>
    dsimp only
    split_ifs
    · exact .quiet (by simp [GossipSession.begins, hpoint]) rfl (.refl _) fun _ _ h => by cases h
    · exact .quiet (by simp [GossipSession.begins, hpoint]) rfl (.refl _) fun _ _ h => by cases h
  | beginAttempt bootstrap =>
    refine .begins (by simp [GossipSession.begins, hpoint]) rfl rfl fun _ _ h => ?_
    cases h
    rfl
  | spawn epoch bootstrap =>
    exact .spawns epoch bootstrap (by simp [GossipSession.begins, hpoint]) hpoint rfl rfl rfl
  | removeMesh => exact .removes (by simp [GossipSession.begins, hpoint]) rfl rfl rfl
  | dropped => exact .quiet (by simp [GossipSession.begins, hpoint]) rfl (.refl _) fun _ _ h => h

theorem change_settle (s : GossipSession isPoint) (id : Nat) (joined : Bool) :
    Change s (.settle id joined) (s.step (.settle id joined)) := by
  have hmodify : Progress s.attempts (s.attempts.modify id fun t => { t with phase := .settled }) :=
    Progress.modify s.attempts id fun t => ⟨rfl, rfl, fun h => by cases h⟩
  simp only [step, settle]
  cases hattempt : s.attempts[id]? with
  | none => exact .quiet rfl rfl (.refl _) fun _ _ h => h
  | some t =>
    dsimp only
    split_ifs with hjoining hjoined
    · exact .settles id t rfl hattempt hjoining rfl hmodify rfl
    · exact .quiet rfl rfl hmodify fun _ _ h => h
    · exact .quiet rfl rfl (.refl _) fun _ _ h => h

theorem progress_endTask (s : GossipSession isPoint) (ends : JoinAttempt isPoint → Bool) (id : Nat) :
    Progress s.attempts (s.endTask ends id).attempts := by
  refine Progress.modify s.attempts id fun t => ?_
  split_ifs
  · exact ⟨rfl, rfl, fun h => by cases h⟩
  · exact ⟨rfl, rfl, fun h => h⟩

theorem change_step (s : GossipSession isPoint) (label : GossipLabel isPoint) : Change s label (s.step label) := by
  cases label with
  | reconcile snapshot authorize => exact change_reconcile s snapshot authorize
  | drop =>
    simp only [step]
    split
    · exact .quiet rfl rfl (progress_abortAttempt _) fun _ _ h => by cases h
    · exact .quiet rfl rfl (.refl _) fun _ _ h => h
  | advance => exact change_advance s
  | settle id joined => exact change_settle s id joined
  | finish id => exact .quiet rfl rfl (progress_endTask s _ id) fun _ _ h => h
  | cancel id => exact .quiet rfl rfl (progress_endTask s _ id) fun _ _ h => h

theorem roomId_step (s : GossipSession isPoint) (label : GossipLabel isPoint) :
    (s.step label).reconciler.roomId = s.reconciler.roomId := by
  cases label with
  | reconcile snapshot authorize =>
    simp only [step]
    split
    · unfold reconcile
      dsimp only
      split_ifs <;> rfl
    · rfl
  | drop =>
    simp only [step]
    split <;> rfl
  | advance =>
    simp only [step, advance]
    cases s.point with
    | checkAttempt bootstrap =>
      dsimp only
      split_ifs <;> rfl
    | _ => rfl
  | settle id joined =>
    simp only [step, settle]
    cases s.attempts[id]? with
    | none => rfl
    | some t =>
      dsimp only
      split_ifs <;> rfl
  | finish id => rfl
  | cancel id => rfl

/-- A call goes on to invalidate exactly if the node itself is no longer Active, or a device that was admitted at the
last call is no longer. -/
theorem reconcile_invalidate_iff (s : GossipSession isPoint) (snapshot : MembershipSnapshot)
    (authorize : EndpointId isPoint → AdmissionDecision) :
    (s.reconcile snapshot authorize).point = .invalidate ↔ s.reconciler.selfActive snapshot = false ∨
      ∃ d ∈ s.reconciler.lastAdmitted, d ∉ s.reconciler.admittedDevices snapshot authorize := by
  have hrevoked : s.reconciler.revoked snapshot authorize = true ↔
      ∃ d ∈ s.reconciler.lastAdmitted, d ∉ s.reconciler.admittedDevices snapshot authorize := by
    simp [GossipReconciler.revoked]
  rw [← hrevoked]
  unfold reconcile
  dsimp only
  split_ifs with hself hdevice
  · exact iff_of_true rfl (.inl (by simpa using hself))
  · exact iff_of_true rfl (.inr hdevice)
  · refine iff_of_false (fun h => by cases h) ?_
    rintro (hinactive | hgone)
    · exact hself (by simp [hinactive])
    · exact hdevice hgone

/-! ### Epochs -/

section Epochs

variable {g : GossipState} {roomId : RoomId} {e : Nat} {mesh : GossipMesh}

theorem epoch_beginMeshAttempt : (g.beginMeshAttempt roomId).1.epoch roomId = (g.epoch roomId + 1) % 2 ^ 64 := by
  simp [GossipState.epoch, GossipState.beginMeshAttempt]

theorem epoch_installMeshIfCurrent {roomId' : RoomId} :
    (g.installMeshIfCurrent roomId' e mesh).1.epoch roomId = g.epoch roomId := by
  unfold GossipState.installMeshIfCurrent
  split_ifs <;> rfl

theorem epoch_step (s : GossipSession isPoint) (label : GossipLabel isPoint) :
    (s.step label).epoch = if s.begins label then (s.epoch + 1) % 2 ^ 64 else s.epoch := by
  unfold epoch
  rw [roomId_step]
  cases change_step s label with
  | quiet hbegins hgossip => rw [hgossip, hbegins, if_neg Bool.false_ne_true]
  | begins hbegins hgossip => rw [hgossip, hbegins, if_pos rfl, epoch_beginMeshAttempt]
  | spawns epoch bootstrap hbegins hfrom hgossip => rw [hgossip, hbegins, if_neg Bool.false_ne_true]
  | settles id t hbegins hattempt hjoining hgossip =>
    rw [hgossip, hbegins, if_neg Bool.false_ne_true, epoch_installMeshIfCurrent]
  | removes hbegins hgossip =>
    rw [hgossip, hbegins, if_neg Bool.false_ne_true]
    rfl

end Epochs

variable {s : GossipSession isPoint} {label : GossipLabel isPoint} {labels : List (GossipLabel isPoint)}

theorem run_append (s : GossipSession isPoint) (labels more : List (GossipLabel isPoint)) :
    s.run (labels ++ more) = (s.run labels).run more := List.foldl_append

theorem roomId_run (s : GossipSession isPoint) (labels : List (GossipLabel isPoint)) :
    (s.run labels).reconciler.roomId = s.reconciler.roomId := by
  induction labels generalizing s with
  | nil => rfl
  | cons label labels ih => exact (ih (s.step label)).trans (roomId_step s label)

theorem begun_append (s : GossipSession isPoint) (labels more : List (GossipLabel isPoint)) :
    s.begun (labels ++ more) = s.begun labels + (s.run labels).begun more := by
  induction labels generalizing s with
  | nil => exact (Nat.zero_add _).symm
  | cons label labels ih =>
    rw [List.cons_append, begun, begun, ih, Nat.add_assoc]
    rfl

/-- An epoch that does not come round in a run is moved up by each call of `begin_mesh_attempt`. -/
theorem epoch_step_few (hfew : s.epoch + s.begun (label :: labels) < 2 ^ 64) :
    (s.step label).epoch = s.epoch + (if s.begins label then 1 else 0) ∧
    (s.step label).epoch + (s.step label).begun labels < 2 ^ 64 := by
  have hstep := epoch_step s label
  rw [begun] at hfew
  split_ifs at hstep hfew ⊢ with hbegins
  · rw [Nat.mod_eq_of_lt (by omega)] at hstep
    omega
  · omega

theorem epoch_run (s : GossipSession isPoint) (labels : List (GossipLabel isPoint))
    (hfew : s.epoch + s.begun labels < 2 ^ 64) :
    (s.run labels).epoch = s.epoch + s.begun labels := by
  induction labels generalizing s with
  | nil => rfl
  | cons label labels ih =>
    obtain ⟨hstep, hrest⟩ := epoch_step_few hfew
    have hrun := ih (s.step label) hrest
    rw [begun, ← Nat.add_assoc, ← hstep, ← hrun]
    rfl

/-- Every attempt has an epoch its room has had. -/
structure Stamped (s : GossipSession isPoint) : Prop where
  attempts : ∀ {id : Nat} {t : JoinAttempt isPoint}, s.attempts[id]? = some t →
    t.roomId = s.reconciler.roomId ∧ 0 < t.epoch ∧ t.epoch ≤ s.epoch
  spawning : ∀ {epoch bootstrap}, s.point = .spawn epoch bootstrap → 0 < epoch ∧ epoch ≤ s.epoch

theorem Stamped.start (roomId : RoomId) (selfDevice : EndpointId isPoint) : Stamped (start roomId selfDevice) where
  attempts h := by cases h
  spawning h := by cases h

/-- After a step an attempt is one of those before, with its epoch, or the one the reconciler was about to spawn. -/
theorem attempt_step {id : Nat} {t : JoinAttempt isPoint} (ht : (s.step label).attempts[id]? = some t) :
    (∃ u : JoinAttempt isPoint, s.attempts[id]? = some u ∧ t.roomId = u.roomId ∧ t.epoch = u.epoch ∧
      (t.phase = .joining → u.phase = .joining)) ∨
    (s.attempts.length ≤ id ∧ t.roomId = s.reconciler.roomId ∧ ∃ bootstrap, s.point = .spawn t.epoch bootstrap) := by
  cases change_step s label with
  | quiet hbegins hgossip hattempts => exact .inl (hattempts.keeps ht)
  | begins hbegins hgossip hattempts =>
    rw [hattempts] at ht
    exact .inl ((Progress.refl _).keeps ht)
  | spawns epoch bootstrap hbegins hfrom hgossip hattempts =>
    rw [hattempts, List.getElem?_append] at ht
    split_ifs at ht with hid
    · exact .inl ((Progress.refl _).keeps ht)
    · rw [List.getElem?_singleton] at ht
      split_ifs at ht
      cases ht
      exact .inr ⟨Nat.le_of_not_lt hid, rfl, bootstrap, hfrom⟩
  | settles id t hbegins hattempt hjoining hgossip hattempts => exact .inl (hattempts.keeps ht)
  | removes hbegins hgossip hattempts =>
    rw [hattempts] at ht
    exact .inl ((Progress.refl _).keeps ht)

theorem length_attempts_step (s : GossipSession isPoint) (label : GossipLabel isPoint) :
    s.attempts.length ≤ (s.step label).attempts.length := by
  cases change_step s label with
  | quiet hbegins hgossip hattempts => exact hattempts.length.ge
  | begins hbegins hgossip hattempts => exact (congrArg List.length hattempts).ge
  | spawns epoch bootstrap hbegins hfrom hgossip hattempts =>
    rw [hattempts, List.length_append]
    exact Nat.le_add_right _ _
  | settles id t hbegins hattempt hjoining hgossip hattempts => exact hattempts.length.ge
  | removes hbegins hgossip hattempts => exact (congrArg List.length hattempts).ge

/-- After a step a mesh is in place only if it was before, or if its attempt was joining and had the current epoch. -/
theorem mesh_step {roomId : RoomId} {mesh : GossipMesh} (h : (s.step label).gossip.meshes.get? roomId = some mesh) :
    s.gossip.meshes.get? roomId = some mesh ∨ ∃ t, s.attempts[mesh.attempt]? = some t ∧ t.phase = .joining ∧
      s.gossip.meshEpochs.get? t.roomId = some t.epoch := by
  have herased : ∀ room, (s.gossip.meshes.erase room).get? roomId = some mesh →
      s.gossip.meshes.get? roomId = some mesh := by
    intro room hget
    rw [OrdMap.get?_erase] at hget
    split_ifs at hget
    exact hget
  cases change_step s label with
  | quiet hbegins hgossip =>
    rw [hgossip] at h
    exact .inl h
  | begins hbegins hgossip =>
    rw [hgossip] at h
    exact .inl (herased _ h)
  | spawns epoch bootstrap hbegins hfrom hgossip =>
    rw [hgossip] at h
    exact .inl h
  | settles id t hbegins hattempt hjoining hgossip =>
    rw [hgossip, GossipState.installMeshIfCurrent] at h
    split_ifs at h with hcurrent
    · exact .inl h
    · rw [OrdMap.get?_insert] at h
      split_ifs at h
      · cases h
        exact .inr ⟨t, hattempt, hjoining, not_not.mp hcurrent⟩
      · exact .inl h
  | removes hbegins hgossip =>
    rw [hgossip] at h
    exact .inl (herased _ h)

/-- The epoch the reconciler is about to spawn an attempt with is the one it has begun. -/
theorem spawn_step {epoch : Nat} {bootstrap : List (EndpointId isPoint)}
    (h : (s.step label).point = .spawn epoch bootstrap) :
    s.point = .spawn epoch bootstrap ∨ (s.begins label = true ∧ epoch = (s.step label).epoch) := by
  cases change_step s label with
  | quiet hbegins hgossip hattempts hpoint => exact .inl (hpoint _ _ h)
  | begins hbegins hgossip hattempts hpoint =>
    refine .inr ⟨hbegins, ?_⟩
    rw [hpoint _ _ h, epoch_step, if_pos hbegins]
    rfl
  | spawns epoch bootstrap hbegins hfrom hgossip hattempts hpoint =>
    rw [hpoint] at h
    cases h
  | settles id t hbegins hattempt hjoining hgossip hattempts hpoint =>
    rw [hpoint] at h
    exact .inl h
  | removes hbegins hgossip hattempts hpoint =>
    rw [hpoint] at h
    cases h

theorem epoch_le_step (hfew : s.epoch + s.begun (label :: labels) < 2 ^ 64) : s.epoch ≤ (s.step label).epoch := by
  rw [(epoch_step_few hfew).1]
  exact Nat.le_add_right _ _

theorem Stamped.step (h : s.Stamped) (hfew : s.epoch + s.begun (label :: labels) < 2 ^ 64) :
    (s.step label).Stamped := by
  have hepoch := epoch_le_step hfew
  constructor
  · intro id t ht
    rw [roomId_step]
    rcases attempt_step ht with ⟨u, hu, hroom, hsame, -⟩ | ⟨-, hroom, bootstrap, hspawn⟩
    · have hbefore := h.attempts hu
      rw [hroom, hsame]
      exact ⟨hbefore.1, hbefore.2.1, hbefore.2.2.trans hepoch⟩
    · have hnew := h.spawning hspawn
      exact ⟨hroom, hnew.1, hnew.2.trans hepoch⟩
  · intro epoch bootstrap hspawn
    rcases spawn_step hspawn with hbefore | ⟨hbegins, hnew⟩
    · have hold := h.spawning hbefore
      exact ⟨hold.1, hold.2.trans hepoch⟩
    · have hmoved := (epoch_step_few hfew).1
      rw [if_pos hbegins] at hmoved
      omega

theorem Stamped.run (h : s.Stamped) (labels : List (GossipLabel isPoint))
    (hfew : s.epoch + s.begun labels < 2 ^ 64) : (s.run labels).Stamped := by
  induction labels generalizing s with
  | nil => exact h
  | cons label labels ih => exact ih (h.step hfew) (epoch_step_few hfew).2

/-! ### After an invalidation -/

/-- The first `n` attempts can no longer install, and have no mesh in place. -/
structure Superseded (n : Nat) (s : GossipSession isPoint) : Prop where
  count : n ≤ s.attempts.length
  older : ∀ {id : Nat} {t : JoinAttempt isPoint}, s.attempts[id]? = some t → id < n → t.phase = .joining →
    t.epoch < s.epoch
  mesh : ∀ {mesh : GossipMesh}, s.gossip.meshes.get? s.reconciler.roomId = some mesh → n ≤ mesh.attempt

theorem epoch_of_get? {t : JoinAttempt isPoint} (hroom : t.roomId = s.reconciler.roomId)
    (h : s.gossip.meshEpochs.get? t.roomId = some t.epoch) : s.epoch = t.epoch := by
  rw [epoch, GossipState.epoch, ← hroom, h, Option.getD_some]

theorem Superseded.step {n : Nat} (h : s.Superseded n) (hstamped : s.Stamped)
    (hfew : s.epoch + s.begun (label :: labels) < 2 ^ 64) : (s.step label).Superseded n where
  count := h.count.trans (length_attempts_step s label)
  older := by
    intro id t ht hid hjoining
    rcases attempt_step ht with ⟨u, hu, -, hsame, hphase⟩ | ⟨hlast, -⟩
    · rw [hsame]
      exact (h.older hu hid (hphase hjoining)).trans_le (epoch_le_step hfew)
    · exact absurd hid (Nat.not_lt.mpr (h.count.trans hlast))
  mesh := by
    intro mesh hmesh
    rw [roomId_step] at hmesh
    rcases mesh_step hmesh with hbefore | ⟨t, ht, hjoining, hcurrent⟩
    · exact h.mesh hbefore
    · -- One of the first `n` would have an older epoch than the current one, which it installs with.
      refine Nat.le_of_not_lt fun hid => ?_
      have holder := h.older ht hid hjoining
      rw [epoch_of_get? (hstamped.attempts ht).1 hcurrent] at holder
      exact Nat.lt_irrefl _ holder

theorem Superseded.run {n : Nat} (h : s.Superseded n) (hstamped : s.Stamped) (labels : List (GossipLabel isPoint))
    (hfew : s.epoch + s.begun labels < 2 ^ 64) : (s.run labels).Superseded n := by
  induction labels generalizing s with
  | nil => exact h
  | cons label labels ih => exact ih (h.step hstamped hfew) (hstamped.step hfew) (epoch_step_few hfew).2

theorem get?_of_epoch {t : JoinAttempt isPoint} (hroom : t.roomId = s.reconciler.roomId) (hpos : 0 < t.epoch)
    (h : s.epoch = t.epoch) : s.gossip.meshEpochs.get? t.roomId = some t.epoch := by
  rw [epoch, GossipState.epoch, ← hroom] at h
  cases hget : s.gossip.meshEpochs.get? t.roomId with
  | none =>
    rw [hget, Option.getD_none] at h
    omega
  | some e =>
    rw [hget, Option.getD_some] at h
    rw [h]

/-- An invalidation leaves no attempt before it that could install: `begin_mesh_attempt` moves the epoch on, and at
the drop none has the current one. -/
theorem superseded_of_invalidates (hstamped : s.Stamped) (hfew : s.epoch + s.begun (label :: labels) < 2 ^ 64)
    (hinvalidates : s.invalidates label = true) (hdrop : s.point = .removeMesh → s.Settled) :
    (s.step label).Superseded s.attempts.length := by
  have hstep := (epoch_step_few hfew).1
  cases label with
  | advance =>
    cases hpoint : s.point with
    | invalidate =>
      have hstate : s.step .advance =
          { s with gossip := (s.gossip.beginMeshAttempt s.reconciler.roomId).1, point := .idle } := by
        simp only [step, advance, hpoint]
      have hbegins : s.begins .advance = true := by simp only [begins, hpoint]
      rw [if_pos hbegins] at hstep
      refine ⟨length_attempts_step s _, fun ht _ _ => ?_, fun hmesh => ?_⟩
      · rw [hstate] at ht
        have hold := (hstamped.attempts ht).2.2
        omega
      · rw [hstate] at hmesh
        simp [GossipState.beginMeshAttempt, OrdMap.get?_erase] at hmesh
    | removeMesh =>
      have hstate : s.step .advance =
          { s with gossip := (s.gossip.removeMesh s.reconciler.roomId).1, point := .dropped } := by
        simp only [step, advance, hpoint]
      have hbegins : s.begins .advance = false := by simp only [begins, hpoint]
      rw [if_neg (by simp [hbegins])] at hstep
      refine ⟨length_attempts_step s _, fun {id t} ht _ hjoining => ?_, fun hmesh => ?_⟩
      · rw [hstate] at ht
        obtain ⟨hroom, hpos, hold⟩ := hstamped.attempts ht
        have hstale := hdrop hpoint t (List.mem_of_getElem? ht) hjoining
        have hne : s.epoch ≠ t.epoch := fun h => hstale (get?_of_epoch hroom hpos h)
        omega
      · rw [hstate] at hmesh
        simp [GossipState.removeMesh, OrdMap.get?_erase] at hmesh
    | _ => simp [invalidates, hpoint] at hinvalidates
  | _ => cases hinvalidates

theorem staleFree_of_dropsSettled (hstamped : s.Stamped) (hfew : s.epoch + s.begun labels < 2 ^ 64)
    (hdrops : s.DropsSettled labels) : s.StaleFree labels := by
  rintro pre label mid ⟨post, rfl⟩ hinvalidates mesh hmesh
  rw [List.append_assoc, begun_append] at hfew
  have hreached := epoch_run s pre (by omega)
  have hrest : (s.run pre).epoch + (s.run pre).begun (label :: (mid ++ post)) < 2 ^ 64 := by
    rw [hreached, Nat.add_assoc]
    exact hfew
  have hpre := hstamped.run pre (by omega)
  have hdrop : (s.run pre).point = .removeMesh → (s.run pre).Settled := by
    intro hpoint
    refine hdrops pre ?_ hpoint
    cases label with
    | advance => exact ⟨mid ++ post, by simp⟩
    | _ => cases hinvalidates
  have hafter := (epoch_step_few hrest).2
  rw [begun_append] at hafter
  have hsuperseded := (superseded_of_invalidates hpre hrest hinvalidates hdrop).run (hpre.step hrest) mid (by omega)
  have hend : s.run (pre ++ label :: mid) = ((s.run pre).step label).run mid := run_append s pre (label :: mid)
  rw [← hend] at hsuperseded
  exact hsuperseded.mesh (by rw [roomId_run, hmesh])

/-! ### The drop -/

theorem dropped_step (label : GossipLabel isPoint) (h : s.point = .dropped) :
    (s.step label).point = .dropped ∧ s.begins label = false := by
  cases label with
  | advance => simp [step, advance, begins, h]
  | reconcile snapshot authorize => simp [step, begins, h]
  | drop => simp [step, begins, h]
  | settle id joined =>
    refine ⟨?_, rfl⟩
    simp only [step, settle]
    split
    · split_ifs <;> exact h
    · exact h
  | finish id => exact ⟨h, rfl⟩
  | cancel id => exact ⟨h, rfl⟩

theorem dropped_run (h : s.point = .dropped) (labels : List (GossipLabel isPoint)) :
    (s.run labels).point = .dropped ∧ s.begun labels = 0 := by
  induction labels generalizing s with
  | nil => exact ⟨h, rfl⟩
  | cons label labels ih =>
    obtain ⟨hstep, hbegins⟩ := dropped_step label h
    obtain ⟨hrun, hbegun⟩ := ih hstep
    refine ⟨hrun, ?_⟩
    rw [begun, hbegun, hbegins, if_neg Bool.false_ne_true]

theorem removeMesh_advance (h : s.point = .removeMesh) : s.step .advance =
    { s with gossip := (s.gossip.removeMesh s.reconciler.roomId).1, point := .dropped } := by
  simp only [step, advance, h]

/-- Once the drop has made its step, it is over. -/
theorem dropped_of_prefix {pre : List (GossipLabel isPoint)} (hpoint : (s.run pre).point = .removeMesh)
    (hpre : pre ++ [GossipLabel.advance] <+: labels) : (s.run labels).point = .dropped := by
  obtain ⟨post, rfl⟩ := hpre
  rw [List.append_assoc, run_append]
  have hstep : ((s.run pre).step .advance).point = .dropped := by rw [removeMesh_advance hpoint]
  exact (dropped_run hstep post).1

/-- The only drop of a run is settled if the one it comes to is. -/
theorem dropsSettled_of_settled {more : List (GossipLabel isPoint)} (hpoint : (s.run labels).point = .removeMesh)
    (hsettled : (s.run labels).Settled) : s.DropsSettled (labels ++ .advance :: more) := by
  intro pre hpre hdrop
  have hwhole : labels ++ [GossipLabel.advance] <+: labels ++ GossipLabel.advance :: more := ⟨more, by simp⟩
  rcases lt_trichotomy pre.length labels.length with hlt | heq | hgt
  · have hshort : pre ++ [GossipLabel.advance] <+: labels :=
      List.prefix_of_prefix_length_le hpre ⟨_, rfl⟩ (by rw [List.length_append]; exact hlt)
    have hgone := dropped_of_prefix hdrop hshort
    rw [hpoint] at hgone
    cases hgone
  · have hsame : pre = labels := by
      have hshort : pre <+: labels :=
        List.prefix_of_prefix_length_le ((List.prefix_append _ _).trans hpre) ⟨_, rfl⟩ heq.le
      exact hshort.eq_of_length heq
    rw [hsame]
    exact hsettled
  · have hlong : labels ++ [GossipLabel.advance] <+: pre :=
      List.prefix_of_prefix_length_le hwhole ((List.prefix_append _ _).trans hpre)
        (by rw [List.length_append]; exact hgt)
    have hgone := dropped_of_prefix hpoint hlong
    rw [hdrop] at hgone
    cases hgone

/-- An attempt that is joining with the current epoch at the drop can install after it. -/
theorem settled_of_staleFree (hstamped : (s.run labels).Stamped) (hpoint : (s.run labels).point = .removeMesh)
    (h : ∀ more, s.StaleFree (labels ++ GossipLabel.advance :: more)) : (s.run labels).Settled := by
  intro t ht hjoining hcurrent
  obtain ⟨id, hid⟩ := List.mem_iff_getElem?.mp ht
  have hroom : t.roomId = s.reconciler.roomId := by rw [(hstamped.attempts hid).1, roomId_run]
  have hinvalidates : (s.run labels).invalidates .advance = true := by simp only [invalidates, hpoint]
  have hinstalled : (s.run (labels ++ [GossipLabel.advance, .settle id true])).gossip.meshes.get? s.reconciler.roomId =
      some ⟨t.roomId, id⟩ := by
    have hrun : s.run (labels ++ [GossipLabel.advance, .settle id true]) =
        ((s.run labels).step .advance).step (.settle id true) := run_append s labels _
    rw [hrun, removeMesh_advance hpoint]
    simp [step, settle, hid, hjoining, GossipState.installMeshIfCurrent, GossipState.removeMesh, hcurrent, ← hroom]
  have hlate := h [.settle id true] labels .advance [.settle id true] (List.prefix_refl _) hinvalidates _ hinstalled
  have hbound := (List.getElem?_eq_some_iff.mp hid).1
  exact Nat.not_lt.mpr hlate hbound

/-- As long as the epoch of the room does not come round: in a run in which no attempt that is still joining has the
current epoch when the reconciler is dropped, no attempt installs its mesh after a revocation, a self-removal or the
drop that it was started before. When the reconciler is about to be dropped, this is so however the run goes on if and
only if no attempt that is still joining has the current epoch. -/
theorem stale_join_kept_out (roomId : RoomId) (selfDevice : EndpointId isPoint) (labels : List (GossipLabel isPoint))
    (hfew : (start roomId selfDevice).begun labels < 2 ^ 64) :
    ((start roomId selfDevice).DropsSettled labels → (start roomId selfDevice).StaleFree labels) ∧
    (((start roomId selfDevice).run labels).point = .removeMesh →
      ((∀ more, (start roomId selfDevice).StaleFree (labels ++ .advance :: more)) ↔
        ((start roomId selfDevice).run labels).Settled)) := by
  have hstart : (start roomId selfDevice).epoch = 0 := rfl
  have hstamped := Stamped.start roomId selfDevice
  refine ⟨staleFree_of_dropsSettled hstamped (by omega), fun hpoint => ?_⟩
  constructor
  · exact settled_of_staleFree (hstamped.run labels (by omega)) hpoint
  · intro hsettled more
    refine staleFree_of_dropsSettled hstamped ?_ (dropsSettled_of_settled hpoint hsettled)
    -- The reconciler is gone after its drop, so the epoch is not begun again.
    have hgone : (((start roomId selfDevice).run labels).step .advance).point = .dropped := by
      rw [removeMesh_advance hpoint]
    have hbegins : ((start roomId selfDevice).run labels).begins .advance = false := by simp only [begins, hpoint]
    rw [begun_append, begun, hbegins, if_neg Bool.false_ne_true, (dropped_run hgone more).2]
    omega

end GossipSession

namespace Toy

/-- The room of members 1 and 2, both Active. -/
def seated : MembershipSnapshot :=
  ⟨room, some (identity 1), [1, 2].foldl (fun members k => members.insert (identity k) (activeMember k)) .empty,
    [1, 2].foldl (fun devices k => devices.insert (device k) (identity k)) .empty⟩

/-- A reconcile of the node of member 1, with the fail-closed subjects given. -/
def looks (failClosed : List IdentityKey) : GossipLabel fun _ => true :=
  .reconcile seated (AdmissionView.fromSnapshot seated failClosed).decide

def subscriber : GossipSession fun _ => true := .start room (somePoint 1)

/-- The node starts a join attempt. -/
def subscribes : List (GossipLabel fun _ => true) := [looks [], .advance, .advance, .advance, .advance]

/-- Member 2 is fail-closed while the node joins; the attempt comes to its install step after that, and then the
reconciler is dropped. -/
def revokedMidJoin : List (GossipLabel fun _ => true) :=
  subscribes ++ [looks [identity 2], .advance, .settle 0 true, .drop]

end Toy

namespace GossipSession

theorem stale_join_kept_out_revoked : Toy.subscriber.begun Toy.revokedMidJoin < 2 ^ 64 ∧
    (Toy.subscriber.run Toy.revokedMidJoin).attempts.length = 1 ∧
    (Toy.subscriber.run Toy.revokedMidJoin).gossip.hasMesh Toy.room = false ∧
    ∀ more, Toy.subscriber.StaleFree (Toy.revokedMidJoin ++ .advance :: more) := by
  have hfew : Toy.subscriber.begun Toy.revokedMidJoin < 2 ^ 64 := by decide
  have hsettled : ∀ t ∈ (Toy.subscriber.run Toy.revokedMidJoin).attempts, t.phase ≠ .joining := by decide
  obtain ⟨hone, hmesh⟩ : (Toy.subscriber.run Toy.revokedMidJoin).attempts.length = 1 ∧
      (Toy.subscriber.run Toy.revokedMidJoin).gossip.hasMesh Toy.room = false := by decide +kernel
  refine ⟨hfew, hone, hmesh, ?_⟩
  exact ((stale_join_kept_out Toy.room (Toy.somePoint 1) Toy.revokedMidJoin hfew).2 (by decide)).mpr
    fun t ht hjoining => absurd hjoining (hsettled t ht)

end GossipSession

namespace Toy

/-- The reconciler is dropped while its first attempt joins. -/
def droppedMidJoin : List (GossipLabel fun _ => true) := subscribes ++ [.drop, .advance, .settle 0 true]

end Toy

namespace GossipSession

/-- The attempt was aborted by the drop, and yet its mesh is installed after it. -/
theorem stale_join_installs_after_drop : Toy.subscriber.begun Toy.droppedMidJoin < 2 ^ 64 ∧
    (Toy.subscriber.run Toy.droppedMidJoin).point = .dropped ∧
    (Toy.subscriber.run Toy.droppedMidJoin).gossip.hasMesh Toy.room = true ∧
    ¬ Toy.subscriber.StaleFree Toy.droppedMidJoin := by
  obtain ⟨hfew, hpoint, hmesh⟩ : Toy.subscriber.begun Toy.droppedMidJoin < 2 ^ 64 ∧
      (Toy.subscriber.run Toy.droppedMidJoin).point = .dropped ∧
      (Toy.subscriber.run Toy.droppedMidJoin).gossip.hasMesh Toy.room = true := by decide +kernel
  refine ⟨hfew, hpoint, hmesh, fun h => ?_⟩
  have hstarted : (Toy.subscriber.run (Toy.subscribes ++ [.drop])).attempts.length = 1 := by decide
  have hlate := h (Toy.subscribes ++ [.drop]) .advance [.settle 0 true] ⟨[], rfl⟩ (by decide) ⟨Toy.room, 0⟩
    (by decide +kernel)
  rw [hstarted] at hlate
  cases hlate

end GossipSession

end IrohRooms
