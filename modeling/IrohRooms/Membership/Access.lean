import IrohRooms.Membership.Model

/-!
# Access decisions

The pure predicates of the blob and pipe planes. They gate access, not log validity, so they read the current
snapshot and never an ancestor view.
-/

namespace IrohRooms

/-- Why an access request was denied. -/
inductive DenyReason
  | unknownDevice | notActive | notAllowed | ownerInactive | expired | unshared
  deriving DecidableEq, Repr

inductive BlobDecision
  | serve
  | reject (reason : DenyReason)
  deriving DecidableEq, Repr

inductive PipeDecision
  | accept
  | reject (reason : DenyReason)
  deriving DecidableEq, Repr

/-- The blob-serve rule: the connecting identity and the sharer are both Active. -/
def blobServeAllowed (snapshot : MembershipSnapshot) (connecting : DeviceKey) (blobHash : HashRef)
    (fileShares : HashRef → Option IdentityKey) : BlobDecision :=
  match snapshot.identityOfDevice connecting with
  | none => .reject .unknownDevice
  | some identity =>
    if !snapshot.isActive identity then .reject .notActive
    else match fileShares blobHash with
      | some sharer => if snapshot.isActive sharer then .serve else .reject .unshared
      | none => .reject .unshared

/-- The signed expiry lies before the supplied clock. -/
def pipeExpired (pipe : PipeOpened) (nowMs : Option Nat) : Bool :=
  match pipe.expiresAt, nowMs with
  | some expiry, some now => decide (now > expiry)
  | _, _ => false

/-- The pipe-connect rule: an Active identity in `allowed_members`, an Active owner, not expired. -/
def pipeConnectAllowed (snapshot : MembershipSnapshot) (connecting : DeviceKey) (pipe : PipeOpened)
    (nowMs : Option Nat) : PipeDecision :=
  match snapshot.identityOfDevice connecting with
  | none => .reject .unknownDevice
  | some identity =>
    if !snapshot.isActive identity then .reject .notActive
    else if !pipe.allowedMembers.contains identity then .reject .notAllowed
    else if !snapshot.isActive pipe.ownerId then .reject .ownerInactive
    else if pipeExpired pipe nowMs then .reject .expired
    else .accept

theorem pipeConnectAllowed_accept (snapshot : MembershipSnapshot) (d : DeviceKey) (pipe : PipeOpened) (now : Nat) :
    pipeConnectAllowed snapshot d pipe (some now) = .accept ↔
      (∃ i, snapshot.identityOfDevice d = some i ∧ snapshot.isActive i = true ∧ i ∈ pipe.allowedMembers) ∧
        snapshot.isActive pipe.ownerId = true ∧ ∀ expiry, pipe.expiresAt = some expiry → now ≤ expiry := by
  have hexpired : pipeExpired pipe (some now) = false ↔ ∀ expiry, pipe.expiresAt = some expiry → now ≤ expiry := by
    unfold pipeExpired
    cases pipe.expiresAt with
    | none => simp
    | some expiry => simp
  rw [← hexpired]
  unfold pipeConnectAllowed
  cases hid : snapshot.identityOfDevice d with
  | none => simp
  | some i =>
    by_cases hactive : snapshot.isActive i
    · by_cases hallowed : i ∈ pipe.allowedMembers
      · by_cases howner : snapshot.isActive pipe.ownerId
        · simp [hactive, hallowed, howner]
        · simp [hactive, hallowed, howner]
      · simp [hactive, hallowed]
    · simp [hactive]

theorem blobServeAllowed_serve {snapshot : MembershipSnapshot} {d : DeviceKey} {h : HashRef}
    {fileShares : HashRef → Option IdentityKey} :
    blobServeAllowed snapshot d h fileShares = .serve ↔
      (∃ i, snapshot.identityOfDevice d = some i ∧ snapshot.isActive i = true) ∧
        ∃ sharer, fileShares h = some sharer ∧ snapshot.isActive sharer = true := by
  unfold blobServeAllowed
  cases hid : snapshot.identityOfDevice d with
  | none => simp
  | some i =>
    by_cases hactive : snapshot.isActive i
    · cases hshare : fileShares h with
      | none => simp [hactive]
      | some sharer => simp [hactive]
    · simp [hactive]

end IrohRooms
