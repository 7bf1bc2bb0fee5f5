import IrohRooms.Membership.Access
import IrohRooms.Sync.Engine

/-!
# The live pipe plane

The owner's registry of open pipes and the connect gate. The gate reads three things of the engine over a channel
that may lose a reply, and denies when it does. What governs a pipe is the engine's choice over every sender's
announcements, not the registered one: `evaluate_governed_iff` says when that makes no difference, and
`pipeIsClosed_authority_iff` does the same for closes.
-/

namespace IrohRooms

inductive IpAddr
  | v4 (bits : BitVec 32)
  | v6 (bits : BitVec 128)
  deriving DecidableEq, Repr

def IpAddr.isLoopback : IpAddr → Bool
  | .v4 bits => bits.toNat / 2 ^ 24 == 127
  | .v6 bits => bits == 1

structure SocketAddr where
  ip : IpAddr
  port : UInt16
  deriving DecidableEq, Repr

def isLoopbackTarget (addr : SocketAddr) : Bool := addr.ip.isLoopback

/-- A locally open pipe: its announcement and the real forward target. -/
structure OpenPipe where
  opened : PipeOpened
  target : SocketAddr
  deriving DecidableEq

inductive PipeError
  | nonLoopbackTarget (target : SocketAddr)
  deriving DecidableEq

/-- The owner's table of open pipes. Each is filed under its own id and forwards to a loopback address. -/
structure PipeRegistry where
  pipes : ShortId → Option OpenPipe
  filed : ∀ {id p}, pipes id = some p → p.opened.pipeId = id ∧ isLoopbackTarget p.target = true

namespace PipeRegistry

def new : PipeRegistry := ⟨fun _ => none, fun h => nomatch h⟩

def insert (r : PipeRegistry) (opened : PipeOpened) (target : SocketAddr) : Except PipeError PipeRegistry :=
  if h : isLoopbackTarget target = true then
    .ok ⟨fun id => if id = opened.pipeId then some ⟨opened, target⟩ else r.pipes id, by
      intro id p hp
      split_ifs at hp with hid
      · cases hp
        exact ⟨hid.symm, h⟩
      · exact r.filed hp⟩
  else .error (.nonLoopbackTarget target)

def target (r : PipeRegistry) (pipeId : ShortId) : Option SocketAddr := (r.pipes pipeId).map OpenPipe.target

def remove (r : PipeRegistry) (pipeId : ShortId) : PipeRegistry :=
  ⟨fun id => if id = pipeId then none else r.pipes id, by
    intro id p hp
    split_ifs at hp
    exact r.filed hp⟩

end PipeRegistry

/-! ### The connect gate -/

/-- The audited cause of a refusal. -/
inductive PipeDenyCause
  | unknownDevice | notActive | notAllowed | ownerInactive | expired | closed
  deriving DecidableEq, Repr

/-- A blob-plane reason can not arise here and maps to the closest cause. -/
def PipeDenyCause.ofDenyReason : DenyReason → PipeDenyCause
  | .unknownDevice => unknownDevice
  | .notActive => notActive
  | .notAllowed => notAllowed
  | .ownerInactive => ownerInactive
  | .expired => expired
  | .unshared => closed

inductive PipeGateVerdict
  | accept (target : SocketAddr)
  | reject (cause : PipeDenyCause)
  deriving DecidableEq, Repr

/-- The pump's replies to the three reads, `none` for a reply that is lost. -/
structure PipeQuery where
  snapshotReply : Option MembershipSnapshot
  openedReply : ShortId → Option (Option PipeOpened)
  isClosedReply : ShortId → Option Bool

namespace PipeQuery

def snapshot (q : PipeQuery) : Option MembershipSnapshot := q.snapshotReply

def pipeOpened (q : PipeQuery) (pipeId : ShortId) : Option PipeOpened := (q.openedReply pipeId).join

/-- A lost reply counts as closed. -/
def pipeIsClosed (q : PipeQuery) (pipeId : ShortId) : Bool := (q.isClosedReply pipeId).getD true

end PipeQuery

/-- The composed gate, for a new stream and for each live session on a tick. -/
def evaluate (query : PipeQuery) (registry : PipeRegistry) (device : DeviceKey) (pipeId : ShortId) (nowMs : Nat) :
    PipeGateVerdict :=
  match registry.target pipeId with
  | none => .reject .closed
  | some target =>
    if query.pipeIsClosed pipeId then .reject .closed
    else match query.pipeOpened pipeId with
      | none => .reject .closed
      | some opened =>
        match query.snapshot with
        | none => .reject .closed
        | some snapshot =>
          match pipeConnectAllowed snapshot device opened (some nowMs) with
          | .accept => .accept target
          | .reject reason => .reject (.ofDenyReason reason)

section Governing

variable {env : Env} {sealing : Sealing} {room : RoomId}

/-- The pump's answers in one engine state. -/
def servePipeQuery (e : SyncEngine env sealing room) : PipeQuery :=
  ⟨some e.snapshot, fun pipeId => some (e.pipeOpened pipeId), fun pipeId => some (e.pipeIsClosed pipeId)⟩

theorem evaluate_accept {query : PipeQuery} {registry : PipeRegistry} {d : DeviceKey} {p : ShortId} {now : Nat}
    {target : SocketAddr} : evaluate query registry d p now = .accept target ↔
      registry.target p = some target ∧ query.pipeIsClosed p = false ∧ ∃ opened snapshot,
        query.pipeOpened p = some opened ∧ query.snapshot = some snapshot ∧
          pipeConnectAllowed snapshot d opened (some now) = .accept := by
  unfold evaluate
  cases htarget : registry.target p with
  | none => simp
  | some t =>
    cases hclosed : query.pipeIsClosed p with
    | true => simp
    | false =>
      cases hopened : query.pipeOpened p with
      | none => simp
      | some opened =>
        cases hsnapshot : query.snapshot with
        | none => simp
        | some snapshot =>
          cases hallowed : pipeConnectAllowed snapshot d opened (some now) with
          | accept => simp [hallowed]
          | reject reason => simp [hallowed]

/-- What the gate of an engine accepts: an unclosed pipe whose governing announcement admits the device. -/
theorem evaluate_servePipeQuery {e : SyncEngine env sealing room} {registry : PipeRegistry} {d : DeviceKey}
    {p : ShortId} {now : Nat} {target : SocketAddr} :
    evaluate (servePipeQuery e) registry d p now = .accept target ↔
      registry.target p = some target ∧ e.pipeIsClosed p = false ∧ ∃ opened, e.pipeOpened p = some opened ∧
        pipeConnectAllowed e.snapshot d opened (some now) = .accept := by
  rw [evaluate_accept]
  simp [servePipeQuery, PipeQuery.pipeIsClosed, PipeQuery.pipeOpened, PipeQuery.snapshot]

/-! ### Whose announcement governs -/

variable (sealing) in
/-- The event's body, in the clear or under some key. -/
def Carries (event : SignedEvent) (content : Content) : Prop :=
  event.content = content ∨ ∃ key, openEncryptedContent sealing event key = .ok content

theorem Carries.of_read {keys : EpochKeyStore} {event : SignedEvent} {content : Content}
    (h : readContent sealing keys event = .ok content) : Carries sealing event content := by
  unfold readContent at h
  split at h
  · split_ifs at h
    split at h
    · cases h
    · rename_i key _
      exact Or.inr ⟨key, h⟩
  · exact Or.inl (Except.ok.inj h)

variable (sealing) in
/-- `o` is the one announcement of pipe `p` that `a` authored. -/
structure OwnPipe (s : EventStore env room) (a : IdentityKey) (p : ShortId) (o : PipeOpened) : Prop where
  stored : ∃ row ∈ s.rows.values, row.event.event.senderId = a ∧ Carries sealing row.event.event (.pipeOpened o)
  pipeId : o.pipeId = p
  only : ∀ row ∈ s.rows.values, row.event.event.senderId = a →
    ∀ o', Carries sealing row.event.event (.pipeOpened o') → o'.pipeId = p → o' = o

/-- The announced owner is the author. -/
theorem OwnPipe.owner {s : EventStore env room} {a : IdentityKey} {p : ShortId} {o : PipeOpened}
    (h : OwnPipe sealing s a p o) : o.ownerId = a := by
  obtain ⟨row, -, rfl, hcarries⟩ := h.stored
  have hrules : checkFieldRules (.pipeOpened o) row.event.event.senderId = .ok () := by
    rcases hcarries with hplain | ⟨key, hopens⟩
    · rw [← hplain]
      exact row.event.fieldRules
    · exact (openEncryptedContent_ok hopens).2
  simp only [checkFieldRules] at hrules
  split_ifs at hrules with hne
  exact not_not.mp hne

/-- `o` is another sender's announcement of `p`, and sorts before every other readable one. -/
structure Preempts (e : SyncEngine env sealing room) (a : IdentityKey) (p : ShortId) (o : PipeOpened) : Prop where
  first : ∃ row, row.event.event.senderId ≠ a ∧ EventStore.Announces sealing e.keyRing.roomKeys e.store p row o ∧
    ∀ row' o', EventStore.Announces sealing e.keyRing.roomKeys e.store p row' o' → row.key ≤ row'.key

/-- The governing announcement is the owner's own, or one that preempts it. -/
theorem pipeOpened_own_or_preempts {e : SyncEngine env sealing room} {a : IdentityKey} {p : ShortId}
    {o o' : PipeOpened} (hown : OwnPipe sealing e.store a p o) (h : e.pipeOpened p = some o') :
    o' = o ∨ Preempts e a p o' := by
  obtain ⟨row, hrow, hfirst⟩ := EventStore.pipeOpened_eq_some.mp h
  by_cases hsender : row.event.event.senderId = a
  · left
    exact hown.only row hrow.1.1 hsender o' (Carries.of_read hrow.1.2) hrow.2
  · right
    exact ⟨row, hsender, hrow, hfirst⟩

theorem Preempts.pipeOpened {e : SyncEngine env sealing room} {a : IdentityKey} {p : ShortId} {o : PipeOpened}
    (h : Preempts e a p o) : e.pipeOpened p = some o := by
  obtain ⟨row, -, hrow, hfirst⟩ := h.first
  exact EventStore.pipeOpened_eq_some.mpr ⟨row, hrow, hfirst⟩

/-- A pipe is governed by its owner's announcement exactly when it is closed anyway, or no announcement that
preempts the owner's admits the device where the owner's does not. -/
theorem evaluate_governed_iff (e : SyncEngine env sealing room) (registry : PipeRegistry) (a : IdentityKey)
    (p : ShortId) (o : PipeOpened) (target : SocketAddr) (d : DeviceKey) (now : Nat)
    (hown : OwnPipe sealing e.store a p o) (hregistered : registry.pipes p = some ⟨o, target⟩) :
    ((∃ t, evaluate (servePipeQuery e) registry d p now = .accept t) →
      (∃ i, e.snapshot.identityOfDevice d = some i ∧ e.snapshot.isActive i = true ∧ i ∈ o.allowedMembers) ∧
        e.snapshot.isActive a = true ∧ ∀ expiry, o.expiresAt = some expiry → now ≤ expiry) ↔
      (e.pipeIsClosed p = true ∨ ∀ o', Preempts e a p o' →
        pipeConnectAllowed e.snapshot d o' (some now) = .accept →
          pipeConnectAllowed e.snapshot d o (some now) = .accept) := by
  have hgranted := pipeConnectAllowed_accept e.snapshot d o now
  rw [hown.owner] at hgranted
  rw [← hgranted]
  have htarget : registry.target p = some target := by rw [PipeRegistry.target, hregistered]; rfl
  simp only [evaluate_servePipeQuery]
  constructor
  · intro h
    by_cases hclosed : e.pipeIsClosed p = true
    · exact Or.inl hclosed
    · right
      intro o' hpre hadmits
      apply h
      exact ⟨target, htarget, by simpa using hclosed, o', hpre.pipeOpened, hadmits⟩
  · intro h ⟨t, _, hopen, o', ho', hadmits⟩
    rcases h with hclosed | hpre
    · rw [hclosed] at hopen
      cases hopen
    · rcases pipeOpened_own_or_preempts hown ho' with rfl | hforeign
      · exact hadmits
      · exact hpre o' hforeign hadmits

end Governing

namespace Toy

/-- Member `k` announces pipe 7 for `allowed`. -/
def announce (k : Nat) (allowed prev : List Nat) : SignedEvent :=
  buildPipeOpened toyEnv (idSeed k) (devSeed k) room 7 (device k) "web" "localhost:3000" "/iroh-rooms/pipe/1"
    (allowed.map identity) none (prev.map Bytes32.ofNat) 106

/-- The pipe that member 2 opens for the admin alone. -/
def ownPipe : PipeOpened :=
  ⟨7, identity 2, device 2, "tcp", "web", "localhost:3000", "/iroh-rooms/pipe/1", [identity 1], none⟩

def loopback : SocketAddr := ⟨.v4 0x7f000001#32, 3000⟩

def registry : PipeRegistry := (PipeRegistry.new.insert ownPipe loopback).toOption.getD .new

/-- Members 2 and 3 join, then 2 announces its pipe. -/
def pipeRoom : List (Nat × SignedEvent) :=
  [(1, genesis), (2, invite 2 2 .member none [1]), (3, join 2 2 .member [2]), (4, invite 3 3 .member none [3]),
    (5, join 3 3 .member [4]), (7, announce 2 [1] [5])]

theorem not_opens (event : SignedEvent) (key : RoomKey) (content : Content) :
    openEncryptedContent sealing event key ≠ .ok content := by
  unfold openEncryptedContent
  split <;> simp [sealing]

/-- Whether a row is member 2's announcement, or no announcement of pipe 7 by member 2. -/
def ownOnly (row : Row toyEnv room) : Bool :=
  match row.event.event.content with
  | .pipeOpened o => row.event.event.senderId != identity 2 || o.pipeId != 7 || o == ownPipe
  | _ => true

theorem ownPipe_of {s : EventStore toyEnv room}
    (hstored : ∃ row ∈ s.rows.values, row.event.event.senderId = identity 2 ∧
      row.event.event.content = .pipeOpened ownPipe)
    (honly : s.rows.values.all ownOnly = true) : OwnPipe sealing s (identity 2) 7 ownPipe := by
  obtain ⟨row, hrow, hsender, hcontent⟩ := hstored
  refine ⟨⟨row, hrow, hsender, Or.inl hcontent⟩, rfl, ?_⟩
  intro row' hrow' hsender' o' hcarries hid
  rcases hcarries with hplain | ⟨key, hopens⟩
  · have hrow'' := List.all_eq_true.mp honly row' hrow'
    simp only [ownOnly, hplain, hsender', hid, bne_self_eq_false, Bool.false_or, beq_iff_eq] at hrow''
    exact hrow''
  · exact absurd hopens (not_opens _ key _)

end Toy

/-- With no other announcement the owner's pipe admits the admin, by its own announcement. -/
theorem evaluate_governed_own : (∃ t, evaluate (servePipeQuery (Toy.run Toy.pipeRoom)) Toy.registry (Toy.device 1) 7 0
      = .accept t) ∧
    (∃ i, (Toy.run Toy.pipeRoom).snapshot.identityOfDevice (Toy.device 1) = some i ∧
      (Toy.run Toy.pipeRoom).snapshot.isActive i = true ∧ i ∈ Toy.ownPipe.allowedMembers) ∧
    (Toy.run Toy.pipeRoom).snapshot.isActive (Toy.identity 2) = true ∧
    ∀ expiry, Toy.ownPipe.expiresAt = some expiry → 0 ≤ expiry := by
  -- the owner's announcement admits the admin, so nothing that preempts it could matter
  obtain ⟨haccept, hadmits, hstored, honly⟩ :
      evaluate (servePipeQuery (Toy.run Toy.pipeRoom)) Toy.registry (Toy.device 1) 7 0 = .accept Toy.loopback ∧
      pipeConnectAllowed (Toy.run Toy.pipeRoom).snapshot (Toy.device 1) Toy.ownPipe (some 0) = .accept ∧
      (∃ row ∈ (Toy.run Toy.pipeRoom).store.rows.values, row.event.event.senderId = Toy.identity 2 ∧
        row.event.event.content = .pipeOpened Toy.ownPipe) ∧
      (Toy.run Toy.pipeRoom).store.rows.values.all Toy.ownOnly = true := by decide +kernel
  have hown : OwnPipe Toy.sealing (Toy.run Toy.pipeRoom).store (Toy.identity 2) 7 Toy.ownPipe :=
    Toy.ownPipe_of hstored honly
  refine ⟨⟨_, haccept⟩, (evaluate_governed_iff _ Toy.registry _ 7 Toy.ownPipe Toy.loopback (Toy.device 1) 0 hown
    (by decide)).mpr ?_ ⟨_, haccept⟩⟩
  right
  intro o' _ _
  exact hadmits

/-- Member 3 announces the same pipe for itself under a lower id, and is let through to the owner's target. -/
theorem evaluate_governed_by_stranger :
    OwnPipe Toy.sealing (Toy.run (Toy.pipeRoom ++ [(6, Toy.announce 3 [3] [5])])).store (Toy.identity 2) 7
      Toy.ownPipe ∧
    Toy.registry.pipes 7 = some ⟨Toy.ownPipe, Toy.loopback⟩ ∧
    evaluate (servePipeQuery (Toy.run (Toy.pipeRoom ++ [(6, Toy.announce 3 [3] [5])]))) Toy.registry (Toy.device 3) 7 0
      = .accept Toy.loopback ∧
    ¬ ∃ i, (Toy.run (Toy.pipeRoom ++ [(6, Toy.announce 3 [3] [5])])).snapshot.identityOfDevice (Toy.device 3)
      = some i ∧ i ∈ Toy.ownPipe.allowedMembers := by
  obtain ⟨haccept, hbound, hstored, honly⟩ :
      evaluate (servePipeQuery (Toy.run (Toy.pipeRoom ++ [(6, Toy.announce 3 [3] [5])]))) Toy.registry (Toy.device 3) 7
        0 = .accept Toy.loopback ∧
      (Toy.run (Toy.pipeRoom ++ [(6, Toy.announce 3 [3] [5])])).snapshot.identityOfDevice (Toy.device 3) =
        some (Toy.identity 3) ∧
      (∃ row ∈ (Toy.run (Toy.pipeRoom ++ [(6, Toy.announce 3 [3] [5])])).store.rows.values,
        row.event.event.senderId = Toy.identity 2 ∧ row.event.event.content = .pipeOpened Toy.ownPipe) ∧
      (Toy.run (Toy.pipeRoom ++ [(6, Toy.announce 3 [3] [5])])).store.rows.values.all Toy.ownOnly = true := by
    decide +kernel
  refine ⟨Toy.ownPipe_of hstored honly, by decide, haccept, ?_⟩
  intro ⟨i, hi, hallowed⟩
  rw [hbound, Option.some.injEq] at hi
  rw [← hi] at hallowed
  exact absurd hallowed (by decide)

/-! ### Who closes a pipe -/

section Closing

variable {env : Env} {sealing : Sealing} {room : RoomId} (e : SyncEngine env sealing room)

/-- A stored readable close of the pipe by one of the given senders. -/
def ClosedBy (p : ShortId) (senders : IdentityKey → Prop) : Prop :=
  ∃ row c, EventStore.Reads sealing e.keyRing.roomKeys e.store row (.pipeClosed c) ∧ c.pipeId = p ∧
    senders row.event.event.senderId

/-- The pipe's owner and the room's admin. -/
def PipeAuthority (owner sender : IdentityKey) : Prop := sender = owner ∨ e.snapshot.admin = some sender

/-- A stored envelope of a close in an epoch whose key is not held. -/
def KeylessClose : Prop :=
  ∃ row ∈ e.store.rows.values, ∃ c, row.event.event.content = .encrypted c ∧ c.innerType = .pipeClosed ∧
    e.keyRing.roomKeys.get c.keyEpoch = none

/-- A stored envelope of a close in an epoch whose key is held, which does not open with it. -/
def BrokenClose : Prop :=
  ∃ row ∈ e.store.rows.values, ∃ c key reason, row.event.event.content = .encrypted c ∧
    c.innerType = .pipeClosed ∧ e.keyRing.roomKeys.get c.keyEpoch = some key ∧
    openEncryptedContent sealing row.event.event key = .error reason

variable {e}

theorem readContent_error {keys : EpochKeyStore} {event : SignedEvent} {c : EncryptedContent}
    (hc : event.content = .encrypted c) : (∃ reason, readContent sealing keys event = .error reason) ↔
      keys.get c.keyEpoch = none ∨
        ∃ key reason, keys.get c.keyEpoch = some key ∧ openEncryptedContent sealing event key = .error reason := by
  simp only [readContent, hc]
  by_cases hpoisoned : keys.isPoisoned c.keyEpoch = true
  · simp [hpoisoned, EpochKeyStore.get_eq_none_of_isPoisoned hpoisoned]
  · cases hget : keys.get c.keyEpoch with
    | none => simp [hpoisoned]
    | some key => simp [hpoisoned]

/-- A pipe is closed by anyone's readable close, and by any envelope of a close that is not read. -/
theorem pipeIsClosed_cases (p : ShortId) (senders : IdentityKey → Prop) : e.pipeIsClosed p = true ↔
    (ClosedBy e p senders ∨ KeylessClose e) ∨ ClosedBy e p (fun s => ¬ senders s) ∨ BrokenClose e := by
  rw [SyncEngine.pipeIsClosed, EventStore.pipeIsClosed_iff]
  constructor
  · intro h
    rcases h with ⟨row, c, hreads, hp⟩ | ⟨row, hrow, c, reason, hc, hinner, hread⟩
    · by_cases hsender : senders row.event.event.senderId
      · exact Or.inl (Or.inl ⟨row, c, hreads, hp, hsender⟩)
      · exact Or.inr (Or.inl ⟨row, c, hreads, hp, hsender⟩)
    · rcases (readContent_error hc).mp ⟨reason, hread⟩ with hnone | ⟨key, reason', hkey, hopens⟩
      · exact Or.inl (Or.inr ⟨row, hrow, c, hc, hinner, hnone⟩)
      · exact Or.inr (Or.inr ⟨row, hrow, c, key, reason', hc, hinner, hkey, hopens⟩)
  · intro h
    rcases h with (⟨row, c, hreads, hp, -⟩ | ⟨row, hrow, c, hc, hinner, hnone⟩) |
      ⟨row, c, hreads, hp, -⟩ | ⟨row, hrow, c, key, reason, hc, hinner, hkey, hopens⟩
    · exact Or.inl ⟨row, c, hreads, hp⟩
    · have hunread : ∃ reason, readContent sealing e.keyRing.roomKeys row.event.event = .error reason :=
        (readContent_error hc).mpr (Or.inl hnone)
      obtain ⟨reason, hread⟩ := hunread
      exact Or.inr ⟨row, hrow, c, reason, hc, hinner, hread⟩
    · exact Or.inl ⟨row, c, hreads, hp⟩
    · obtain ⟨reason', hread⟩ := (readContent_error hc).mpr (Or.inr ⟨key, reason, hkey, hopens⟩)
      exact Or.inr ⟨row, hrow, c, reason', hc, hinner, hread⟩

/-- Only the owner, the admin or a keyless close closes a pipe, exactly when nobody else's close is stored and every
close of a held epoch opens, or a close of the first kind is there as well. -/
theorem pipeIsClosed_authority_iff (e : SyncEngine env sealing room) (p : ShortId) (owner : IdentityKey) :
    (e.pipeIsClosed p = true → ClosedBy e p (PipeAuthority e owner) ∨ KeylessClose e) ↔
      (¬ ClosedBy e p (fun s => ¬ PipeAuthority e owner s) ∧ ¬ BrokenClose e) ∨
        ClosedBy e p (PipeAuthority e owner) ∨ KeylessClose e := by
  rw [pipeIsClosed_cases p (PipeAuthority e owner)]
  constructor
  · intro h
    by_cases hother : ClosedBy e p (fun s => ¬ PipeAuthority e owner s) ∨ BrokenClose e
    · exact Or.inr (h (Or.inr hother))
    · exact Or.inl (not_or.mp hother)
  · intro h hclosed
    rcases h with ⟨hstranger, hbroken⟩ | hauthority
    · rcases hclosed with hauthority | hother | hother
      · exact hauthority
      · exact absurd hother hstranger
      · exact absurd hother hbroken
    · exact hauthority

end Closing

namespace Toy

def close (k : Nat) (prev : List Nat) : SignedEvent :=
  buildPipeClosed toyEnv (idSeed k) (devSeed k) room 7 none (prev.map Bytes32.ofNat) 107

/-- Member 2's pipe, closed by member 3. -/
def closedRoom : List (Nat × SignedEvent) := pipeRoom ++ [(8, close 3 [7])]

end Toy

/-- A member that is neither the owner nor the admin closes the pipe. -/
theorem pipeIsClosed_by_stranger :
    (∃ row ∈ (Toy.run Toy.closedRoom).store.rows.values, row.event.event.senderId = Toy.identity 2 ∧
      row.event.event.content = .pipeOpened Toy.ownPipe) ∧
    (Toy.run Toy.closedRoom).pipeIsClosed 7 = true ∧
    ¬ (ClosedBy (Toy.run Toy.closedRoom) 7 (PipeAuthority (Toy.run Toy.closedRoom) (Toy.identity 2)) ∨
      KeylessClose (Toy.run Toy.closedRoom)) := by
  -- the room is evaluated once for all that is read of it
  obtain ⟨hopened, hclosed, hclosers, hplain, hadmin⟩ :
      (∃ row ∈ (Toy.run Toy.closedRoom).store.rows.values, row.event.event.senderId = Toy.identity 2 ∧
        row.event.event.content = .pipeOpened Toy.ownPipe) ∧
      (Toy.run Toy.closedRoom).pipeIsClosed 7 = true ∧
      (∀ row ∈ (Toy.run Toy.closedRoom).store.rows.values,
        row.event.event.content.eventType = .pipeClosed → row.event.event.senderId = Toy.identity 3) ∧
      (∀ row ∈ (Toy.run Toy.closedRoom).store.rows.values, row.event.event.content.eventType ≠ .contentEncrypted) ∧
      (Toy.run Toy.closedRoom).snapshot.admin = some (Toy.identity 1) := by decide +kernel
  refine ⟨hopened, hclosed, fun h => ?_⟩
  rcases h with ⟨row, c, hreads, -, hauthority⟩ | ⟨row, hrow, c, hc, -⟩
  · have hsender := hclosers row hreads.1 (by rw [Toy.readContent_eq_ok hreads.2]; rfl)
    rw [PipeAuthority, hsender, hadmin] at hauthority
    exact absurd hauthority (by decide)
  · exact hplain row hrow (by rw [hc]; rfl)

end IrohRooms
