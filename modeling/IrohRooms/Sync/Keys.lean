import IrohRooms.Lib.OrdMap
import IrohRooms.Event.Encrypted

/-!
# Epoch keys

The `epoch → room_key` store with its conflict rule, and the adoption of key distributions. A second key for an
epoch poisons it; a poisoned epoch holds no key until `resolve` picks the candidate with the lowest event id.
-/

namespace IrohRooms

/-- A held key with the event that offered it, or a conflict. -/
inductive EpochKeyState
  | key (roomKey : RoomKey) (eventId : EventId)
  | poisoned
  deriving DecidableEq

/-- A distribution event of a poisoned epoch, with its key if this device could unwrap it. -/
structure ConflictCandidate where
  eventId : EventId
  key : Option RoomKey
  deriving DecidableEq

structure EpochKeyStore where
  epochs : OrdMap Nat EpochKeyState
  candidates : OrdMap Nat (List ConflictCandidate)

namespace EpochKeyStore

def empty : EpochKeyStore := ⟨.empty, .empty⟩

variable (ks : EpochKeyStore)

/-- The held key with its source; `none` when absent or poisoned. -/
def getWithSource (epoch : Nat) : Option (RoomKey × EventId) :=
  match ks.epochs.get? epoch with
  | some (.key k source) => some (k, source)
  | _ => none

def get (epoch : Nat) : Option RoomKey := (ks.getWithSource epoch).map Prod.fst

def isPoisoned (epoch : Nat) : Bool := ks.epochs.get? epoch == some .poisoned

def setState (epoch : Nat) (state : EpochKeyState) : EpochKeyStore :=
  { ks with epochs := ks.epochs.insert epoch state }

def pushCandidate (epoch : Nat) (c : ConflictCandidate) : EpochKeyStore :=
  { ks with candidates := ks.candidates.insert epoch ((ks.candidates.get? epoch).getD [] ++ [c]) }

/-- Offer a key; the flag says whether it was taken. A conflicting offer poisons the epoch. -/
def insert (epoch : Nat) (key : RoomKey) (eventId : EventId) : EpochKeyStore × Bool :=
  match ks.epochs.get? epoch with
  | none => (ks.setState epoch (.key key eventId), true)
  | some (.key held heldId) =>
    if held = key then (ks.setState epoch (.key held (min heldId eventId)), true)
    else ((ks.setState epoch .poisoned).pushCandidate epoch ⟨heldId, some held⟩, false)
  | some .poisoned => (ks, false)

def addConflictCandidate (epoch : Nat) (c : ConflictCandidate) : EpochKeyStore :=
  if ks.isPoisoned epoch then ks.pushCandidate epoch c else ks

def poison (epoch : Nat) : EpochKeyStore := ks.setState epoch .poisoned

/-- The unwrapped candidate with the lowest event id, the first listed among equals. -/
def winner (list : List ConflictCandidate) : Option (EventId × RoomKey) :=
  (list.filterMap fun c => c.key.map fun k => (c.eventId, k)).foldl (fun best c =>
    match best with
    | some b => if c.1 < b.1 then some c else some b
    | none => some c) none

/-- Resolve a poisoned epoch in favour of the winner; the candidates are consumed either way. -/
def resolve (epoch : Nat) : EpochKeyStore :=
  if ks.isPoisoned epoch then
    match ks.candidates.get? epoch with
    | none => ks
    | some list =>
      let drained := { ks with candidates := ks.candidates.erase epoch }
      match winner list with
      | some w => drained.setState epoch (.key w.2 w.1)
      | none => drained
  else ks

theorem get_eq_none_of_isPoisoned {ks : EpochKeyStore} {epoch : Nat} (h : ks.isPoisoned epoch = true) :
    ks.get epoch = none := by
  have hstate : ks.epochs.get? epoch = some .poisoned := by simpa [isPoisoned] using h
  rw [get, getWithSource, hstate]
  rfl

end EpochKeyStore

/-- Everything key adoption reads and writes. -/
structure KeyRing where
  roomKeys : EpochKeyStore
  epochCommitments : OrdMap Nat (EventId × BitVec 256)
  highestEpochSeen : Nat

namespace KeyRing

def new : KeyRing := ⟨.empty, .empty, 0⟩

/-- Note the commitment of a distribution. A second, different one poisons the epoch, and the flag says so. -/
def trackCommitment (ring : KeyRing) (eventId : EventId) (d : MemberKeyDistribution) : KeyRing × Bool :=
  match ring.epochCommitments.get? d.newEpoch with
  | none =>
    ({ ring with epochCommitments := ring.epochCommitments.insert d.newEpoch (eventId, d.keyCommitment) }, false)
  | some (firstEventId, firstCommitment) =>
    if firstCommitment = d.keyCommitment then (ring, false)
    else
      let candidate := match ring.roomKeys.getWithSource d.newEpoch with
        | some (held, source) => ⟨source, some held⟩
        | none => ⟨firstEventId, none⟩
      ({ ring with roomKeys := (ring.roomKeys.poison d.newEpoch).addConflictCandidate d.newEpoch candidate }, true)

/-- The local device's key of a distribution, if it is targeted, unwraps and matches the commitment. -/
def unwrapLocal (env : Env) (sealing : Sealing) (room : RoomId) (seed : Option SigningKey)
    (d : MemberKeyDistribution) : Option RoomKey :=
  seed.bind fun seed => (d.wrappedKeys.find? fun e => e.1 == env.deviceKey seed).bind fun entry =>
    (sealing.unwrapRoomKey entry.2 seed room d.newEpoch).filter fun key =>
      sealing.roomKeyCommitment key room d.newEpoch == d.keyCommitment

/-- Adopt a distribution; one for an epoch below the highest seen is a replay unless `allowBackward`. -/
def adoptKeyDistribution (env : Env) (sealing : Sealing) (room : RoomId) (seed : Option SigningKey) (ring : KeyRing)
    (eventId : EventId) (d : MemberKeyDistribution) (allowBackward : Bool) : KeyRing :=
  if !allowBackward && decide (d.newEpoch < ring.highestEpochSeen) then ring
  else
    let raised := { ring with highestEpochSeen := max ring.highestEpochSeen d.newEpoch }
    let tracked := raised.trackCommitment eventId d
    match unwrapLocal env sealing room seed d with
    | none => tracked.1
    | some key =>
      let keys := tracked.1.roomKeys
      let offered := if tracked.2 then (keys, false) else keys.insert d.newEpoch key eventId
      if offered.2 then { tracked.1 with roomKeys := offered.1 }
      else { tracked.1 with
        roomKeys := (offered.1.addConflictCandidate d.newEpoch ⟨eventId, some key⟩).resolve d.newEpoch }

/-- The distribution an event carries: its own, or a removal's rotation. -/
def distributionOf : Content → Option MemberKeyDistribution
  | .memberKeyDistribution d => some d
  | .memberRemoved c => c.rotation
  | _ => none

def adoptKeyFromEvent (env : Env) (sealing : Sealing) (room : RoomId) (seed : Option SigningKey) (ring : KeyRing)
    (eventId : EventId) (content : Content) : KeyRing :=
  match distributionOf content with
  | some d => ring.adoptKeyDistribution env sealing room seed eventId d false
  | none => ring

end KeyRing

end IrohRooms
