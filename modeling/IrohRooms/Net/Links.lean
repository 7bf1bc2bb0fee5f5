import IrohRooms.Net.Admission
import IrohRooms.Sync.Serve

/-!
# Link tables

What the connection tasks and the pump share about each device: the generation of its current link, the provisional
and the proven mark, the outbound queue, and the terminal receipt it owes. Each function is one critical section of
the generations lock or one locked access of a table. The answer of the admission gate is an argument, and so is
whether a receipt is overdue. A queue is the list of the messages waiting in it; its byte budget decides only
whether a push succeeds, which is an argument too.
-/

namespace IrohRooms

/-- The receipt a device owes for its terminal batch. -/
structure TerminalConfirmation where
  roomId : RoomId
  ids : OrdSet EventId
  nonce : ShortId
  generation : Nat

def TerminalConfirmation.matches (c : TerminalConfirmation) (roomId : RoomId) (nonce : ShortId)
    (ids : List EventId) : Bool :=
  c.roomId == roomId && c.nonce == nonce && c.ids.toList.length == ids.length &&
    c.ids.toList.all fun expected => ids.contains expected

inductive LinkRegistration
  | admitted (generation : Nat)
  | provisional (generation : Nat)
  | rejected (cause : Option RejectCause)
  deriving DecidableEq, Repr

inductive LinkActivation
  | admitted | provisional | stale
  deriving DecidableEq, Repr

def AdmissionDecision.isReject : AdmissionDecision → Bool
  | .reject _ => true
  | _ => false

/-- The tables, by device. -/
structure Links (isPoint : DeviceKey → Bool) where
  generations : OrdMap (EndpointId isPoint) Nat
  provisional : OrdSet (EndpointId isPoint)
  capabilityProven : OrdSet (EndpointId isPoint)
  outbound : OrdMap (EndpointId isPoint) (List RoomMessage)
  terminalConfirmations : OrdMap (EndpointId isPoint) TerminalConfirmation

variable {isPoint : DeviceKey → Bool}

namespace Links

def empty : Links isPoint := ⟨.empty, .empty, .empty, .empty, .empty⟩

variable (l : Links isPoint) (device : EndpointId isPoint)

def isProvisional : Bool := decide (device ∈ l.provisional)

def isCapabilityProven : Bool := decide (device ∈ l.capabilityProven)

/-- The stamp of the next link; a 64-bit counter. -/
def nextGeneration : Nat := ((l.generations.get? device).getD 0 + 1) % 2 ^ 64

/-- Stamp a new link, set or clear its mark and give it an empty queue. -/
def install (provisional : Bool) : Links isPoint :=
  { l with
    generations := l.generations.insert device (l.nextGeneration device)
    provisional := if provisional then l.provisional.add device else OrdMap.erase l.provisional device
    outbound := l.outbound.insert device [] }

/-- The final check of an established link; a receipt still owed refuses it, an overdue one is dropped. -/
def registerEstablishedLink (overdue : Bool) (decision : AdmissionDecision) (allowProvisional : Bool) :
    Links isPoint × LinkRegistration :=
  if l.terminalConfirmations.contains device && !overdue then (l, .rejected none)
  else
    let cleared := { l with terminalConfirmations := l.terminalConfirmations.erase device }
    match decision with
    | .admitted _ => (cleared.install device false, .admitted (l.nextGeneration device))
    | .admitProvisional =>
      if allowProvisional then (cleared.install device true, .provisional (l.nextGeneration device))
      else (cleared, .rejected none)
    | .reject cause => (cleared, .rejected (some cause))

/-- Publish a registered link, if it is still the current one and still admitted. -/
def activateLinkIfCurrent (generation : Nat) (decision : AdmissionDecision) (allowProvisional : Bool) :
    Links isPoint × LinkActivation :=
  if l.generations.get? device ≠ some generation then (l, .stale)
  else match decision with
    | .admitted _ =>
      ({ l with
        provisional := OrdMap.erase l.provisional device
        capabilityProven := OrdMap.erase l.capabilityProven device }, .admitted)
    | .admitProvisional =>
      if allowProvisional then ({ l with provisional := l.provisional.add device }, .provisional) else (l, .stale)
    | .reject _ => (l, .stale)

/-- Drop the queue. -/
def unregister : Links isPoint := { l with outbound := l.outbound.erase device }

/-- Drop both marks. -/
def clearProvisional : Links isPoint :=
  { l with
    provisional := OrdMap.erase l.provisional device
    capabilityProven := OrdMap.erase l.capabilityProven device }

/-- The teardown of a link, nothing if another one has taken its place; says whether it ran. -/
def teardownIfCurrent (generation : Nat) : Links isPoint × Bool :=
  if l.generations.get? device ≠ some generation then (l, false)
  else ((l.clearProvisional device).unregister device, true)

/-- Outdate the current link without a new one. -/
def invalidateLink : Links isPoint :=
  { l with generations := l.generations.insert device (l.nextGeneration device) }

def markCapabilityProven : Links isPoint := { l with capabilityProven := l.capabilityProven.add device }

def removeTerminalConfirmation (nonce : ShortId) : Links isPoint :=
  if (l.terminalConfirmations.get? device).any fun c => c.nonce == nonce
  then { l with terminalConfirmations := l.terminalConfirmations.erase device } else l

/-- Take the receipt a device owes; says whether it was that one. -/
def confirmTerminalEvents (roomId : RoomId) (ids : List EventId) (nonce : ShortId) : Links isPoint × Bool :=
  if (l.terminalConfirmations.get? device).any fun c => c.matches roomId nonce ids
  then (l.removeTerminalConfirmation device nonce, true) else (l, false)

/-- Push on a device's queue, if it has one and the push succeeds. -/
def push (placed : Bool) (msg : RoomMessage) : Links isPoint :=
  match l.outbound.get? device with
  | some queue => if placed then { l with outbound := l.outbound.insert device (queue ++ [msg]) } else l
  | none => l

/-- The writer takes a message from the queue. -/
def drain (i : Nat) : Links isPoint :=
  match l.outbound.get? device with
  | some queue => { l with outbound := l.outbound.insert device (queue.eraseIdx i) }
  | none => l

/-- Route a message; a pushed event may go over the gossip mesh instead. -/
def route (o : Outgoing) (gossip placed : Bool) : Links isPoint :=
  match EndpointId.fromBytes isPoint o.peer with
  | none => l
  | some device => if o.fanout && o.msg.body.isContent && gossip then l else l.push device placed o.msg

/-- Route a removal to the device it removes, in one envelope that asks for a receipt. -/
def routeTerminalRemoval (peer : PeerId) (roomId : RoomId) (frames : List Frame) (id : EventId) (nonce : ShortId)
    (placed : Bool) : Links isPoint :=
  match EndpointId.fromBytes isPoint peer with
  | none => l
  | some device =>
    match l.generations.get? device, placed with
    | some generation, true =>
      if l.outbound.contains device then
        { l with terminalConfirmations :=
            l.terminalConfirmations.insert device ⟨roomId, .ofList [id], nonce, generation⟩ }.push device placed
          ⟨roomId, .terminalEvents frames [id] nonce⟩
      else l
    | _, _ => l

end Links

end IrohRooms
