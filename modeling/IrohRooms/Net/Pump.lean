import IrohRooms.Net.Links

/-!
# The pump

One task drives the engine: it takes a frame off the inbound queue, asks the admission gate again, looks up the
provisional mark of the sender, lets the engine handle the message and routes each answer. The connection tasks work on
the link tables between any two of these steps, so the mark the pump reads may not be the one the gate's answer was
about. `World.step` is one atomic step of either side; a label carries what comes from outside it: the gate's answers,
what the engine sends, whether a push succeeds. A label that does not fit the state changes nothing.
-/

namespace IrohRooms

section Pump

/-- A decoded frame and the device it came from; `viaGossip` marks one of the gossip mesh. -/
structure Inbound where
  peer : PeerId
  msg : RoomMessage
  viaGossip : Bool

/-- Where the pump is in its loop. -/
inductive Phase
  | idle
  /-- a frame has passed the gate -/
  | checked (f : Inbound)
  /-- the frame goes to the engine; the flag is the mark that was read -/
  | serving (f : Inbound) (provisional : Bool)
  /-- outputs still to route, the peers sealed by a removal, and a provisional sender to look at afterwards -/
  | routing (outs : List Outgoing) (shut : OrdSet PeerId) (sender : Option PeerId)

structure World (env : Env) (sealing : Sealing) (room : RoomId) (isPoint : DeviceKey → Bool) where
  links : Links isPoint
  inbound : List Inbound
  engine : SyncEngine env sealing room
  deferred : OrdSet PeerId
  bootstrapProof : Option (RoomId × ShortId × ShortId)
  phase : Phase

inductive Label (isPoint : DeviceKey → Bool)
  | arrive (f : Inbound)
  | recheck (i : Nat) (answer selfAnswer : AdmissionDecision)
  | lookup (outs : List Outgoing)
  | handle (outs : List Outgoing)
  | route (gossip placed : Bool) (nonce : ShortId)
  | finish (outs : List Outgoing)
  | connected (device : EndpointId isPoint) (outs : List Outgoing)
  | disconnected (device : EndpointId isPoint) (wasConnected : Bool)
  | tick (outs : List Outgoing)
  | publish (f : Frame) (outs : List Outgoing)
  | register (device : EndpointId isPoint) (overdue : Bool) (answer : AdmissionDecision) (allowProvisional : Bool)
  | activate (device : EndpointId isPoint) (generation : Nat) (answer : AdmissionDecision) (allowProvisional : Bool)
  | teardown (device : EndpointId isPoint) (generation : Nat)
  | invalidate (device : EndpointId isPoint)
  | unregister (device : EndpointId isPoint)
  | reap (device : EndpointId isPoint) (nonce : ShortId)
  /-- an on-demand link replays a pull that waited for it -/
  | replay (peer : PeerId) (msg : RoomMessage) (placed : Bool)
  | drain (device : EndpointId isPoint) (i : Nat)

/-- What a provisional peer may send past the gate. -/
def provisionalAllows (msg : MessageBody) (capabilityProven : Bool) : Bool :=
  match msg with
  | .wantMembership _ => capabilityProven
  | .events _ | .adminTip _ | .heads _ | .notFound _ => true
  | _ => false

/-- The removal of the addressee in a pushed batch: its index and its id. -/
def terminalRemoval (snapshot : MembershipSnapshot) (o : Outgoing) : Option (Nat × EventId) :=
  if !o.fanout then none
  else match o.msg.body with
    | .events frames =>
      (snapshot.identityOfDevice o.peer).bind fun removed =>
        frames.zipIdx.findSome? fun p =>
          match p.1.event.content with
          | .memberRemoved r => if r.memberId = removed then some (p.2, p.1.eventId) else none
          | _ => none
    | _ => none

variable {env : Env} {sealing : Sealing} {room : RoomId} {isPoint : DeviceKey → Bool}

namespace World

def start (engine : SyncEngine env sealing room) (proof : Option (RoomId × ShortId × ShortId)) :
    World env sealing room isPoint := ⟨.empty, [], engine, .empty, proof, .idle⟩

variable (w : World env sealing room isPoint)

def isProvisional (peer : PeerId) : Bool := (EndpointId.fromBytes isPoint peer).any w.links.isProvisional

def isCapabilityProven (peer : PeerId) : Bool := (EndpointId.fromBytes isPoint peer).any w.links.isCapabilityProven

/-- Take a frame for the receipt its device owes; says whether it was. -/
def takeReceipt (device : EndpointId isPoint) (f : Inbound) : Links isPoint × Bool :=
  match f.msg.body with
  | .eventsConfirmed ids nonce =>
    if f.msg.roomId = room then w.links.confirmTerminalEvents device f.msg.roomId ids nonce else (w.links, false)
  | _ => (w.links, false)

/-- Dequeue a frame. An owed receipt is consumed; anything else needs the gate's consent, and one of the mesh the
gate's consent to this node too. -/
def recheck (i : Nat) (answer selfAnswer : AdmissionDecision) : World env sealing room isPoint :=
  match w.phase, w.inbound[i]? with
  | .idle, some f =>
    let rest := { w with inbound := w.inbound.eraseIdx i }
    match EndpointId.fromBytes isPoint f.peer with
    | none => rest
    | some device =>
      let taken := w.takeReceipt device f
      if taken.2 then { rest with links := taken.1 }
      else if answer.isReject || (f.viaGossip && selfAnswer.isReject) then rest
      else { rest with phase := .checked f }
  | _, _ => w

/-- Run the handshake that waited for this peer, if it did. -/
def runDeferred (peer : PeerId) (outs : List Outgoing) : World env sealing room isPoint :=
  if peer ∈ w.deferred then
    { w with
      deferred := OrdMap.erase w.deferred peer
      engine := w.engine.onConnect peer
      phase := .routing outs .empty none }
  else { w with phase := .idle }

/-- A capability proof of a provisional peer never reaches the engine. -/
def proveCapability (f : Inbound) (inviteId secret : ShortId) (outs : List Outgoing) :
    World env sealing room isPoint :=
  if f.msg.roomId = room ∧ w.engine.capabilityProofMatches inviteId secret = true then
    match EndpointId.fromBytes isPoint f.peer with
    | some device => runDeferred { w with links := w.links.markCapabilityProven device } f.peer outs
    | none => { w with phase := .idle }
  else { w with phase := .idle }

/-- Read the marks of the sender and decide whether its frame is served. -/
def lookup (outs : List Outgoing) : World env sealing room isPoint :=
  match w.phase with
  | .checked f =>
    if w.isProvisional f.peer then
      match f.msg.body with
      | .proveCapability inviteId secret => w.proveCapability f inviteId secret outs
      | body =>
        if provisionalAllows body (w.isCapabilityProven f.peer) then { w with phase := .serving f true }
        else { w with phase := .idle }
    else { w with phase := .serving f false }
  | _ => w

def handle (outs : List Outgoing) : World env sealing room isPoint :=
  match w.phase with
  | .serving f provisional =>
    { w with
      engine := w.engine.onMessage f.msg.roomId f.msg.body.toSync
      phase := .routing outs .empty (if provisional then some f.peer else none) }
  | _ => w

/-- Route the next output; a removal of its addressee goes as a terminal envelope and seals the peer. -/
def routeNext (gossip placed : Bool) (nonce : ShortId) : World env sealing room isPoint :=
  match w.phase with
  | .routing (o :: outs) shut sender =>
    if o.peer ∈ shut then { w with phase := .routing outs shut sender }
    else match terminalRemoval w.engine.snapshot o, o.msg.body with
      | some (index, id), .events frames =>
        { w with
          links := w.links.routeTerminalRemoval o.peer o.msg.roomId (frames.take (index + 1)) id nonce placed
          phase := .routing outs (shut.add o.peer) sender }
      | _, _ =>
        { w with
          links := w.links.route o gossip placed
          phase := .routing outs shut sender }
  | _ => w

/-- The device is that of an Active member. -/
def isMember (peer : PeerId) : Bool :=
  (w.engine.snapshot.identityOfDevice peer).any w.engine.snapshot.isActive

/-- After the last output: a provisional sender that has become a member loses its mark. -/
def finish (outs : List Outgoing) : World env sealing room isPoint :=
  match w.phase with
  | .routing [] _ none => { w with phase := .idle }
  | .routing [] _ (some peer) =>
    match EndpointId.fromBytes isPoint peer with
    | some device =>
      if w.isMember peer then runDeferred { w with links := w.links.clearProvisional device } peer outs
      else { w with phase := .idle }
    | none => { w with phase := .idle }
  | _ => w

def proofMessage (peer : PeerId) : List Outgoing :=
  w.bootstrapProof.elim [] fun p => [⟨peer, ⟨p.1, .proveCapability p.2.1 p.2.2⟩, false⟩]

/-- A link came up: the handshake, put off for a provisional peer that has proven nothing. -/
def connected (device : EndpointId isPoint) (outs : List Outgoing) : World env sealing room isPoint :=
  match w.phase with
  | .idle =>
    if w.links.isProvisional device && !w.links.isCapabilityProven device then
      { w with
        deferred := w.deferred.add device.val
        phase := .routing (w.proofMessage device.val) .empty none }
    else
      { w with
        engine := w.engine.onConnect device.val
        phase := .routing (w.proofMessage device.val ++ outs) .empty none }
  | _ => w

def disconnected (device : EndpointId isPoint) (wasConnected : Bool) : World env sealing room isPoint :=
  match w.phase with
  | .idle =>
    { w with
      deferred := OrdMap.erase w.deferred device.val
      engine := if wasConnected then w.engine.onDisconnect device.val else w.engine }
  | _ => w

def tick (outs : List Outgoing) : World env sealing room isPoint :=
  match w.phase with
  | .idle => { w with engine := w.engine.onTick, phase := .routing outs .empty none }
  | _ => w

def publish (f : Frame) (outs : List Outgoing) : World env sealing room isPoint :=
  match w.phase, w.engine.publish f with
  | .idle, .ok engine => { w with engine := engine, phase := .routing outs .empty none }
  | _, _ => w

/-- One step. -/
def step : Label isPoint → World env sealing room isPoint
  | .arrive f => { w with inbound := w.inbound ++ [f] }
  | .recheck i answer selfAnswer => w.recheck i answer selfAnswer
  | .lookup outs => w.lookup outs
  | .handle outs => w.handle outs
  | .route gossip placed nonce => w.routeNext gossip placed nonce
  | .finish outs => w.finish outs
  | .connected device outs => w.connected device outs
  | .disconnected device wasConnected => w.disconnected device wasConnected
  | .tick outs => w.tick outs
  | .publish f outs => w.publish f outs
  | .register device overdue answer allowProvisional =>
    { w with links := (w.links.registerEstablishedLink device overdue answer allowProvisional).1 }
  | .activate device generation answer allowProvisional =>
    { w with links := (w.links.activateLinkIfCurrent device generation answer allowProvisional).1 }
  | .teardown device generation => { w with links := (w.links.teardownIfCurrent device generation).1 }
  | .invalidate device => { w with links := w.links.invalidateLink device }
  | .unregister device => { w with links := w.links.unregister device }
  | .reap device nonce => { w with links := w.links.removeTerminalConfirmation device nonce }
  | .replay peer msg placed => { w with links := w.links.route ⟨peer, msg, false⟩ false placed }
  | .drain device i => { w with links := w.links.drain device i }

/-- The outputs a label carries are the engine's. -/
def Sends (serving : Serving env room) : Label isPoint → Prop
  | .lookup outs => ∀ f, w.phase = .checked f → f.peer ∈ w.deferred → w.engine.Greets serving f.peer outs
  | .handle outs =>
    ∀ f provisional, w.phase = .serving f provisional → w.engine.Answers serving f.peer f.msg outs
  | .finish outs =>
    ∀ shut peer, w.phase = .routing [] shut (some peer) → peer ∈ w.deferred → w.engine.Greets serving peer outs
  | .connected device outs => w.engine.Greets serving device.val outs
  | .tick outs => ∃ spread round, outs = spread ++ round ∧ (∀ o ∈ spread, w.engine.Spreads o) ∧
      ∀ o ∈ round, w.engine.Advertises o
  | .publish _ outs => ∀ o ∈ outs, w.engine.Spreads o
  | .replay _ msg _ => msg.body.isPull = true
  | _ => True

def run (ls : List (Label isPoint)) : World env sealing room isPoint := ls.foldl step w

end World

/-- Every step of a run, with the state it starts from, has the property. -/
def Along (P : World env sealing room isPoint → Label isPoint → Prop) :
    World env sealing room isPoint → List (Label isPoint) → Prop
  | _, [] => True
  | w, l :: ls => P w l ∧ Along P (w.step l) ls

end Pump

end IrohRooms
