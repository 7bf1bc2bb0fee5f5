import IrohRooms.Event.Build
import IrohRooms.Event.Wire
import IrohRooms.Lib.Moments
import IrohRooms.Net.Planes
import IrohRooms.Sync.Serve

/-!
# Forwarded sessions

The owner's side of the pipe plane while it runs. A connection is admitted by the snapshot, each of its streams names a
pipe and is judged by the gate, and an accepted stream is spliced to the pipe's target and entered in the table of
sessions. A watcher judges the sessions of the table again on every tick. Exposing and closing a pipe are calls of the
node.

The gate is four reads, each of the state of its own moment: the registry is shared and the engine answers the other
three over a channel. Everything else of the plane may happen between two of them, so every read, every lock and every
await is a step of its own here (`PipePlane.step`), and the tasks run in any order. `evaluate` is what the gate says
when nothing happens in between.
-/

namespace IrohRooms

open Moments

/-! ### The control bytes of a stream -/

def helloLen : Nat := 1 + 16

def helloVersion : UInt8 := 1

def pipeAccept : UInt8 := 0x01

def pipeReject : UInt8 := 0x00

structure PipeHello where
  pipeId : ShortId
  deriving DecidableEq

namespace PipeHello

def encode (h : PipeHello) : Bytes := helloVersion :: beBytes 16 h.pipeId.toNat

/-- Decode the `helloLen` bytes of a hello. -/
def decode : Bytes → Option PipeHello
  | [] => none
  | version :: id => if version ≠ helloVersion then none else some ⟨BitVec.ofNat 128 (Cbor.fromBeBytes id)⟩

/-- Read a hello off the bytes of a stream, unless they end too early. -/
def readFrom (stream : Bytes) : Option PipeHello :=
  if stream.length < helloLen then none else decode (stream.take helloLen)

end PipeHello

/-! ### The gate, read by read -/

/-- Before which read the gate stands, and what it has read so far. -/
inductive GatePoint
  | atTarget
  | atClosed (target : SocketAddr)
  | atOpened (target : SocketAddr)
  | atSnapshot (target : SocketAddr) (opened : PipeOpened)
  deriving DecidableEq

/-- One read: the gate stands before the next one, or it is through. -/
def GatePoint.read (query : PipeQuery) (registry : PipeRegistry) (device : DeviceKey) (pipeId : ShortId) (nowMs : Nat) :
    GatePoint → GatePoint ⊕ PipeGateVerdict
  | .atTarget =>
    match registry.target pipeId with
    | none => .inr (.reject .closed)
    | some target => .inl (.atClosed target)
  | .atClosed target => if query.pipeIsClosed pipeId then .inr (.reject .closed) else .inl (.atOpened target)
  | .atOpened target =>
    match query.pipeOpened pipeId with
    | none => .inr (.reject .closed)
    | some opened => .inl (.atSnapshot target opened)
  | .atSnapshot target opened =>
    match query.snapshot with
    | none => .inr (.reject .closed)
    | some snapshot =>
      match pipeConnectAllowed snapshot device opened (some nowMs) with
      | .accept => .inr (.accept target)
      | .reject reason => .inr (.reject (.ofDenyReason reason))

/-- The verdict of a gate that makes all its reads of one state. -/
def GatePoint.readAll (query : PipeQuery) (registry : PipeRegistry) (device : DeviceKey) (pipeId : ShortId)
    (nowMs : Nat) : Nat → GatePoint → Option PipeGateVerdict
  | 0, _ => none
  | fuel + 1, point =>
    match point.read query registry device pipeId nowMs with
    | .inl next => next.readAll query registry device pipeId nowMs fuel
    | .inr verdict => some verdict

/-- Reads of one state are the composed gate. -/
theorem GatePoint.readAll_eq_evaluate (query : PipeQuery) (registry : PipeRegistry) (device : DeviceKey)
    (pipeId : ShortId) (nowMs : Nat) :
    GatePoint.atTarget.readAll query registry device pipeId nowMs 4 =
      some (evaluate query registry device pipeId nowMs) := by
  unfold evaluate
  cases htarget : registry.target pipeId with
  | none => simp [readAll, read, htarget]
  | some t =>
    cases hclosed : query.pipeIsClosed pipeId with
    | true => simp [readAll, read, htarget, hclosed]
    | false =>
      cases hopened : query.pipeOpened pipeId with
      | none => simp [readAll, read, htarget, hclosed, hopened]
      | some opened =>
        cases hsnapshot : query.snapshot with
        | none => simp [readAll, read, htarget, hclosed, hopened, hsnapshot]
        | some snapshot =>
          cases hallowed : pipeConnectAllowed snapshot device opened (some nowMs) with
          | accept => simp [readAll, read, htarget, hclosed, hopened, hsnapshot, hallowed]
          | reject reason => simp [readAll, read, htarget, hclosed, hopened, hsnapshot, hallowed]

/-! ### Sessions -/

/-- A live session. Its connection and its splice task, which `teardown` closes and aborts, are given by number. -/
structure SessionEntry where
  device : DeviceKey
  pipeId : ShortId
  sinceMs : Nat
  conn : Nat
  stream : Nat
  deriving DecidableEq

structure LiveSession where
  id : Nat
  device : DeviceKey
  pipeId : ShortId
  deriving DecidableEq

/-- The table of sessions, and the 64-bit number of the next one. -/
structure PipeSessions where
  next : Nat
  sessions : OrdMap Nat SessionEntry

namespace PipeSessions

def new : PipeSessions := ⟨0, .empty⟩

variable (s : PipeSessions)

def register (entry : SessionEntry) : PipeSessions × Nat :=
  (⟨(s.next + 1) % 2 ^ 64, s.sessions.insert s.next entry⟩, s.next)

def deregister (id : Nat) : PipeSessions := { s with sessions := s.sessions.erase id }

def live : List LiveSession := s.sessions.entries.map fun e => ⟨e.1, e.2.device, e.2.pipeId⟩

/-- The numbers of the sessions of a pipe. -/
def idsFor (pipeId : ShortId) : List Nat := (s.sessions.entries.filter fun e => e.2.pipeId == pipeId).map Prod.fst

def countFor (pipeId : ShortId) : Nat := (s.sessions.values.filter fun e => e.pipeId == pipeId).length

end PipeSessions

/-! ### Connections and streams -/

inductive ConnPhase
  | admitting | serving | closed
  deriving DecidableEq

structure PipeConn where
  device : DeviceKey
  phase : ConnPhase
  deriving DecidableEq

/-- How far the handler of a stream has come. A spliced stream has a session once it is registered, and its splice task
runs until it finishes or is aborted. -/
inductive StreamPhase
  | hello
  | gate (pipeId : ShortId) (nowMs : Nat) (point : GatePoint)
  | connect (pipeId : ShortId) (target : SocketAddr)
  | reply (pipeId : ShortId) (target : SocketAddr)
  | spliced (pipeId : ShortId) (target : SocketAddr) (session : Option Nat) (running : Bool)
  | ended
  deriving DecidableEq

structure PipeStream where
  conn : Nat
  device : DeviceKey
  reply : Option UInt8
  phase : StreamPhase
  deriving DecidableEq

namespace PipeStream

variable (st : PipeStream)

/-- A bad or short hello drops the stream without a reply. -/
def readHello (sent : Bytes) (nowMs : Nat) : PipeStream :=
  match st.phase with
  | .hello =>
    match PipeHello.readFrom sent with
    | none => { st with phase := .ended }
    | some hello => { st with phase := .gate hello.pipeId nowMs .atTarget }
  | _ => st

def refuse : PipeStream := { st with reply := some pipeReject, phase := .ended }

def readGate (query : PipeQuery) (registry : PipeRegistry) : PipeStream :=
  match st.phase with
  | .gate pipeId nowMs point =>
    match point.read query registry st.device pipeId nowMs with
    | .inl next => { st with phase := .gate pipeId nowMs next }
    | .inr (.accept target) => { st with phase := .connect pipeId target }
    | .inr (.reject _) => st.refuse
  | _ => st

/-- The end of the TCP connect; a failure is reported to the connector like a denial. -/
def connectTarget (ok : Bool) : PipeStream :=
  match st.phase with
  | .connect pipeId target => if ok then { st with phase := .reply pipeId target } else st.refuse
  | _ => st

def writeAccept (ok : Bool) : PipeStream :=
  match st.phase with
  | .reply pipeId target =>
    if ok then { st with reply := some pipeAccept, phase := .spliced pipeId target none true }
    else { st with phase := .ended }
  | _ => st

/-- The splice task ends, by itself or because it is aborted. -/
def finishSplice : PipeStream :=
  match st.phase with
  | .spliced pipeId target session _ => { st with phase := .spliced pipeId target session false }
  | _ => st

end PipeStream

/-! ### The watcher and the owner's calls -/

/-- The watcher waits for a tick, or is on a pass: it judges a session or is about to sever it, with the rest to
come. -/
inductive Watcher
  | waiting
  | judging (nowMs : Nat) (session : LiveSession) (point : GatePoint) (rest : List LiveSession)
  | severing (nowMs : Nat) (session : LiveSession) (cause : PipeDenyCause) (rest : List LiveSession)
  deriving DecidableEq

def Watcher.turn (nowMs : Nat) : List LiveSession → Watcher
  | [] => .waiting
  | session :: rest => .judging nowMs session .atTarget rest

deriving instance DecidableEq for Frame

/-- A call of `pipe_expose` or `pipe_close`, before its next step. -/
inductive OwnerCall
  | insert (opened : PipeOpened) (target : SocketAddr) (frame : Frame)
  | publishOpened (pipeId : ShortId) (frame : Frame)
  | rollBack (pipeId : ShortId)
  | publishClosed (pipeId : ShortId) (frame : Frame)
  | remove (pipeId : ShortId)
  | collect (pipeId : ShortId)
  | tearDown (pipeId : ShortId) (ids : List Nat)
  | returned (ok : Bool)
  deriving DecidableEq

def pipeAlpn : String := "/iroh-rooms/pipe/1"

/-- The frame a device seals around a built event. -/
def sealFrame (env : Env) (deviceSecret : SigningKey) (event : SignedEvent) : Frame :=
  ⟨eventIdFromBytes env event.toCsb, event,
    (WireEvent.sealSigned env event.toCsb (signCsb env event.toCsb deviceSecret)).toBytes.length⟩

structure ExposeArgs where
  ownerIdentitySecret : SigningKey
  ownerDeviceSecret : SigningKey
  target : SocketAddr
  label : String
  targetHint : String
  allowedMembers : List IdentityKey
  expiresAt : Option Nat
  createdAt : Nat

structure CloseArgs where
  signerIdentitySecret : SigningKey
  signerDeviceSecret : SigningKey
  pipeId : ShortId
  reason : Option String
  createdAt : Nat

/-- What happens next. A lost reply of the pump is an unanswered read; clocks, the bytes of a hello, the ends of TCP
calls, a drawn pipe id and the order in which a table is walked come from outside. -/
inductive PipeLabel
  | pump (input : SyncEngine.Input)
  | connect (device : DeviceKey)
  | admitConn (conn : Nat) (answered : Bool)
  | openStream (conn : Nat)
  | hello (stream : Nat) (sent : Bytes) (nowMs : Nat)
  | gate (stream : Nat) (answered : Bool)
  | dialed (stream : Nat) (ok : Bool)
  | accept (stream : Nat) (ok : Bool)
  | register (stream : Nat) (nowMs : Nat)
  | finish (stream : Nat)
  | reap (stream : Nat)
  | tick (nowMs : Nat) (live : List LiveSession)
  | watch (answered : Bool)
  | expose (args : ExposeArgs) (drawn : ShortId)
  | close (args : CloseArgs)
  | owner (call : Nat) (ids : List Nat)

/-! ### The plane -/

variable {env : Env} {sealing : Sealing} {room : RoomId}

/-- The owner's side of the plane. Connections, streams and calls are numbered from `0` and stay listed. -/
structure PipePlane (env : Env) (sealing : Sealing) (room : RoomId) where
  engine : SyncEngine env sealing room
  registry : PipeRegistry
  sessions : PipeSessions
  conns : List PipeConn
  streams : List PipeStream
  watcher : Watcher
  calls : List OwnerCall

namespace PipePlane

def start (engine : SyncEngine env sealing room) : PipePlane env sealing room :=
  ⟨engine, .new, .new, [], [], .waiting, []⟩

variable (p : PipePlane env sealing room)

/-- The pump's answer to a read, unless it is lost. -/
def query (answered : Bool) : PipeQuery :=
  if answered then servePipeQuery p.engine else ⟨none, fun _ => none, fun _ => none⟩

def onStream (i : Nat) (f : PipeStream → PipeStream) : PipePlane env sealing room :=
  { p with streams := p.streams.modify i f }

def onCall (j : Nat) (call : OwnerCall) : PipePlane env sealing room := { p with calls := p.calls.set j call }

/-- Stage 1 of the accept gate, before any stream of the connection. -/
def admitConn (c : Nat) (answered : Bool) : PipePlane env sealing room :=
  match p.conns[c]? with
  | some ⟨device, .admitting⟩ =>
    match stage1Reject (p.query answered).snapshot device with
    | some _ => { p with conns := p.conns.set c ⟨device, .closed⟩ }
    | none => { p with conns := p.conns.set c ⟨device, .serving⟩ }
  | _ => p

def openStream (c : Nat) : PipePlane env sealing room :=
  match p.conns[c]? with
  | some ⟨device, .serving⟩ => { p with streams := p.streams ++ [⟨c, device, none, .hello⟩] }
  | _ => p

/-- Nothing is written on a closed connection. -/
def isOpen (i : Nat) : Bool :=
  match p.streams[i]? with
  | some st => (p.conns[st.conn]?.map PipeConn.phase) == some .serving
  | none => false

def register (i nowMs : Nat) : PipePlane env sealing room :=
  match p.streams[i]? with
  | some ⟨conn, device, reply, .spliced pipeId target none running⟩ =>
    let (sessions, id) := p.sessions.register ⟨device, pipeId, nowMs, conn, i⟩
    { p with
      sessions := sessions
      streams := p.streams.set i ⟨conn, device, reply, .spliced pipeId target (some id) running⟩ }
  | _ => p

/-- The bookkeeping of a finished splice is dropped. -/
def reap (i : Nat) : PipePlane env sealing room :=
  match p.streams[i]? with
  | some ⟨conn, device, reply, .spliced _ _ (some id) false⟩ =>
    { p with sessions := p.sessions.deregister id, streams := p.streams.set i ⟨conn, device, reply, .ended⟩ }
  | _ => p

/-- Drop a session from the table, abort its splice task and close its connection. -/
def teardown (id : Nat) : PipePlane env sealing room :=
  match p.sessions.sessions.get? id with
  | none => p
  | some entry =>
    { p with
      sessions := p.sessions.deregister id
      conns := p.conns.modify entry.conn fun c => { c with phase := .closed }
      streams := p.streams.modify entry.stream PipeStream.finishSplice }

/-- A tick starts a pass over the table, in the order it is walked in. -/
def tick (nowMs : Nat) (live : List LiveSession) : PipePlane env sealing room :=
  if p.watcher = .waiting ∧ live.isPerm p.sessions.live then { p with watcher := .turn nowMs live } else p

def watch (answered : Bool) : PipePlane env sealing room :=
  match p.watcher with
  | .waiting => p
  | .judging nowMs session point rest =>
    match point.read (p.query answered) p.registry session.device session.pipeId nowMs with
    | .inl next => { p with watcher := .judging nowMs session next rest }
    | .inr (.accept _) => { p with watcher := .turn nowMs rest }
    | .inr (.reject cause) => { p with watcher := .severing nowMs session cause rest }
  | .severing nowMs session _ rest => { p.teardown session.id with watcher := .turn nowMs rest }

/-- Check the arguments, read the heads and build the announcement. -/
def expose (args : ExposeArgs) (drawn : ShortId) : PipePlane env sealing room :=
  if !isLoopbackTarget args.target || args.allowedMembers.isEmpty then
    { p with calls := p.calls ++ [.returned false] }
  else
    let event := buildPipeOpened env args.ownerIdentitySecret args.ownerDeviceSecret room drawn
      (env.deviceKey args.ownerDeviceSecret) args.label args.targetHint pipeAlpn args.allowedMembers args.expiresAt
      p.engine.store.heads args.createdAt
    match (SignedEvent.decode event.toCsb).map SignedEvent.content with
    | .ok (.pipeOpened opened) =>
      { p with calls := p.calls ++ [.insert opened args.target (sealFrame env args.ownerDeviceSecret event)] }
    | _ => { p with calls := p.calls ++ [.returned false] }

/-- Read the heads and build the close. -/
def close (args : CloseArgs) : PipePlane env sealing room :=
  let event := buildPipeClosed env args.signerIdentitySecret args.signerDeviceSecret room args.pipeId args.reason
    p.engine.store.heads args.createdAt
  { p with calls := p.calls ++ [.publishClosed args.pipeId (sealFrame env args.signerDeviceSecret event)] }

/-- The next step of a call; `ids` is the order in which the table is walked. -/
def owner (j : Nat) (ids : List Nat) : PipePlane env sealing room :=
  match p.calls[j]? with
  | some (.insert opened target frame) =>
    match p.registry.insert opened target with
    | .ok registry => { p with registry := registry }.onCall j (.publishOpened opened.pipeId frame)
    | .error _ => p.onCall j (.returned false)
  | some (.publishOpened pipeId frame) =>
    match p.engine.publish frame with
    | .ok engine => { p with engine := engine }.onCall j (.returned true)
    | .error _ => p.onCall j (.rollBack pipeId)
  | some (.rollBack pipeId) => { p with registry := p.registry.remove pipeId }.onCall j (.returned false)
  | some (.publishClosed pipeId frame) =>
    match p.engine.publish frame with
    | .ok engine => { p with engine := engine }.onCall j (.remove pipeId)
    | .error _ => p.onCall j (.returned false)
  | some (.remove pipeId) => { p with registry := p.registry.remove pipeId }.onCall j (.collect pipeId)
  | some (.collect pipeId) => if ids.isPerm (p.sessions.idsFor pipeId) then p.onCall j (.tearDown pipeId ids) else p
  | some (.tearDown _ []) => p.onCall j (.returned true)
  | some (.tearDown pipeId (id :: rest)) => (p.teardown id).onCall j (.tearDown pipeId rest)
  | some (.returned _) | none => p

def step : PipeLabel → PipePlane env sealing room
  | .pump input => { p with engine := p.engine.step input }
  | .connect device => { p with conns := p.conns ++ [⟨device, .admitting⟩] }
  | .admitConn c answered => p.admitConn c answered
  | .openStream c => p.openStream c
  | .hello i sent nowMs => p.onStream i fun st => st.readHello sent nowMs
  | .gate i answered => p.onStream i fun st => st.readGate (p.query answered) p.registry
  | .dialed i ok => p.onStream i fun st => st.connectTarget ok
  | .accept i ok => p.onStream i fun st => st.writeAccept (ok && p.isOpen i)
  | .register i nowMs => p.register i nowMs
  | .finish i => p.onStream i PipeStream.finishSplice
  | .reap i => p.reap i
  | .tick nowMs live => p.tick nowMs live
  | .watch answered => p.watch answered
  | .expose args drawn => p.expose args drawn
  | .close args => p.close args
  | .owner j ids => p.owner j ids

def run (labels : List PipeLabel) : PipePlane env sealing room := labels.foldl step p

end PipePlane

end IrohRooms
