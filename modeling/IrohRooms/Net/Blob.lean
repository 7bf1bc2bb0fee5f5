import IrohRooms.Membership.Access
import IrohRooms.Net.Admission
import IrohRooms.Sync.Engine

/-!
# The blob serve gate

The loop over the provider's messages: a connection is accepted by its device alone, a request by its hashes alone,
both against the view at that moment. The view is replaced as a whole when the engine has moved. A request is not
held against the device that opened its connection, nor a hash against who shared it: `GateRun` is a run in which
that does not show, and on those runs every served request is one the blob-serve rule allows.
-/

namespace IrohRooms

section Loop

variable {isPoint : DeviceKey → Bool}

/-- The gate's view: the devices of the Active members, and the referenced hashes. -/
structure BlobAclView (isPoint : DeviceKey → Bool) where
  activeDevices : OrdSet (EndpointId isPoint)
  referencedHashes : OrdSet HashRef
  deriving DecidableEq

namespace BlobAclView

/-- Denies every device and every hash. -/
def empty : BlobAclView isPoint := ⟨.empty, .empty⟩

def fromSnapshot (snapshot : MembershipSnapshot) (referencedHashes : OrdSet HashRef) : BlobAclView isPoint :=
  ⟨OrdSet.ofList (snapshot.activeMembers.filterMap fun m => m.device.bind (EndpointId.fromBytes isPoint)),
    referencedHashes⟩

def isActive (view : BlobAclView isPoint) (device : EndpointId isPoint) : Bool :=
  decide (device ∈ view.activeDevices)

def isReferenced (view : BlobAclView isPoint) (hash : HashRef) : Bool := decide (hash ∈ view.referencedHashes)

/-- A device is active in a view when some Active member has it. -/
theorem fromSnapshot_isActive (snapshot : MembershipSnapshot) (referenced : OrdSet HashRef)
    (d : EndpointId isPoint) : (fromSnapshot snapshot referenced : BlobAclView isPoint).isActive d = true ↔
      ∃ m ∈ snapshot.activeMembers, m.device = some d.val := by
  rw [isActive, decide_eq_true_iff, fromSnapshot, OrdSet.mem_ofList, List.mem_filterMap]
  simp only [Option.bind_eq_some_iff, EndpointId.fromBytes_eq_some]
  simp

end BlobAclView

/-! ### The loop -/

inductive BlobDenyCause
  | notActive | notReferenced | pushDenied | observeDenied
  deriving DecidableEq, Repr

/-- The provider's messages; connections are numbered by the provider. -/
inductive ProviderMessage (isPoint : DeviceKey → Bool)
  | clientConnected (connectionId : Nat) (endpointId : Option (EndpointId isPoint))
  | connectionClosed (connectionId : Nat)
  | getRequestReceived (connectionId : Nat) (hash : HashRef)
  | getManyRequestReceived (connectionId : Nat) (hashes : List HashRef)
  | pushRequestReceived (connectionId : Nat)
  | observeRequestReceived (connectionId : Nat)
  | throttle

inductive AbortReason
  | permission
  deriving DecidableEq, Repr

/-- A line of the audit log. -/
inductive BlobAudit (isPoint : DeviceKey → Bool)
  | serveAccepted (peer : EndpointId isPoint) (hash : HashRef)
  | serveRejected (peer : EndpointId isPoint) (cause : BlobDenyCause) (hash : Option HashRef)
  deriving DecidableEq

/-- What is sent back, `none` where nothing is asked, and the audit line. -/
structure GateReply (isPoint : DeviceKey → Bool) where
  decision : Option (Except AbortReason Unit)
  audit : Option (BlobAudit isPoint)

/-- The loop's own table of accepted connections. -/
abbrev Peers (isPoint : DeviceKey → Bool) := OrdMap Nat (EndpointId isPoint)

/-- A refusal, audited when the peer is known. -/
def refuse (peer : Option (EndpointId isPoint)) (cause : BlobDenyCause) (hash : Option HashRef) : GateReply isPoint :=
  ⟨some (.error .permission), peer.map fun p => .serveRejected p cause hash⟩

/-- One message of the gate loop. -/
def handleMessage (acl : BlobAclView isPoint) (peers : Peers isPoint) :
    ProviderMessage isPoint → Peers isPoint × GateReply isPoint
  | .clientConnected connectionId endpointId =>
    match endpointId with
    | some id =>
      if acl.isActive id then (peers.insert connectionId id, ⟨some (.ok ()), none⟩)
      else (peers, refuse (some id) .notActive none)
    | none => (peers, refuse none .notActive none)
  | .connectionClosed connectionId => (peers.erase connectionId, ⟨none, none⟩)
  | .getRequestReceived connectionId hash =>
    let peer := peers.get? connectionId
    if acl.isReferenced hash then (peers, ⟨some (.ok ()), peer.map fun p => .serveAccepted p hash⟩)
    else (peers, refuse peer .notReferenced (some hash))
  | .getManyRequestReceived connectionId hashes =>
    if hashes.all acl.isReferenced then (peers, ⟨some (.ok ()), none⟩)
    else (peers, refuse (peers.get? connectionId) .notReferenced none)
  | .pushRequestReceived connectionId => (peers, refuse (peers.get? connectionId) .pushDenied none)
  | .observeRequestReceived connectionId => (peers, refuse (peers.get? connectionId) .observeDenied none)
  | .throttle => (peers, ⟨some (.ok ()), none⟩)

/-! ### The gate beside its engine -/

end Loop

section Gate

variable {isPoint : DeviceKey → Bool} {env : Env} {sealing : Sealing} {room : RoomId}

/-- The gate's state, with the engine state its view was last built from. -/
structure BlobGate (isPoint : DeviceKey → Bool) (env : Env) (sealing : Sealing) (room : RoomId) where
  peers : Peers isPoint
  acl : BlobAclView isPoint
  engine : SyncEngine env sealing room

/-- What happens to the gate: a message of the provider, or a new view because the engine moved. -/
inductive GateInput (isPoint : DeviceKey → Bool) (env : Env) (sealing : Sealing) (room : RoomId)
  | message (msg : ProviderMessage isPoint)
  | replace (engine : SyncEngine env sealing room)

namespace BlobGate

variable (g : BlobGate isPoint env sealing room)

def reply (msg : ProviderMessage isPoint) : GateReply isPoint := (handleMessage g.acl g.peers msg).2

def step : GateInput isPoint env sealing room → BlobGate isPoint env sealing room
  | .message msg => { g with peers := (handleMessage g.acl g.peers msg).1 }
  | .replace engine => ⟨g.peers, .fromSnapshot engine.snapshot engine.fileSharedHashes, engine⟩

end BlobGate

/-- The connection of a request and the hashes it asks for. -/
def requested : ProviderMessage isPoint → Option (Nat × List HashRef)
  | .getRequestReceived c hash => some (c, [hash])
  | .getManyRequestReceived c hashes => some (c, hashes)
  | _ => none

/-- A readable `file.shared` of the hash by the sharer is stored. -/
def SharedBy (e : SyncEngine env sealing room) (hash : HashRef) (sharer : IdentityKey) : Prop :=
  ∃ row f, EventStore.Reads sealing e.keyRing.roomKeys e.store row (.fileShared f) ∧ f.blobHash = hash ∧
    row.event.event.senderId = sharer

/-- The snapshot's index gives the device to an Active identity. -/
def BoundActive (e : SyncEngine env sealing room) (d : DeviceKey) : Prop :=
  ∃ i, e.snapshot.identityOfDevice d = some i ∧ e.snapshot.isActive i = true

/-- Every shared hash has an Active sharer. -/
def SharersActive (e : SyncEngine env sealing room) : Prop :=
  ∀ hash sharer, SharedBy e hash sharer → ∃ active, SharedBy e hash active ∧ e.snapshot.isActive active = true

/-- A step at which nothing the gate leaves out shows: a connecting device of an Active member is indexed to an
Active identity, requests come on open connections, and a new view revokes no open connection and no share. -/
def Undisturbed (g : BlobGate isPoint env sealing room) : GateInput isPoint env sealing room → Prop
  | .message (.clientConnected _ endpointId) => ∀ d, endpointId = some d →
      (∃ m ∈ g.engine.snapshot.activeMembers, m.device = some d.val) → BoundActive g.engine d.val
  | .message msg => ∀ c hashes, requested msg = some (c, hashes) → g.peers.get? c ≠ none
  | .replace engine => (∀ c d, g.peers.get? c = some d → BoundActive engine d.val) ∧ SharersActive engine

/-- The runs of a gate, from its empty view on, whose steps are all undisturbed. -/
inductive GateRun (start : SyncEngine env sealing room) : BlobGate isPoint env sealing room → Prop
  | start : GateRun start ⟨.empty, .empty, start⟩
  | step {g : BlobGate isPoint env sealing room} (h : GateRun start g) (input : GateInput isPoint env sealing room)
    (hstep : Undisturbed g input) : GateRun start (g.step input)

/-! ### What is served -/

/-- Open connections belong to Active devices, and the view only lets through what the engine supports. -/
structure GateInv (g : BlobGate isPoint env sealing room) : Prop where
  connected : ∀ {c d}, g.peers.get? c = some d → BoundActive g.engine d.val
  devices : ∀ {d}, g.acl.isActive d = true → ∃ m ∈ g.engine.snapshot.activeMembers, m.device = some d.val
  hashes : ∀ {hash}, g.acl.isReferenced hash = true →
    ∃ sharer, SharedBy g.engine hash sharer ∧ g.engine.snapshot.isActive sharer = true

/-- A message changes the table of connections only by an accepted connect or by a close. -/
theorem handleMessage_peers {acl : BlobAclView isPoint} {peers : Peers isPoint} {msg : ProviderMessage isPoint}
    {c : Nat} {d : EndpointId isPoint} (h : (handleMessage acl peers msg).1.get? c = some d) :
    peers.get? c = some d ∨ (msg = .clientConnected c (some d) ∧ acl.isActive d = true) := by
  cases msg with
  | clientConnected c' endpointId =>
    cases endpointId with
    | none => exact Or.inl h
    | some id =>
      simp only [handleMessage] at h
      split_ifs at h with hactive
      · rw [OrdMap.get?_insert] at h
        split_ifs at h with hc
        · cases h
          exact Or.inr ⟨by rw [hc], hactive⟩
        · exact Or.inl h
      · exact Or.inl h
  | connectionClosed c' =>
    rw [handleMessage, OrdMap.get?_erase] at h
    split_ifs at h
    exact Or.inl h
  | getRequestReceived c' hash =>
    simp only [handleMessage] at h
    split_ifs at h
    · exact Or.inl h
    · exact Or.inl h
  | getManyRequestReceived c' hashes =>
    simp only [handleMessage] at h
    split_ifs at h
    · exact Or.inl h
    · exact Or.inl h
  | pushRequestReceived c' => exact Or.inl h
  | observeRequestReceived c' => exact Or.inl h
  | throttle => exact Or.inl h

theorem GateInv.step {g : BlobGate isPoint env sealing room} (h : GateInv g)
    {input : GateInput isPoint env sealing room} (hstep : Undisturbed g input) : GateInv (g.step input) := by
  cases input with
  | message msg =>
    refine ⟨fun {c d} hpeer => ?_, h.devices, h.hashes⟩
    rcases handleMessage_peers hpeer with hopen | ⟨rfl, hactive⟩
    · exact h.connected hopen
    · exact hstep d rfl (h.devices hactive)
  | replace engine =>
    refine ⟨fun {c d} hpeer => hstep.1 c d hpeer, fun {d} hactive => ?_, fun {hash} href => ?_⟩
    · exact (BlobAclView.fromSnapshot_isActive _ _ d).mp hactive
    · have hmem : hash ∈ engine.fileSharedHashes := of_decide_eq_true href
      obtain ⟨row, f, hreads, hhash⟩ := EventStore.mem_fileSharedHashes.mp hmem
      exact hstep.2 hash _ ⟨row, f, hreads, hhash, rfl⟩

theorem GateRun.inv {start : SyncEngine env sealing room} {g : BlobGate isPoint env sealing room}
    (h : GateRun start g) : GateInv g := by
  induction h with
  | start =>
    refine ⟨fun {c d} hpeer => ?_, fun {d} hactive => ?_, fun {hash} href => ?_⟩
    · cases hpeer
    · cases hactive
    · cases href
  | step _ input hstep ih => exact ih.step hstep

/-- A served request is for referenced hashes only. -/
theorem reply_ok {g : BlobGate isPoint env sealing room} {msg : ProviderMessage isPoint} {c : Nat}
    {hashes : List HashRef} (hreq : requested msg = some (c, hashes))
    (hok : (g.reply msg).decision = some (.ok ())) : ∀ hash ∈ hashes, g.acl.isReferenced hash = true := by
  cases msg with
  | getRequestReceived c' hash =>
    cases hreq
    simp only [BlobGate.reply, handleMessage] at hok
    split_ifs at hok with href
    · intro hash' hmem
      rw [List.mem_singleton.mp hmem]
      exact href
    · cases hok
  | getManyRequestReceived c' hashes' =>
    cases hreq
    simp only [BlobGate.reply, handleMessage] at hok
    split_ifs at hok with href
    · exact List.all_eq_true.mp href
    · cases hok
  | clientConnected c' endpointId => cases hreq
  | connectionClosed c' => cases hreq
  | pushRequestReceived c' => cases hreq
  | observeRequestReceived c' => cases hreq
  | throttle => cases hreq

/-- On an undisturbed run every request that is served is one the blob-serve rule allows, in the snapshot of the
moment, to the device that opened the connection. -/
theorem GateRun.served_allowed {start : SyncEngine env sealing room} {g : BlobGate isPoint env sealing room}
    (h : GateRun start g) (msg : ProviderMessage isPoint) (hstep : Undisturbed g (.message msg)) {c : Nat}
    {hashes : List HashRef} (hreq : requested msg = some (c, hashes))
    (hok : (g.reply msg).decision = some (.ok ())) :
    ∃ d, g.peers.get? c = some d ∧ BoundActive g.engine d.val ∧
      ∀ hash ∈ hashes, ∃ sharer, SharedBy g.engine hash sharer ∧
        blobServeAllowed g.engine.snapshot d.val hash (fun _ => some sharer) = .serve := by
  have hopen : g.peers.get? c ≠ none := by
    cases msg with
    | clientConnected c' endpointId => cases hreq
    | _ => exact hstep c hashes hreq
  obtain ⟨d, hd⟩ := Option.ne_none_iff_exists'.mp hopen
  have hbound := h.inv.connected hd
  refine ⟨d, hd, hbound, ?_⟩
  intro hash hmem
  obtain ⟨sharer, hshared, hactive⟩ := h.inv.hashes (reply_ok hreq hok hash hmem)
  exact ⟨sharer, hshared, blobServeAllowed_serve.mpr ⟨hbound, sharer, rfl, hactive⟩⟩

end Gate

namespace Toy

def share (k hash : Nat) (prev : List Nat) : SignedEvent :=
  buildFileShared toyEnv (idSeed k) (devSeed k) room 1 "notes.txt" "text/plain" 12 (Bytes32.ofNat hash) none []
    (prev.map Bytes32.ofNat) 108

/-- Member 2 joins and shares the file with hash 9. -/
def fileRoom : List (Nat × SignedEvent) :=
  [(1, genesis), (2, invite 2 2 .member none [1]), (3, join 2 2 .member [2]), (4, share 2 9 [3])]

/-- Every key of the worked room is an endpoint id. -/
def allPoints (_ : DeviceKey) : Bool := true

def endpoint (k : Nat) : EndpointId allPoints := ⟨device k, rfl⟩

def gate (inputs : List (GateInput allPoints toyEnv sealing room)) : BlobGate allPoints toyEnv sealing room :=
  inputs.foldl BlobGate.step ⟨.empty, .empty, opened⟩

/-- The gate after member 2 connected. -/
def connected : BlobGate allPoints toyEnv sealing room :=
  gate [.replace (run fileRoom), .message (.clientConnected 0 (some (endpoint 2)))]

/-- The same connection after member 2 was removed. -/
def revoked : BlobGate allPoints toyEnv sealing room :=
  connected.step (.replace (run (fileRoom ++ [(5, remove 2 1 [4])])))

theorem sharersActive {e : SyncEngine toyEnv sealing room}
    (h : ∀ row ∈ e.store.rows.values, row.event.event.content.eventType = .fileShared →
      e.snapshot.isActive row.event.event.senderId = true) : SharersActive e := by
  intro hash sharer ⟨row, f, hreads, hhash, hsender⟩
  refine ⟨sharer, ⟨row, f, hreads, hhash, hsender⟩, ?_⟩
  rw [← hsender]
  apply h row hreads.1
  rw [readContent_eq_ok hreads.2]
  rfl

/-- The gate before and after the connection, evaluated in one go. -/
theorem connected_computed :
    (∀ row ∈ (run fileRoom).store.rows.values, row.event.event.content.eventType = .fileShared →
      (run fileRoom).snapshot.isActive row.event.event.senderId = true) ∧
    (gate [.replace (run fileRoom)]).engine.snapshot.identityOfDevice (endpoint 2).val = some (identity 2) ∧
    (gate [.replace (run fileRoom)]).engine.snapshot.isActive (identity 2) = true ∧
    connected.peers.get? 0 ≠ none ∧
    (connected.reply (.getRequestReceived 0 (Bytes32.ofNat 9))).decision = some (.ok ()) := by
  decide +kernel

theorem connected_run : GateRun opened connected := by
  obtain ⟨hsharers, hbound, hactive, -⟩ := connected_computed
  have hviewed : GateRun opened (gate [.replace (run fileRoom)]) := by
    refine .step .start (.replace _) ⟨fun c d hpeer => ?_, sharersActive hsharers⟩
    cases hpeer
  refine .step hviewed (.message (.clientConnected 0 (some (endpoint 2)))) fun d hd _ => ?_
  cases hd
  exact ⟨identity 2, hbound, hactive⟩

end Toy

/-- Member 2 connects and is served the file it shared. -/
theorem GateRun.served_allowed_member :
    ∃ d, Toy.connected.peers.get? 0 = some d ∧ BoundActive Toy.connected.engine d.val ∧
      ∀ hash ∈ [(Bytes32.ofNat 9 : HashRef)], ∃ sharer, SharedBy Toy.connected.engine hash sharer ∧
        blobServeAllowed Toy.connected.engine.snapshot d.val hash (fun _ => some sharer) = .serve := by
  refine Toy.connected_run.served_allowed (.getRequestReceived 0 (Bytes32.ofNat 9)) ?_ rfl ?_
  · intro c hashes hreq
    cases hreq
    exact Toy.connected_computed.2.2.2.1
  · exact Toy.connected_computed.2.2.2.2

/-- After its removal member 2 is still served over the open connection, which the blob-serve rule denies whoever
the sharer is. -/
theorem served_after_removal :
    Toy.revoked.peers.get? 0 = some (Toy.endpoint 2) ∧
    (Toy.revoked.reply (.getRequestReceived 0 (Bytes32.ofNat 9))).decision = some (.ok ()) ∧
    ∀ sharer, blobServeAllowed Toy.revoked.engine.snapshot (Toy.endpoint 2).val (Bytes32.ofNat 9)
      (fun _ => some sharer) ≠ .serve := by
  obtain ⟨hpeer, hserved, hbound, hinactive⟩ : Toy.revoked.peers.get? 0 = some (Toy.endpoint 2) ∧
      (Toy.revoked.reply (.getRequestReceived 0 (Bytes32.ofNat 9))).decision = some (.ok ()) ∧
      Toy.revoked.engine.snapshot.identityOfDevice (Toy.endpoint 2).val = some (Toy.identity 2) ∧
      ¬ Toy.revoked.engine.snapshot.isActive (Toy.identity 2) = true := by decide +kernel
  refine ⟨hpeer, hserved, fun sharer hserve => ?_⟩
  obtain ⟨⟨i, hi, hactive⟩, -⟩ := blobServeAllowed_serve.mp hserve
  rw [hbound, Option.some.injEq] at hi
  rw [← hi] at hactive
  exact hinactive hactive

end IrohRooms
