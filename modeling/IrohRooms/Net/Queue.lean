import IrohRooms.Lib.Lanes
import IrohRooms.Sync.Engine
import IrohRooms.Sync.Message

/-!
# Byte-bounded priority queues

A queue of encoded messages with a byte budget for each peer, kept on one of two ledgers, and four priorities. The queue
stands for the list of the frames that wait, in the order they were accepted: the lanes are its parts of each priority,
and the budgets are sums over it. A push is atomic under the lock of the queue, and so is a pop; `recv` is a pop and, if
that finds nothing, a look at the queue under a second lock.
-/

namespace IrohRooms

open Cbor (usizeMax)

inductive QueuePriority
  | blobHints | content | checkpoint | governance
  deriving DecidableEq, Repr

namespace QueuePriority

def ordinal : QueuePriority → Nat
  | blobHints => 0
  | content => 1
  | checkpoint => 2
  | governance => 3

/-- From the highest priority to the lowest. -/
def drainOrder : List QueuePriority := [governance, checkpoint, content, blobHints]

end QueuePriority

inductive QueueFamily
  | session | governance | subscription | publication | terminalPublication | deliveryConfirmation | reconciliation
  | checkpoint | blobHints
  deriving DecidableEq, Repr

namespace QueueFamily

def priority : QueueFamily → QueuePriority
  | governance => .governance
  | checkpoint | session | deliveryConfirmation => .checkpoint
  | publication | subscription | terminalPublication => .content
  | reconciliation | blobHints => .blobHints

/-- The family counts against the stream cap too. -/
def chargesStreamBudget : QueueFamily → Bool
  | publication | subscription | reconciliation | blobHints => true
  | _ => false

end QueueFamily

def classifySyncMessage : Wire.SyncMessage → QueueFamily
  | .adminTip .. | .wantMembership .. => .governance
  | .heads .. => .checkpoint
  | .proveCapability .. => .session
  | .eventsConfirmed .. => .deliveryConfirmation
  | .events .. => .publication
  | .terminalEvents .. => .terminalPublication
  | .wantRecentChat .. => .subscription
  | .wantEvents .. | .notFound .. => .reconciliation
  | _ => .blobHints

/-- An undecodable body has the lowest priority. -/
def classifyInboundBytes (bytes : Bytes) : QueueFamily :=
  match Wire.SyncMessage.decode bytes with
  | .ok msg => classifySyncMessage msg
  | .error _ => .blobHints

def terminalEnvelopeMarginBytes : Nat := 512

def terminalDeliveryReserveBytes : Nat := SyncEngine.maxFrameBytes + terminalEnvelopeMarginBytes

def terminalReceiptReserveBytes : Nat := 512

inductive PushError
  | empty | saturated | closed
  deriving DecidableEq, Repr

structure QueuedFrame where
  peer : PeerId
  body : Bytes
  bytes : Nat
  family : QueueFamily
  /-- charged to the gossip ledger -/
  gossip : Bool
  deriving DecidableEq

structure PeerBudget where
  total : Nat := 0
  stream : Nat := 0
  deriving DecidableEq

structure QueueState where
  closed : Bool
  peerCap : Nat
  streamCap : Nat
  budgets : OrdMap PeerId PeerBudget
  gossipBudgets : OrdMap PeerId PeerBudget
  byPriority : QueuePriority → List QueuedFrame

def saturatingAdd (a b : Nat) : Nat := min (a + b) usizeMax

/-- The bytes a peer may have queued with a frame of the family on top. -/
def peerLimit (peerCap : Nat) : QueueFamily → Nat
  | .terminalPublication => saturatingAdd peerCap terminalDeliveryReserveBytes
  | .deliveryConfirmation => saturatingAdd peerCap terminalReceiptReserveBytes
  | _ => peerCap

/-- The budget with a frame on top, if the caps allow it. -/
def PeerBudget.charge (b : PeerBudget) (peerCap streamCap bytes : Nat) (family : QueueFamily) : Option PeerBudget :=
  let newTotal := saturatingAdd b.total bytes
  if newTotal > peerLimit peerCap family then none
  else if family.chargesStreamBudget then
    let newStream := saturatingAdd b.stream bytes
    if newStream > streamCap then none else some ⟨newTotal, newStream⟩
  else some ⟨newTotal, b.stream⟩

namespace QueueState

def new (peerCap streamCap : Nat) : QueueState := ⟨false, peerCap, streamCap, .empty, .empty, fun _ => []⟩

variable (s : QueueState)

def ledger (gossip : Bool) : OrdMap PeerId PeerBudget := if gossip then s.gossipBudgets else s.budgets

def withLedger (gossip : Bool) (m : OrdMap PeerId PeerBudget) : QueueState :=
  if gossip then { s with gossipBudgets := m } else { s with budgets := m }

def budget (gossip : Bool) (peer : PeerId) : PeerBudget := ((s.ledger gossip).get? peer).getD {}

def totalDepth : Nat :=
  ((s.budgets.values.map PeerBudget.total).sum + (s.gossipBudgets.values.map PeerBudget.total).sum) % 2 ^ 64

def tryPushLedger (peer : PeerId) (body : Bytes) (family : QueueFamily) (gossip : Bool) :
    QueueState × Except PushError Unit :=
  if body = [] then (s, .error .empty)
  else if s.closed then (s, .error .closed)
  else
    let bytes := body.length
    let budget := s.budget gossip peer
    match budget.charge s.peerCap s.streamCap bytes family with
    -- The peer gets its entry even if the frame is refused.
    | none => (s.withLedger gossip ((s.ledger gossip).insert peer budget), .error .saturated)
    | some charged =>
      ({ s.withLedger gossip ((s.ledger gossip).insert peer charged) with
        byPriority := Lanes.push (fun f => f.family.priority) s.byPriority ⟨peer, body, bytes, family, gossip⟩ },
        .ok ())

def tryPush (peer : PeerId) (body : Bytes) (family : QueueFamily) : QueueState × Except PushError Unit :=
  s.tryPushLedger peer body family false

def tryPushGossip (peer : PeerId) (body : Bytes) (family : QueueFamily) : QueueState × Except PushError Unit :=
  s.tryPushLedger peer body family true

/-- Give back what a frame was charged; a peer with nothing queued loses its entry. -/
def refund (frame : QueuedFrame) : QueueState :=
  match (s.ledger frame.gossip).get? frame.peer with
  | none => s
  | some budget =>
    let total := budget.total - frame.bytes
    let stream := if frame.family.chargesStreamBudget then budget.stream - frame.bytes else budget.stream
    s.withLedger frame.gossip (if total = 0 then (s.ledger frame.gossip).erase frame.peer
      else (s.ledger frame.gossip).insert frame.peer ⟨total, stream⟩)

def popHighest : QueueState × Option QueuedFrame :=
  match Lanes.pop s.byPriority QueuePriority.drainOrder with
  | none => (s, none)
  | some (frame, lanes) => ({ s with byPriority := lanes }.refund frame, some frame)

def close : QueueState := { s with closed := true }

/-- The bytes of all bodies that wait. -/
def heldBytes : Nat :=
  (QueuePriority.drainOrder.map fun p => ((s.byPriority p).map fun f => f.body.length).sum).sum

/-- The first `n` pops, as far as they find something. -/
def drain : Nat → QueueState → List QueuedFrame × QueueState
  | 0, s => ([], s)
  | n + 1, s =>
    match s.popHighest with
    | (s', some f) => (f :: (drain n s').1, (drain n s').2)
    | (s', none) => ([], s')

/-- What the consumer sees after an empty pop. -/
def drained : Bool := s.closed && decide (s.totalDepth = 0)

/-! ### Ledgers -/

variable {s}

theorem budget_withLedger (gossip g : Bool) (m : OrdMap PeerId PeerBudget) (peer : PeerId) :
    (s.withLedger gossip m).budget g peer = if g = gossip then (m.get? peer).getD {} else s.budget g peer := by
  cases gossip <;> cases g <;> rfl

@[simp] theorem withLedger_closed (gossip : Bool) (m : OrdMap PeerId PeerBudget) :
    (s.withLedger gossip m).closed = s.closed := by
  cases gossip <;> rfl

@[simp] theorem withLedger_peerCap (gossip : Bool) (m : OrdMap PeerId PeerBudget) :
    (s.withLedger gossip m).peerCap = s.peerCap := by
  cases gossip <;> rfl

@[simp] theorem withLedger_streamCap (gossip : Bool) (m : OrdMap PeerId PeerBudget) :
    (s.withLedger gossip m).streamCap = s.streamCap := by
  cases gossip <;> rfl

@[simp] theorem withLedger_byPriority (gossip : Bool) (m : OrdMap PeerId PeerBudget) :
    (s.withLedger gossip m).byPriority = s.byPriority := by
  cases gossip <;> rfl

/-- The ledger with another budget for one peer. -/
theorem budget_insert (gossip g : Bool) (peer p : PeerId) (b : PeerBudget) :
    (s.withLedger gossip ((s.ledger gossip).insert peer b)).budget g p =
      if g = gossip ∧ p = peer then b else s.budget g p := by
  rw [budget_withLedger]
  by_cases hg : g = gossip
  · subst hg
    rw [if_pos rfl, OrdMap.get?_insert]
    by_cases hp : p = peer
    · simp [hp]
    · simp [hp, budget]
  · simp [hg]

/-! ### What the queue stands for -/

/-- The ledger entry a frame is charged to. -/
def account (f : QueuedFrame) : Bool × PeerId := (f.gossip, f.peer)

def streamBytes (f : QueuedFrame) : Nat := if f.family.chargesStreamBudget then f.bytes else 0

/-- The queue holds these frames, in the order they were accepted. -/
structure Stands (s : QueueState) (queued : List QueuedFrame) : Prop where
  lanes : Lanes.Holds (fun f => f.family.priority) s.byPriority queued
  framed : ∀ f ∈ queued, f.bytes = f.body.length ∧ 0 < f.bytes
  total : ∀ gossip peer, (s.budget gossip peer).total = Lanes.sumAt account QueuedFrame.bytes (gossip, peer) queued
  stream : ∀ gossip peer, (s.budget gossip peer).stream = Lanes.sumAt account streamBytes (gossip, peer) queued
  totalCap : ∀ gossip peer, (s.budget gossip peer).total ≤ s.peerCap + terminalDeliveryReserveBytes
  streamCap : ∀ gossip peer, (s.budget gossip peer).stream ≤ s.streamCap
  fits : (queued.map QueuedFrame.bytes).sum ≤ usizeMax

theorem stands_new (peerCap streamCap : Nat) : (new peerCap streamCap).Stands [] := by
  have hnone : ∀ gossip peer, (new peerCap streamCap).budget gossip peer = {} := by
    intro gossip peer
    cases gossip <;> rfl
  refine ⟨Lanes.holds_nil, by simp, ?_, ?_, ?_, ?_, Nat.zero_le _⟩
  all_goals
    intro gossip peer
    rw [hnone]
  · rfl
  · rfl
  · exact Nat.zero_le _
  · exact Nat.zero_le _

/-- The frame a push accepts. -/
def frameOf (peer : PeerId) (body : Bytes) (family : QueueFamily) (gossip : Bool) : QueuedFrame :=
  ⟨peer, body, body.length, family, gossip⟩

variable {queued : List QueuedFrame} {peer : PeerId} {body : Bytes} {family : QueueFamily} {gossip : Bool}
  {frame : QueuedFrame}

/-- The answer to a push depends on its own ledger alone. -/
theorem tryPushLedger_snd : (s.tryPushLedger peer body family gossip).2 =
    if body = [] then .error .empty else if s.closed then .error .closed
    else if ((s.budget gossip peer).charge s.peerCap s.streamCap body.length family).isSome then .ok ()
    else .error .saturated := by
  unfold tryPushLedger
  split_ifs with hbody hclosed hcharge
  · rfl
  · rfl
  · obtain ⟨charged, hcharged⟩ := Option.isSome_iff_exists.mp hcharge
    simp [hcharged]
  · have hnone := Option.not_isSome_iff_eq_none.mp hcharge
    simp [hnone]

/-- A rejected push leaves the frames and the byte totals. -/
theorem tryPushLedger_error {e : PushError} (h : (s.tryPushLedger peer body family gossip).2 = .error e) :
    (s.tryPushLedger peer body family gossip).1.byPriority = s.byPriority ∧
    (∀ g p, (s.tryPushLedger peer body family gossip).1.budget g p = s.budget g p) ∧
    (s.tryPushLedger peer body family gossip).1.closed = s.closed ∧
    (s.tryPushLedger peer body family gossip).1.peerCap = s.peerCap ∧
    (s.tryPushLedger peer body family gossip).1.streamCap = s.streamCap := by
  have hentered : ∀ g p, (s.withLedger gossip ((s.ledger gossip).insert peer (s.budget gossip peer))).budget g p =
      s.budget g p := by
    intro g p
    rw [budget_insert]
    split_ifs with hsame
    · rw [hsame.1, hsame.2]
    · rfl
  unfold tryPushLedger at h ⊢
  dsimp only at h ⊢
  split_ifs at h ⊢
  · exact ⟨rfl, fun _ _ => rfl, rfl, rfl, rfl⟩
  · exact ⟨rfl, fun _ _ => rfl, rfl, rfl, rfl⟩
  · split at h
    · exact ⟨by simp, hentered, by simp, by simp, by simp⟩
    · cases h

/-- What an accepted push does. -/
theorem tryPushLedger_ok (h : (s.tryPushLedger peer body family gossip).2 = .ok ()) :
    body ≠ [] ∧ ∃ charged, (s.budget gossip peer).charge s.peerCap s.streamCap body.length family = some charged ∧
      (s.tryPushLedger peer body family gossip).1.byPriority =
        Lanes.push (fun f => f.family.priority) s.byPriority (frameOf peer body family gossip) ∧
      (∀ g p, (s.tryPushLedger peer body family gossip).1.budget g p =
        if g = gossip ∧ p = peer then charged else s.budget g p) ∧
      (s.tryPushLedger peer body family gossip).1.closed = s.closed ∧
      (s.tryPushLedger peer body family gossip).1.peerCap = s.peerCap ∧
      (s.tryPushLedger peer body family gossip).1.streamCap = s.streamCap := by
  unfold tryPushLedger at h ⊢
  dsimp only at h ⊢
  split_ifs at h ⊢ with hbody hclosed
  split at h
  · cases h
  · rename_i charged hcharged
    exact ⟨hbody, charged, hcharged, rfl, fun g p => budget_insert gossip g peer p charged, by simp, by simp, by simp⟩

end QueueState

theorem saturatingAdd_eq {a b : Nat} (h : a + b ≤ usizeMax) : saturatingAdd a b = a + b := min_eq_left h

theorem peerLimit_le (peerCap : Nat) (family : QueueFamily) :
    peerLimit peerCap family ≤ peerCap + terminalDeliveryReserveBytes := by
  have hreserve : terminalReceiptReserveBytes ≤ terminalDeliveryReserveBytes := by decide
  cases family with
  | terminalPublication => exact min_le_left _ _
  | deliveryConfirmation => exact (min_le_left _ _).trans (Nat.add_le_add_left hreserve _)
  | _ => exact Nat.le_add_right _ _

/-- A budget that fits in memory is charged exactly the frame. -/
theorem PeerBudget.charge_eq_some {b charged : PeerBudget} {peerCap streamCap bytes : Nat} {family : QueueFamily}
    (htotal : b.total + bytes ≤ usizeMax) (hstream : b.stream + bytes ≤ usizeMax) :
    b.charge peerCap streamCap bytes family = some charged ↔
      b.total + bytes ≤ peerLimit peerCap family ∧
      (family.chargesStreamBudget = true → b.stream + bytes ≤ streamCap) ∧
      charged = ⟨b.total + bytes, if family.chargesStreamBudget then b.stream + bytes else b.stream⟩ := by
  unfold PeerBudget.charge
  rw [saturatingAdd_eq htotal, saturatingAdd_eq hstream]
  by_cases hlimit : b.total + bytes > peerLimit peerCap family
  · simp [hlimit, Nat.not_le.mpr hlimit]
  · by_cases hcharges : family.chargesStreamBudget = true
    · by_cases hcap : b.stream + bytes > streamCap
      · simp [hlimit, hcharges, hcap, Nat.not_le.mpr hcap]
      · simp [hlimit, hcharges, hcap, Nat.not_lt.mp hlimit, Nat.not_lt.mp hcap, eq_comm]
    · simp [hlimit, hcharges, Nat.not_lt.mp hlimit, eq_comm]

namespace QueueState

variable {s : QueueState} {queued : List QueuedFrame} {peer : PeerId} {body : Bytes} {family : QueueFamily}
  {gossip : Bool} {frame : QueuedFrame}

theorem streamBytes_le (f : QueuedFrame) : streamBytes f ≤ f.bytes := by
  unfold streamBytes
  split_ifs
  · exact le_refl _
  · exact Nat.zero_le _

theorem sumAt_stream_le (key : Bool × PeerId) (l : List QueuedFrame) :
    Lanes.sumAt account streamBytes key l ≤ Lanes.sumAt account QueuedFrame.bytes key l :=
  List.sum_le_sum fun f _ => streamBytes_le f

theorem Stands.total_le (h : s.Stands queued) (gossip : Bool) (peer : PeerId) :
    (s.budget gossip peer).total ≤ (queued.map QueuedFrame.bytes).sum := by
  have hone := Lanes.sum_sumAt_le account QueuedFrame.bytes (List.nodup_singleton (gossip, peer)) queued
  rw [h.total]
  simpa using hone

theorem Stands.stream_le (h : s.Stands queued) (gossip : Bool) (peer : PeerId) :
    (s.budget gossip peer).stream ≤ (s.budget gossip peer).total := by
  rw [h.total, h.stream]
  exact sumAt_stream_le _ _

/-- An accepted frame joins the end of the list. -/
theorem Stands.push (h : s.Stands queued) (hmemory : (queued.map QueuedFrame.bytes).sum + body.length ≤ usizeMax)
    (hok : (s.tryPushLedger peer body family gossip).2 = .ok ()) :
    (s.tryPushLedger peer body family gossip).1.Stands (queued ++ [frameOf peer body family gossip]) := by
  obtain ⟨hbody, charged, hcharged, hlanes, hbudget, -, hpeerCap, hstreamCap⟩ := tryPushLedger_ok hok
  have htotal := h.total_le gossip peer
  have hstream := h.stream_le gossip peer
  obtain ⟨hlimit, hcap, heq⟩ := (PeerBudget.charge_eq_some (by omega) (by omega)).mp hcharged
  have htotal' : charged.total = (s.budget gossip peer).total + body.length := by rw [heq]
  have hstream' : charged.stream =
      (s.budget gossip peer).stream + streamBytes (frameOf peer body family gossip) := by
    rw [heq]
    unfold streamBytes frameOf
    dsimp only
    split_ifs <;> rfl
  have haccount : ∀ g p, account (frameOf peer body family gossip) = (g, p) ↔ g = gossip ∧ p = peer := by
    intro g p
    rw [account, frameOf, Prod.mk.injEq, eq_comm, @eq_comm _ peer]
  have hlen : 0 < body.length := List.length_pos_iff.mpr hbody
  constructor
  · rw [hlanes]
    exact h.lanes.push _
  · intro f hf
    rcases List.mem_append.mp hf with hf | hf
    · exact h.framed f hf
    · rw [List.mem_singleton.mp hf]
      exact ⟨rfl, hlen⟩
  · intro g p
    rw [hbudget, Lanes.sumAt_append, Lanes.sumAt_singleton, ← h.total]
    simp only [haccount]
    split_ifs with hsame
    · rw [hsame.1, hsame.2, htotal']
      rfl
    · rfl
  · intro g p
    rw [hbudget, Lanes.sumAt_append, Lanes.sumAt_singleton, ← h.stream]
    simp only [haccount]
    split_ifs with hsame
    · rw [hsame.1, hsame.2, hstream']
    · rfl
  · intro g p
    rw [hbudget, hpeerCap]
    split_ifs
    · rw [htotal']
      exact hlimit.trans (peerLimit_le _ _)
    · exact h.totalCap g p
  · intro g p
    rw [hbudget, hstreamCap]
    split_ifs
    · rw [heq]
      dsimp only
      split_ifs with hcharges
      · exact hcap hcharges
      · exact h.streamCap gossip peer
    · exact h.streamCap g p
  · rw [List.map_append, List.sum_append]
    simpa [frameOf] using hmemory

/-- What comes later in the order of draining has a lower priority. -/
theorem ordinal_le_of_drainOrder {p q : QueuePriority} {higher lower : List QueuePriority}
    (horder : QueuePriority.drainOrder = higher ++ p :: lower) (hq : q ∉ higher) : q.ordinal ≤ p.ordinal := by
  have hall : q ∈ higher ++ p :: lower := by
    rw [← horder]
    cases q <;> decide
  have hsorted : (higher ++ p :: lower).Pairwise fun a b => b.ordinal < a.ordinal := by
    rw [← horder]
    decide
  rcases List.mem_append.mp hall with hmem | hmem
  · exact absurd hmem hq
  · rcases List.mem_cons.mp hmem with rfl | hmem
    · exact le_refl _
    · exact ((List.pairwise_cons.mp (List.pairwise_append.mp hsorted).2.1).1 q hmem).le

/-- Giving back the charge of a frame that was charged. -/
theorem budget_refund (hpos : 0 < frame.bytes) (hle : frame.bytes ≤ (s.budget frame.gossip frame.peer).total)
    (hzero : (s.budget frame.gossip frame.peer).total = frame.bytes →
      (s.budget frame.gossip frame.peer).stream = streamBytes frame) (g : Bool) (p : PeerId) :
    (s.refund frame).budget g p =
      if g = frame.gossip ∧ p = frame.peer then
        ⟨(s.budget frame.gossip frame.peer).total - frame.bytes,
          (s.budget frame.gossip frame.peer).stream - streamBytes frame⟩
      else s.budget g p := by
  cases hentry : (s.ledger frame.gossip).get? frame.peer with
  | none =>
    have hnone : (s.budget frame.gossip frame.peer).total = 0 := by simp [budget, hentry]
    omega
  | some b =>
    have hb : s.budget frame.gossip frame.peer = b := by simp [budget, hentry]
    have hstream : (if frame.family.chargesStreamBudget then b.stream - frame.bytes else b.stream) =
        b.stream - streamBytes frame := by
      unfold streamBytes
      split_ifs <;> rfl
    rw [hb] at hle hzero ⊢
    unfold refund
    rw [hentry]
    dsimp only
    rw [hstream]
    by_cases hempty : b.total - frame.bytes = 0
    · have hnothing : b.stream - streamBytes frame = 0 := by
        have := hzero (by omega)
        omega
      rw [if_pos hempty, hempty, hnothing, budget_withLedger]
      by_cases hg : g = frame.gossip
      · subst hg
        rw [if_pos rfl, OrdMap.get?_erase]
        by_cases hp : p = frame.peer
        · simp [hp]
        · simp [hp, budget]
      · simp [hg]
    · rw [if_neg hempty, budget_insert]

@[simp] theorem refund_byPriority (f : QueuedFrame) : (s.refund f).byPriority = s.byPriority := by
  unfold refund
  split <;> simp

@[simp] theorem refund_closed (f : QueuedFrame) : (s.refund f).closed = s.closed := by
  unfold refund
  split <;> simp

@[simp] theorem refund_peerCap (f : QueuedFrame) : (s.refund f).peerCap = s.peerCap := by
  unfold refund
  split <;> simp

@[simp] theorem refund_streamCap (f : QueuedFrame) : (s.refund f).streamCap = s.streamCap := by
  unfold refund
  split <;> simp

/-- The budgets after a frame has left are the sums over the frames that stay. -/
theorem Stands.budget_refund {front back : List QueuedFrame} (h : s.Stands (front ++ frame :: back))
    (lanes : QueuePriority → List QueuedFrame) (g : Bool) (p : PeerId) :
    (({ s with byPriority := lanes } : QueueState).refund frame).budget g p =
      ⟨Lanes.sumAt account QueuedFrame.bytes (g, p) (front ++ back),
        Lanes.sumAt account streamBytes (g, p) (front ++ back)⟩ := by
  have hframed := h.framed frame (by simp)
  have hself : account frame = (frame.gossip, frame.peer) := rfl
  have htotal := h.total frame.gossip frame.peer
  have hstream := h.stream frame.gossip frame.peer
  rw [Lanes.sumAt_insert, if_pos hself] at htotal hstream
  have hrest := sumAt_stream_le (frame.gossip, frame.peer) (front ++ back)
  rw [QueueState.budget_refund (s := { s with byPriority := lanes }) hframed.2
    (show frame.bytes ≤ (s.budget frame.gossip frame.peer).total by omega)
    fun (hall : (s.budget frame.gossip frame.peer).total = frame.bytes) =>
      show (s.budget frame.gossip frame.peer).stream = streamBytes frame by omega]
  split_ifs with hsame
  · show PeerBudget.mk ((s.budget frame.gossip frame.peer).total - frame.bytes)
      ((s.budget frame.gossip frame.peer).stream - streamBytes frame) = _
    rw [hsame.1, hsame.2, htotal, hstream, Nat.add_sub_cancel, Nat.add_sub_cancel]
  · have hother : account frame ≠ (g, p) := by
      rw [hself]
      rintro ⟨⟩
      exact hsame ⟨rfl, rfl⟩
    have hsum := h.total g p
    have hsum' := h.stream g p
    rw [Lanes.sumAt_insert, if_neg hother, Nat.add_zero] at hsum hsum'
    show s.budget g p = _
    rw [← hsum, ← hsum']

theorem Stands.refund {front back : List QueuedFrame} (h : s.Stands (front ++ frame :: back))
    {lanes : QueuePriority → List QueuedFrame}
    (hlanes : Lanes.Holds (fun f => f.family.priority) lanes (front ++ back)) :
    (({ s with byPriority := lanes } : QueueState).refund frame).Stands (front ++ back) := by
  constructor
  · rw [refund_byPriority]
    exact hlanes
  · intro f hf
    refine h.framed f ?_
    rcases List.mem_append.mp hf with hf | hf
    · exact List.mem_append_left _ hf
    · exact List.mem_append_right _ (List.mem_cons_of_mem _ hf)
  · intro g p
    rw [h.budget_refund]
  · intro g p
    rw [h.budget_refund]
  · intro g p
    rw [h.budget_refund, refund_peerCap]
    have hcap := h.totalCap g p
    rw [h.total, Lanes.sumAt_insert] at hcap
    exact (Nat.le_add_right _ _).trans hcap
  · intro g p
    rw [h.budget_refund, refund_streamCap]
    have hcap := h.streamCap g p
    rw [h.stream, Lanes.sumAt_insert] at hcap
    exact (Nat.le_add_right _ _).trans hcap
  · have hfits := h.fits
    rw [List.map_append, List.map_cons, List.sum_append, List.sum_cons] at hfits
    rw [List.map_append, List.sum_append]
    omega

/-- A pop takes the oldest frame of the highest priority that waits. -/
theorem Stands.pop {s' : QueueState} (h : s.Stands queued) (hpop : s.popHighest = (s', some frame)) :
    ∃ front back, queued = front ++ frame :: back ∧ s'.Stands (front ++ back) ∧
      (∀ f ∈ front, f.family.priority ≠ frame.family.priority) ∧
      (∀ f ∈ queued, f.family.priority.ordinal ≤ frame.family.priority.ordinal) ∧ s'.closed = s.closed := by
  unfold popHighest at hpop
  split at hpop
  · cases hpop
  · rename_i first lanes hlanes
    cases hpop
    obtain ⟨front, back, rfl, hholds, hfront, higher, lower, horder, hhigher⟩ := h.lanes.pop hlanes
    exact ⟨front, back, rfl, h.refund hholds, hfront,
      fun f hf => ordinal_le_of_drainOrder horder (hhigher f hf), by simp⟩

/-- A pop finds nothing only if nothing waits. -/
theorem Stands.pop_none {s' : QueueState} (h : s.Stands queued) (hpop : s.popHighest = (s', none)) :
    queued = [] ∧ s' = s := by
  unfold popHighest at hpop
  split at hpop
  · rename_i hlanes
    cases hpop
    refine ⟨List.eq_nil_iff_forall_not_mem.mpr fun f hf => ?_, rfl⟩
    have hall : f.family.priority ∈ QueuePriority.drainOrder := by cases f.family <;> decide
    exact h.lanes.eq_nil_of_pop hlanes f hf hall
  · cases hpop

/-- The depth of a ledger, by peer. -/
theorem Stands.sum_ledger (h : s.Stands queued) (gossip : Bool) :
    ((s.ledger gossip).values.map PeerBudget.total).sum =
      (((s.ledger gossip).keys.map fun peer => (gossip, peer)).map fun key =>
        Lanes.sumAt account QueuedFrame.bytes key queued).sum := by
  rw [OrdMap.values, OrdMap.keys, List.map_map, List.map_map, List.map_map]
  refine congrArg List.sum (List.map_congr_left fun e he => ?_)
  have hget : (s.ledger gossip).get? e.1 = some e.2 := OrdMap.mem_entries.mp he
  have htotal := h.total gossip e.1
  rw [budget, hget] at htotal
  exact htotal

/-- The bytes of all frames are in memory, so the sum of the budgets does not wrap around. -/
theorem Stands.totalDepth (h : s.Stands queued) : s.totalDepth =
    ((s.ledger false).values.map PeerBudget.total).sum + ((s.ledger true).values.map PeerBudget.total).sum := by
  have hkeys : ((s.ledger false).keys.map (fun peer => (false, peer)) ++
      (s.ledger true).keys.map fun peer => (true, peer)).Nodup := by
    refine List.nodup_append.mpr ⟨?_, ?_, ?_⟩
    · exact (s.ledger false).keys_nodup.map fun _ _ heq => (Prod.mk.inj heq).2
    · exact (s.ledger true).keys_nodup.map fun _ _ heq => (Prod.mk.inj heq).2
    · intro a ha b hb hab
      obtain ⟨_, -, rfl⟩ := List.mem_map.mp ha
      obtain ⟨_, -, rfl⟩ := List.mem_map.mp hb
      cases hab
  have hle := Lanes.sum_sumAt_le account QueuedFrame.bytes hkeys queued
  rw [List.map_append, List.sum_append, ← h.sum_ledger, ← h.sum_ledger] at hle
  have hmax : usizeMax < 2 ^ 64 := by decide
  exact Nat.mod_eq_of_lt ((hle.trans h.fits).trans_lt hmax)

/-- A closed queue whose depth is nothing is empty. -/
theorem Stands.drained (h : s.Stands queued) (hdrained : s.drained = true) : s.closed = true ∧ queued = [] := by
  obtain ⟨hclosed, hdepth⟩ := Bool.and_eq_true_iff.mp hdrained
  refine ⟨hclosed, ?_⟩
  have hdepth : s.totalDepth = 0 := by simpa using hdepth
  rw [h.totalDepth, Nat.add_eq_zero_iff, List.sum_eq_zero_iff, List.sum_eq_zero_iff] at hdepth
  have hzero : ∀ gossip peer, (s.budget gossip peer).total = 0 := by
    intro gossip peer
    cases hentry : (s.ledger gossip).get? peer with
    | none => simp [budget, hentry]
    | some b =>
      have hmem : b.total ∈ (s.ledger gossip).values.map PeerBudget.total :=
        List.mem_map_of_mem (OrdMap.mem_values.mpr ⟨peer, hentry⟩)
      have hb : b.total = 0 := by
        cases gossip
        · exact hdepth.1 _ hmem
        · exact hdepth.2 _ hmem
      simp [budget, hentry, hb]
  refine Lanes.sumAt_eq_zero account QueuedFrame.bytes (fun f hf => (h.framed f hf).2) fun key => ?_
  rw [← h.total key.1 key.2, hzero]

theorem Stands.heldBytes (h : s.Stands queued) : s.heldBytes = (queued.map QueuedFrame.bytes).sum := by
  have hnodup : QueuePriority.drainOrder.Nodup := by decide
  have hall : ∀ f ∈ queued, f.family.priority ∈ QueuePriority.drainOrder := by
    intro f _
    cases f.family <;> decide
  rw [← Lanes.sum_sumAt (fun f => f.family.priority) QueuedFrame.bytes hnodup hall]
  refine congrArg List.sum (List.map_congr_left fun p _ => ?_)
  rw [h.lanes p, Lanes.sumAt]
  refine congrArg List.sum (List.map_congr_left fun f hf => ?_)
  exact (h.framed f (List.mem_of_mem_filter hf)).1.symm

/-- Popping as often as there are frames delivers all of them. -/
theorem Stands.drain (h : s.Stands queued) :
    (drain queued.length s).1.Perm queued ∧ (drain queued.length s).2.popHighest.2 = none := by
  induction hn : queued.length generalizing s queued with
  | zero =>
    obtain rfl := List.length_eq_zero_iff.mp hn
    refine ⟨List.Perm.refl _, ?_⟩
    cases hpop : s.popHighest.2 with
    | none => exact hpop
    | some f =>
      obtain ⟨front, back, hempty, -⟩ := h.pop (Prod.ext rfl hpop)
      simp at hempty
  | succ n ih =>
    cases hpop : s.popHighest.2 with
    | none =>
      obtain ⟨rfl, -⟩ := h.pop_none (Prod.ext rfl hpop)
      cases hn
    | some f =>
      obtain ⟨front, back, rfl, hrest, -⟩ := h.pop (Prod.ext rfl hpop)
      have hlen : (front ++ back).length = n := by
        rw [List.length_append, List.length_cons] at hn
        rw [List.length_append]
        omega
      obtain ⟨hperm, hnone⟩ := ih hrest hlen
      have hdrain : QueueState.drain (n + 1) s =
          (f :: (QueueState.drain n s.popHighest.1).1, (QueueState.drain n s.popHighest.1).2) := by
        rw [QueueState.drain]
        have hboth : s.popHighest = (s.popHighest.1, some f) := Prod.ext rfl hpop
        rw [hboth]
      rw [hdrain]
      exact ⟨(hperm.cons f).trans List.perm_middle.symm, hnone⟩

theorem Stands.congr {s' : QueueState} (h : s.Stands queued) (hlanes : s'.byPriority = s.byPriority)
    (hbudget : ∀ g p, s'.budget g p = s.budget g p) (hpeerCap : s'.peerCap = s.peerCap)
    (hstreamCap : s'.streamCap = s.streamCap) : s'.Stands queued := by
  refine ⟨?_, h.framed, ?_, ?_, ?_, ?_, h.fits⟩
  · rw [hlanes]
    exact h.lanes
  · intro g p
    rw [hbudget, h.total]
  · intro g p
    rw [hbudget, h.stream]
  · intro g p
    rw [hbudget, hpeerCap]
    exact h.totalCap g p
  · intro g p
    rw [hbudget, hstreamCap]
    exact h.streamCap g p

/-- A push on one ledger leaves the answer to a push on the other. -/
theorem tryPushLedger_other (s : QueueState) (gossip : Bool) (peer p : PeerId) (body b : Bytes)
    (family f : QueueFamily) :
    ((s.tryPushLedger peer body family gossip).1.tryPushLedger p b f (!gossip)).2 =
      (s.tryPushLedger p b f (!gossip)).2 := by
  have hsame : (s.tryPushLedger peer body family gossip).1.closed = s.closed ∧
      (s.tryPushLedger peer body family gossip).1.peerCap = s.peerCap ∧
      (s.tryPushLedger peer body family gossip).1.streamCap = s.streamCap ∧
      (s.tryPushLedger peer body family gossip).1.budget (!gossip) p = s.budget (!gossip) p := by
    cases hresult : (s.tryPushLedger peer body family gossip).2 with
    | error e =>
      obtain ⟨-, hbudget, hclosed, hpeerCap, hstreamCap⟩ := tryPushLedger_error hresult
      exact ⟨hclosed, hpeerCap, hstreamCap, hbudget _ _⟩
    | ok u =>
      obtain ⟨-, charged, -, -, hbudget, hclosed, hpeerCap, hstreamCap⟩ := tryPushLedger_ok hresult
      refine ⟨hclosed, hpeerCap, hstreamCap, ?_⟩
      rw [hbudget, if_neg (by simp)]
  rw [tryPushLedger_snd, tryPushLedger_snd, hsame.1, hsame.2.1, hsame.2.2.1, hsame.2.2.2]

end QueueState

/-! ### Runs -/

/-- A queue with the frames it has accepted and those it has delivered. -/
structure QueueRun where
  state : QueueState
  accepted : List QueuedFrame
  delivered : List QueuedFrame

inductive QueueOp
  | push (peer : PeerId) (body : Bytes) (family : QueueFamily) (gossip : Bool)
  | pop
  | close

namespace QueueRun

def step (r : QueueRun) : QueueOp → QueueRun
  | .push peer body family gossip =>
    let pushed := r.state.tryPushLedger peer body family gossip
    { r with
      state := pushed.1
      accepted := match pushed.2 with
        | .ok () => r.accepted ++ [QueueState.frameOf peer body family gossip]
        | .error _ => r.accepted }
  | .pop =>
    let popped := r.state.popHighest
    { r with state := popped.1, delivered := r.delivered ++ popped.2.toList }
  | .close => { r with state := r.state.close }

/-- The bodies that wait and the one that is pushed are in memory together. -/
def Roomy (r : QueueRun) : QueueOp → Prop
  | .push _ body _ _ => r.state.heldBytes + body.length ≤ usizeMax
  | _ => True

instance (r : QueueRun) (op : QueueOp) : Decidable (r.Roomy op) :=
  match op with
  | .push .. => inferInstanceAs (Decidable (_ ≤ _))
  | .pop | .close => isTrue trivial

/-- There is room for every step of a run. -/
def AllRoomy : QueueRun → List QueueOp → Prop
  | _, [] => True
  | r, op :: ops => r.Roomy op ∧ AllRoomy (r.step op) ops

instance allRoomyDecidable : ∀ (r : QueueRun) (ops : List QueueOp), Decidable (r.AllRoomy ops)
  | _, [] => isTrue trivial
  | r, op :: ops =>
    have := allRoomyDecidable (r.step op) ops
    inferInstanceAs (Decidable (_ ∧ _))

inductive Reached (peerCap streamCap : Nat) : QueueRun → Prop
  | start : Reached peerCap streamCap ⟨.new peerCap streamCap, [], []⟩
  | step {r : QueueRun} {op : QueueOp} : Reached peerCap streamCap r → r.Roomy op →
      Reached peerCap streamCap (r.step op)

/-- What producers do while the consumer waits. -/
inductive Produced : QueueRun → QueueRun → Prop
  | refl {r : QueueRun} : Produced r r
  | step {r r' : QueueRun} {op : QueueOp} : Produced r r' → op ≠ .pop → r'.Roomy op → Produced r (r'.step op)

/-- One call of `recv`, with its answer: it pops, and after a pop that finds nothing looks whether the queue is closed
and drained, before it waits and starts again. -/
inductive Recv : QueueRun → Option QueuedFrame → QueueRun → Prop
  | frame {r : QueueRun} {f : QueuedFrame} : r.state.popHighest.2 = some f → Recv r (some f) (r.step .pop)
  | finish {r r₁ : QueueRun} : r.state.popHighest.2 = none → Produced (r.step .pop) r₁ → r₁.state.drained = true →
      Recv r none r₁
  | again {r r₁ r₂ r₃ : QueueRun} {answer : Option QueuedFrame} : r.state.popHighest.2 = none →
      Produced (r.step .pop) r₁ → r₁.state.drained = false → Produced r₁ r₂ → Recv r₂ answer r₃ → Recv r answer r₃

variable {r r' : QueueRun} {peerCap streamCap : Nat}

/-- The frames that wait are those accepted and not delivered, in the order of acceptance. -/
structure Tally (r : QueueRun) (queued : List QueuedFrame) : Prop where
  stands : r.state.Stands queued
  order : queued.Sublist r.accepted
  once : r.accepted.Perm (r.delivered ++ queued)

theorem Tally.step {queued : List QueuedFrame} (h : r.Tally queued) {op : QueueOp} (hroom : r.Roomy op) :
    ∃ queued', (r.step op).Tally queued' := by
  cases op with
  | push peer body family gossip =>
    cases hresult : (r.state.tryPushLedger peer body family gossip).2 with
    | error e =>
      obtain ⟨hlanes, hbudget, -, hpeerCap, hstreamCap⟩ := QueueState.tryPushLedger_error hresult
      refine ⟨queued, h.stands.congr hlanes hbudget hpeerCap hstreamCap, ?_, ?_⟩
      · simpa [QueueRun.step, hresult] using h.order
      · simpa [QueueRun.step, hresult] using h.once
    | ok u =>
      have hmemory : (queued.map QueuedFrame.bytes).sum + body.length ≤ usizeMax := by
        rw [← h.stands.heldBytes]
        exact hroom
      refine ⟨queued ++ [QueueState.frameOf peer body family gossip], h.stands.push hmemory hresult, ?_, ?_⟩
      · simpa [QueueRun.step, hresult] using h.order
      · simpa [QueueRun.step, hresult, ← List.append_assoc] using
          h.once.append_right [QueueState.frameOf peer body family gossip]
  | pop =>
    cases hpop : r.state.popHighest.2 with
    | none =>
      obtain ⟨-, hsame⟩ := h.stands.pop_none (Prod.ext rfl hpop)
      have hstate : (r.step .pop).state = r.state := hsame
      refine ⟨queued, ?_, h.order, ?_⟩
      · rw [hstate]
        exact h.stands
      · simpa [QueueRun.step, hpop] using h.once
    | some f =>
      obtain ⟨front, back, rfl, hrest, -⟩ := h.stands.pop (Prod.ext rfl hpop)
      refine ⟨front ++ back, hrest, ?_, ?_⟩
      · exact ((List.sublist_cons_self f back).append_left front).trans h.order
      · have hmiddle : (r.delivered ++ (front ++ f :: back)).Perm (r.delivered ++ [f] ++ (front ++ back)) := by
          rw [List.append_assoc]
          exact List.perm_middle.append_left _
        simpa [QueueRun.step, hpop] using h.once.trans hmiddle
  | close => exact ⟨queued, h.stands.congr rfl (fun _ _ => rfl) rfl rfl, h.order, h.once⟩

theorem Reached.run (h : Reached peerCap streamCap r) {ops : List QueueOp} (hroom : r.AllRoomy ops) :
    Reached peerCap streamCap (ops.foldl QueueRun.step r) := by
  induction ops generalizing r with
  | nil => exact h
  | cons op ops ih => exact ih (h.step hroom.1) hroom.2

theorem Reached.tally (h : Reached peerCap streamCap r) : ∃ queued, r.Tally queued := by
  induction h with
  | start => exact ⟨[], QueueState.stands_new peerCap streamCap, List.Sublist.refl _, List.Perm.refl _⟩
  | step _ hroom ih =>
    obtain ⟨queued, htally⟩ := ih
    exact htally.step hroom

theorem Reached.produced (h : Reached peerCap streamCap r) (hproduced : Produced r r') :
    Reached peerCap streamCap r' := by
  induction hproduced with
  | refl => exact h
  | step _ _ hroom ih => exact ih.step hroom

theorem Reached.pop (h : Reached peerCap streamCap r) : Reached peerCap streamCap (r.step .pop) := .step h trivial

/-- `recv` answers with nothing only if the queue is closed and empty. -/
theorem Reached.recv_none (h : Reached peerCap streamCap r) {answer : Option QueuedFrame} (hrecv : Recv r answer r')
    (hnone : answer = none) : r'.state.closed = true ∧ ∀ p, r'.state.byPriority p = [] := by
  induction hrecv with
  | frame _ => cases hnone
  | finish _ hproduced hdrained =>
    obtain ⟨queued, htally⟩ := (h.pop.produced hproduced).tally
    obtain ⟨hclosed, rfl⟩ := htally.stands.drained hdrained
    exact ⟨hclosed, fun p => htally.stands.lanes p⟩
  | again _ hproduced _ hwaited _ ih => exact ih ((h.pop.produced hproduced).produced hwaited) hnone

/-- What a queue promises, where the listed frames wait in it, in the order they were accepted. -/
structure Faithful (r : QueueRun) (queued : List QueuedFrame) : Prop where
  /-- the frames that wait are those accepted and not delivered -/
  order : queued.Sublist r.accepted
  once : r.accepted.Perm (r.delivered ++ queued)
  lanes : ∀ p, r.state.byPriority p = queued.filter fun f => f.family.priority = p
  /-- the budgets are sums over them, within the caps -/
  total : ∀ gossip peer, (r.state.budget gossip peer).total =
    Lanes.sumAt QueueState.account (fun f => f.body.length) (gossip, peer) queued
  stream : ∀ gossip peer, (r.state.budget gossip peer).stream =
    Lanes.sumAt QueueState.account (fun f => if f.family.chargesStreamBudget then f.body.length else 0) (gossip, peer)
      queued
  totalCap : ∀ gossip peer, (r.state.budget gossip peer).total ≤ r.state.peerCap + terminalDeliveryReserveBytes
  streamCap : ∀ gossip peer, (r.state.budget gossip peer).stream ≤ r.state.streamCap
  /-- a pop delivers the oldest frame of the highest priority, and draining delivers all -/
  pop : ∀ frame, r.state.popHighest.2 = some frame → ∃ front back, queued = front ++ frame :: back ∧
    (∀ f ∈ front, f.family.priority ≠ frame.family.priority) ∧
    ∀ f ∈ queued, f.family.priority.ordinal ≤ frame.family.priority.ordinal
  drain : (QueueState.drain queued.length r.state).1.Perm queued ∧
    (QueueState.drain queued.length r.state).2.popHighest.2 = none
  /-- a rejected push leaves the frames and the byte totals -/
  rejected : ∀ peer body family gossip e, (r.state.tryPushLedger peer body family gossip).2 = .error e →
    (r.state.tryPushLedger peer body family gossip).1.byPriority = r.state.byPriority ∧
    ∀ g p, (r.state.tryPushLedger peer body family gossip).1.budget g p = r.state.budget g p
  /-- a push on one ledger leaves the answer to any push on the other -/
  apart : ∀ peer body family gossip p b f,
    ((r.state.tryPushLedger peer body family gossip).1.tryPushLedger p b f (!gossip)).2 =
      (r.state.tryPushLedger p b f (!gossip)).2
  /-- `recv` answers with nothing only if the queue is closed and empty -/
  recv : ∀ r', Recv r none r' → r'.state.closed = true ∧ ∀ p, r'.state.byPriority p = []

theorem Reached.caps (h : Reached peerCap streamCap r) :
    r.state.peerCap = peerCap ∧ r.state.streamCap = streamCap := by
  induction h with
  | start => exact ⟨rfl, rfl⟩
  | @step r op _ _ ih =>
    have hkept : (r.step op).state.peerCap = r.state.peerCap ∧ (r.step op).state.streamCap = r.state.streamCap := by
      cases op with
      | push peer body family gossip =>
        cases hresult : (r.state.tryPushLedger peer body family gossip).2 with
        | error e => exact (QueueState.tryPushLedger_error hresult).2.2.2
        | ok u =>
          obtain ⟨-, charged, -, -, -, -, hcaps⟩ := QueueState.tryPushLedger_ok hresult
          exact hcaps
      | pop =>
        show r.state.popHighest.1.peerCap = _ ∧ r.state.popHighest.1.streamCap = _
        unfold QueueState.popHighest
        split
        · exact ⟨rfl, rfl⟩
        · exact ⟨QueueState.refund_peerCap _, QueueState.refund_streamCap _⟩
      | close => exact ⟨rfl, rfl⟩
    rw [hkept.1, hkept.2]
    exact ih

/-- Whatever is pushed, popped and closed in whatever order, the queue keeps what it promises. -/
theorem Reached.faithful (h : Reached peerCap streamCap r) :
    (r.state.peerCap = peerCap ∧ r.state.streamCap = streamCap) ∧ ∃ queued, r.Faithful queued := by
  refine ⟨h.caps, ?_⟩
  obtain ⟨queued, ⟨hstands, horder, honce⟩⟩ := h.tally
  have hlen : ∀ f ∈ queued, f.bytes = f.body.length := fun f hf => (hstands.framed f hf).1
  refine ⟨queued, horder, honce, hstands.lanes, ?_, ?_, hstands.totalCap, hstands.streamCap, ?_, hstands.drain, ?_, ?_,
    ?_⟩
  · intro gossip peer
    rw [hstands.total, Lanes.sumAt_congr _ _ _ hlen]
  · intro gossip peer
    rw [hstands.stream]
    refine Lanes.sumAt_congr _ _ _ fun f hf => ?_
    rw [QueueState.streamBytes, hlen f hf]
  · intro frame hpop
    obtain ⟨front, back, hqueued, -, hfront, hhighest, -⟩ := hstands.pop (Prod.ext rfl hpop)
    exact ⟨front, back, hqueued, hfront, hhighest⟩
  · intro peer body family gossip e herror
    obtain ⟨hlanes, hbudget, -⟩ := QueueState.tryPushLedger_error herror
    exact ⟨hlanes, hbudget⟩
  · intro peer body family gossip p b f
    exact r.state.tryPushLedger_other gossip peer p body b family f
  · intro r' hrecv
    exact h.recv_none hrecv rfl

end QueueRun

namespace Toy

/-- A queue of a hundred bytes that takes a message, a head, a second message too many, and is closed. -/
def queueOps : List QueueOp :=
  [.push (device 1) (List.replicate 60 1) .publication false, .push (device 1) (List.replicate 30 2) .checkpoint false,
    .push (device 1) (List.replicate 60 3) .publication false, .push (device 1) (List.replicate 60 4) .publication true,
    .pop, .close]

def queueRun (ops : List QueueOp) : QueueRun := ops.foldl QueueRun.step ⟨.new 100 80, [], []⟩

end Toy

theorem QueueRun.faithful_toy : (Toy.queueRun Toy.queueOps).accepted.length = 3 ∧
    (Toy.queueRun Toy.queueOps).delivered.map (fun f => f.family) = [.checkpoint] ∧
    ∃ queued, (Toy.queueRun Toy.queueOps).Faithful queued := by
  have hroom : QueueRun.AllRoomy ⟨.new 100 80, [], []⟩ Toy.queueOps := by decide
  have hreached : QueueRun.Reached 100 80 (Toy.queueRun Toy.queueOps) := QueueRun.Reached.start.run hroom
  exact ⟨by decide, by decide, hreached.faithful.2⟩

/-! ### The reserves -/

namespace QueueState

variable {s : QueueState} {peer : PeerId} {gossip : Bool}

/-- Both frames are accepted, in this order. -/
def acceptsBoth (s : QueueState) (peer : PeerId) (gossip : Bool) (first second : Bytes × QueueFamily) : Prop :=
  (s.tryPushLedger peer first.1 first.2 gossip).2 = .ok () ∧
  ((s.tryPushLedger peer first.1 first.2 gossip).1.tryPushLedger peer second.1 second.2 gossip).2 = .ok ()

/-- A frame that charges no stream is accepted exactly if the queue is open and the limit of its family allows it. -/
theorem tryPushLedger_ok_iff {body : Bytes} {family : QueueFamily} (hbody : body ≠ [])
    (hcharges : family.chargesStreamBudget = false) (hmemory : (s.budget gossip peer).total + body.length ≤ usizeMax) :
    (s.tryPushLedger peer body family gossip).2 = .ok () ↔
      s.closed = false ∧ (s.budget gossip peer).total + body.length ≤ peerLimit s.peerCap family := by
  have hcharge : ((s.budget gossip peer).charge s.peerCap s.streamCap body.length family).isSome = true ↔
      (s.budget gossip peer).total + body.length ≤ peerLimit s.peerCap family := by
    rw [PeerBudget.charge, saturatingAdd_eq hmemory, hcharges]
    by_cases hlimit : (s.budget gossip peer).total + body.length > peerLimit s.peerCap family
    · simp [hlimit, Nat.not_le.mpr hlimit]
    · simp [hlimit, Nat.not_lt.mp hlimit]
  rw [tryPushLedger_snd, if_neg hbody, ← hcharge]
  cases s.closed with
  | true => simp
  | false =>
    rw [if_neg Bool.false_ne_true]
    split_ifs with hsome <;> simp [hsome]

/-- The budget after such a frame was accepted. -/
theorem tryPushLedger_total {body : Bytes} {family : QueueFamily}
    (hcharges : family.chargesStreamBudget = false) (hmemory : (s.budget gossip peer).total + body.length ≤ usizeMax)
    (hok : (s.tryPushLedger peer body family gossip).2 = .ok ()) :
    ((s.tryPushLedger peer body family gossip).1.budget gossip peer).total =
      (s.budget gossip peer).total + body.length := by
  obtain ⟨-, charged, hcharged, -, hbudget, -⟩ := tryPushLedger_ok hok
  rw [PeerBudget.charge, saturatingAdd_eq hmemory, hcharges] at hcharged
  rw [hbudget, if_pos ⟨rfl, rfl⟩]
  by_cases hlimit : (s.budget gossip peer).total + body.length > peerLimit s.peerCap family
  · simp [hlimit] at hcharged
  · simp only [hlimit, if_false, Bool.false_eq_true, Option.some.injEq] at hcharged
    rw [← hcharged]

/-- Two such frames are accepted exactly if the queue is open and the limits of their families allow first the one and
then both. -/
theorem acceptsBoth_iff {first second : Bytes × QueueFamily} (hfirst : first.1 ≠ []) (hsecond : second.1 ≠ [])
    (hcharges : first.2.chargesStreamBudget = false) (hcharges' : second.2.chargesStreamBudget = false)
    (hmemory : (s.budget gossip peer).total + first.1.length + second.1.length ≤ usizeMax) :
    s.acceptsBoth peer gossip first second ↔ s.closed = false ∧
      (s.budget gossip peer).total + first.1.length ≤ peerLimit s.peerCap first.2 ∧
      (s.budget gossip peer).total + first.1.length + second.1.length ≤ peerLimit s.peerCap second.2 := by
  have hmemory₁ : (s.budget gossip peer).total + first.1.length ≤ usizeMax := by omega
  have hone : (s.tryPushLedger peer first.1 first.2 gossip).2 = .ok () ↔ _ :=
    tryPushLedger_ok_iff hfirst hcharges hmemory₁
  have hboth : (s.tryPushLedger peer first.1 first.2 gossip).2 = .ok () →
      (((s.tryPushLedger peer first.1 first.2 gossip).1.tryPushLedger peer second.1 second.2 gossip).2 = .ok () ↔
        s.closed = false ∧
        (s.budget gossip peer).total + first.1.length + second.1.length ≤ peerLimit s.peerCap second.2) := by
    intro hok
    obtain ⟨-, -, -, -, -, hclosed, hpeerCap, -⟩ := tryPushLedger_ok hok
    have htotal := tryPushLedger_total hcharges hmemory₁ hok
    rw [tryPushLedger_ok_iff hsecond hcharges' (by rw [htotal]; exact hmemory), htotal, hclosed, hpeerCap]
  unfold acceptsBoth
  constructor
  · intro ⟨hok, hok'⟩
    exact ⟨(hone.mp hok).1, (hone.mp hok).2, ((hboth hok).mp hok').2⟩
  · intro ⟨hopen, hlimit, hlimit'⟩
    have hok := hone.mpr ⟨hopen, hlimit⟩
    exact ⟨hok, (hboth hok).mpr ⟨hopen, hlimit'⟩⟩

/-- A terminal publication and its receipt, each within its reserve, are both accepted in either order on top of
ordinary traffic within the cap exactly if the queue is open and all of it is within the cap and the reserve of the
receipt. -/
theorem reserves_iff (s : QueueState) (peer : PeerId) (gossip : Bool) {publication receipt : Bytes}
    (hordinary : (s.budget gossip peer).total ≤ s.peerCap) (hpublication : publication ≠ [])
    (hreceipt : receipt ≠ []) (hfirst : publication.length ≤ terminalDeliveryReserveBytes)
    (hmemory : (s.budget gossip peer).total + publication.length + receipt.length ≤ usizeMax) :
    (s.acceptsBoth peer gossip (publication, .terminalPublication) (receipt, .deliveryConfirmation) ∧
      s.acceptsBoth peer gossip (receipt, .deliveryConfirmation) (publication, .terminalPublication)) ↔
    s.closed = false ∧ (s.budget gossip peer).total + publication.length + receipt.length ≤
      s.peerCap + terminalReceiptReserveBytes := by
  have hmemory' : (s.budget gossip peer).total + receipt.length + publication.length ≤ usizeMax := by omega
  rw [acceptsBoth_iff hpublication hreceipt rfl rfl hmemory, acceptsBoth_iff hreceipt hpublication rfl rfl hmemory']
  have hreserve : terminalReceiptReserveBytes ≤ terminalDeliveryReserveBytes := by decide
  simp only [peerLimit, saturatingAdd]
  constructor
  · rintro ⟨⟨hopen, -, hlimit⟩, -⟩
    exact ⟨hopen, hlimit.trans (min_le_left _ _)⟩
  · intro ⟨hopen, hlimit⟩
    refine ⟨⟨hopen, le_min ?_ ?_, le_min hlimit hmemory⟩, hopen, le_min ?_ ?_, le_min ?_ ?_⟩
    all_goals omega

end QueueState

namespace Toy

def bodyOf (n : Nat) : Bytes := List.replicate n 1

@[simp] theorem length_bodyOf (n : Nat) : (bodyOf n).length = n := List.length_replicate

theorem bodyOf_ne_nil {n : Nat} (h : 0 < n) : bodyOf n ≠ [] := by
  rw [← List.length_pos_iff, length_bodyOf]
  exact h

/-- A queue filled to its cap of a hundred bytes with ordinary traffic. -/
def full : QueueState := ((QueueState.new 100 100).tryPush (device 1) (bodyOf 100) .publication).1

theorem full_total : (full.budget false (device 1)).total = 100 := by decide

theorem full_peerCap : full.peerCap = 100 := by decide

end Toy

/-- On a full queue the receipt does not follow a terminal publication of a thousand bytes. -/
theorem reserves_shared : (Toy.full.budget false (Toy.device 1)).total ≤ Toy.full.peerCap ∧
    (∀ p, ∀ f ∈ Toy.full.byPriority p, f.family = .publication) ∧
    (Toy.bodyOf 1000).length ≤ terminalDeliveryReserveBytes ∧
    (Toy.bodyOf 100).length ≤ terminalReceiptReserveBytes ∧
    ¬ Toy.full.acceptsBoth (Toy.device 1) false (Toy.bodyOf 1000, .terminalPublication)
      (Toy.bodyOf 100, .deliveryConfirmation) := by
  refine ⟨by rw [Toy.full_total, Toy.full_peerCap], ?_, ?_, ?_, ?_⟩
  · intro p
    cases p <;> decide
  · rw [Toy.length_bodyOf]
    decide
  · rw [Toy.length_bodyOf]
    decide
  · rw [QueueState.acceptsBoth_iff (Toy.bodyOf_ne_nil (by decide)) (Toy.bodyOf_ne_nil (by decide)) rfl rfl
      (by rw [Toy.full_total, Toy.length_bodyOf, Toy.length_bodyOf]; decide)]
    rw [Toy.full_total, Toy.full_peerCap, Toy.length_bodyOf, Toy.length_bodyOf]
    rintro ⟨-, -, hlimit⟩
    exact absurd hlimit (by decide)

theorem reserves_iff_small : Toy.full.acceptsBoth (Toy.device 1) false (Toy.bodyOf 400, .terminalPublication)
    (Toy.bodyOf 100, .deliveryConfirmation) := by
  have hiff := Toy.full.reserves_iff (Toy.device 1) false (by rw [Toy.full_total, Toy.full_peerCap])
    (Toy.bodyOf_ne_nil (by decide : 0 < 400)) (Toy.bodyOf_ne_nil (by decide : 0 < 100))
    (by rw [Toy.length_bodyOf]; decide) (by rw [Toy.full_total, Toy.length_bodyOf, Toy.length_bodyOf]; decide)
  refine (hiff.mpr ⟨by decide, ?_⟩).1
  rw [Toy.full_total, Toy.full_peerCap, Toy.length_bodyOf, Toy.length_bodyOf]
  decide

end IrohRooms
