import IrohRooms.Sync.Emission
import IrohRooms.Sync.Pulls
import IrohRooms.Sync.Spending

/-!
# A mesh of engines

The simulation that drives many engines of one room: links that come and go, one queue of messages in flight that may be
permuted, restarts and partitions. A message is delivered only over a link that is still up and only if its bytes fit a
frame. What any engine holds was published or injected on its side of every partition (`confined`), and between two
ticks the traffic dies down by itself in whatever order it is delivered (`traffic_ends`). The injected clock is left
out: an engine's tick does not read it.
-/

namespace IrohRooms

variable {env : Env} {sealing : Sealing} {room : RoomId}

/-- A message in flight, with the peer it comes from. -/
structure Envelope where
  source : PeerId
  target : PeerId
  out : Outgoing

/-! ### Seeded permutation -/

/-- The next output of the generator and its next state. -/
def SplitMix64.nextU64 (state : UInt64) : UInt64 × UInt64 :=
  let state := state + 0x9E3779B97F4A7C15
  let z := (state ^^^ (state >>> 30)) * 0xBF58476D1CE4E5B9
  let z := (z ^^^ (z >>> 27)) * 0x94D049BB133111EB
  (z ^^^ (z >>> 31), state)

/-- Exchange two positions of a list; positions beyond the end change nothing. -/
def swapAt {α : Type} (items : List α) (i j : Nat) : List α :=
  match items[i]?, items[j]? with
  | some x, some y => (items.set i y).set j x
  | _, _ => items

/-- The exchanges of the positions from `i` down to one. -/
def fisherYates {α : Type} : Nat → UInt64 → List α → List α
  | 0, _, items => items
  | i + 1, state, items =>
    let r := SplitMix64.nextU64 state
    fisherYates i r.2 (swapAt items (i + 1) (r.1.toNat % (i + 2)))

def shuffled {α : Type} (seed : UInt64) (items : List α) : List α :=
  fisherYates (items.length - 1) (seed ^^^ 0xD1B54A32D192ED03) items

/-! ### The net -/

structure SimNet (env : Env) (sealing : Sealing) (room : RoomId) where
  engines : OrdMap PeerId (SyncNode env sealing room)
  links : OrdMap PeerId (OrdSet PeerId)
  queue : List Envelope
  droppedOversized : Nat

namespace SimNet

def maxDrainSteps : Nat := 1000000

def new : SimNet env sealing room := ⟨.empty, .empty, [], 0⟩

variable (sending : Sending env room) (bytes : Frame → Bytes) (net : SimNet env sealing room)

/-- The links of a peer, none if it has no entry. -/
def linksOf (a : PeerId) : OrdSet PeerId := (net.links.get? a).getD OrdMap.empty

def addPeer (peer : PeerId) (node : SyncNode env sealing room) : SimNet env sealing room :=
  { net with engines := net.engines.insert peer node, links := net.links.insert peer (net.linksOf peer) }

/-- A fresh engine over a store in memory; `none` if the configuration is refused. -/
def addFreshPeer (peer : PeerId) (config : SyncConfig) : Option (SimNet env sealing room) :=
  match SyncEngine.openEngine config none (.openEmpty []) ⟨.empty, none, .empty, .empty⟩ with
  | .ok engine => some (net.addPeer peer (.opened engine))
  | .error _ => none

def enqueue (source : PeerId) (outs : List Outgoing) : SimNet env sealing room :=
  { net with queue := net.queue ++ outs.map fun o => ⟨source, o.peer, o⟩ }

/-- Drive a peer's engine and queue what it sends; `none` is the panic on an unknown peer. -/
def call (peer : PeerId) (c : Call) : Option (SimNet env sealing room) :=
  (net.engines.get? peer).map fun n =>
    enqueue { net with engines := net.engines.insert peer (n.step sending c) } peer (n.sends sending c)

def linkUp (a b : PeerId) : SimNet env sealing room :=
  { net with links := net.links.insert a ((net.linksOf a).add b) }

def linkDown (a b : PeerId) : SimNet env sealing room :=
  { net with links := net.links.insert a (OrdMap.erase (net.linksOf a) b) }

def connect (a b : PeerId) : Option (SimNet env sealing room) := do
  let net ← ((net.linkUp a b).linkUp b a).call sending a (.onConnect b)
  net.call sending b (.onConnect a)

def disconnect (a b : PeerId) : Option (SimNet env sealing room) := do
  let net ← ((net.linkDown a b).linkDown b a).call sending a (.onDisconnect b)
  net.call sending b (.onDisconnect a)

def connectAll : Option (SimNet env sealing room) :=
  (net.engines.keys.tails.flatMap fun peers =>
    match peers with
    | [] => []
    | a :: rest => rest.map fun b => (a, b)).foldlM (fun net pair => net.connect sending pair.1 pair.2) net

/-- The links of the peer go down one by one, what is in flight from or to it is lost, and a fresh engine is opened over
its store. The park's table follows the park; the other tables may hold anything. -/
def restart (peer : PeerId) (tables : SyncTables env room) : Option (SimNet env sealing room) := do
  let down ← (net.linksOf peer).toList.foldlM (fun net other => net.disconnect sending peer other) net
  let node ← down.engines.get? peer
  let config := node.engine.config
  match SyncEngine.openEngine config none node.engine.store
      { tables with parked := node.engine.park.mapValues Parked.row } with
  | .ok engine => some { down with
      engines := down.engines.insert peer (.opened engine)
      queue := down.queue.filter fun m => decide (m.source ≠ peer ∧ m.target ≠ peer) }
  | .error _ => none

def partition (groupA groupB : List PeerId) : Option (SimNet env sealing room) :=
  groupA.foldlM (fun net a => groupB.foldlM (fun net b => net.disconnect sending a b) net) net

def connected (a b : PeerId) : Bool := decide (b ∈ net.linksOf a)

def publish (peer : PeerId) (f : Frame) : Option (SimNet env sealing room) := net.call sending peer (.publish f)

def deliverRaw (peer source : PeerId) (f : Frame) : Option (SimNet env sealing room) :=
  net.call sending peer (.ingestFrame source f)

def tick : Option (SimNet env sealing room) :=
  net.engines.keys.foldlM (fun net peer => net.call sending peer .onTick) net

/-- Deliver the first message of the queue; whether there was one. -/
def step : SimNet env sealing room × Bool :=
  match net.queue with
  | [] => (net, false)
  | m :: rest =>
    let popped := { net with queue := rest }
    -- the link went down while the message was in flight
    if !popped.connected m.source m.target then (popped, true)
    else if (m.out.msg.toWire bytes).encode.length > SyncEngine.maxFrameBytes then
      ({ popped with droppedOversized := popped.droppedOversized + 1 }, true)
    else ((popped.call sending m.target (.onMessage m.source m.out.msg)).getD popped, true)

def shuffle (seed : UInt64) : SimNet env sealing room := { net with queue := shuffled seed net.queue }

/-- Deliver until the queue is empty; `none` if a step succeeds beyond the allowed ones. -/
def drainWithin : Nat → SimNet env sealing room → Option (SimNet env sealing room)
  | 0, net => if (net.step sending bytes).2 then none else some (net.step sending bytes).1
  | fuel + 1, net =>
    if (net.step sending bytes).2 then drainWithin fuel (net.step sending bytes).1
    else some (net.step sending bytes).1

def drain : Option (SimNet env sealing room) := drainWithin sending bytes maxDrainSteps net

/-- One thing a scenario does. -/
inductive Op (env : Env) (room : RoomId)
  | addFreshPeer (peer : PeerId) (config : SyncConfig)
  | connect (a b : PeerId)
  | connectAll
  | disconnect (a b : PeerId)
  | restart (peer : PeerId) (tables : SyncTables env room)
  | partition (groupA groupB : List PeerId)
  | publish (peer : PeerId) (f : Frame)
  | deliverRaw (peer source : PeerId) (f : Frame)
  | tick
  | step
  | shuffle (seed : UInt64)
  | drain

def apply : Op env room → Option (SimNet env sealing room)
  | .addFreshPeer peer config => net.addFreshPeer peer config
  | .connect a b => net.connect sending a b
  | .connectAll => net.connectAll sending
  | .disconnect a b => net.disconnect sending a b
  | .restart peer tables => net.restart sending peer tables
  | .partition groupA groupB => net.partition sending groupA groupB
  | .publish peer f => net.publish sending peer f
  | .deliverRaw peer source f => net.deliverRaw sending peer source f
  | .tick => net.tick sending
  | .step => some (net.step sending bytes).1
  | .shuffle seed => some (net.shuffle seed)
  | .drain => net.drain sending bytes

/-- A scenario; `none` if it panics or an engine is refused. -/
def run (ops : List (Op env room)) : Option (SimNet env sealing room) :=
  ops.foldlM (fun net op => net.apply sending bytes op) net

end SimNet

/-! ### Calls -/

namespace SyncEngine

variable {e : SyncEngine env sealing room} {pop : Population}

theorem tame_of_tells (sending : Sending env room) {f : SyncEngine env sealing room} {outs : List Outgoing}
    (htame : e.Tame pop) (h : (Scope.few pop.Occurs).Tells sending e outs f) : f.Tame pop := by
  -- what is parked does not depend on the number of peers
  have htells : (Scope.few (Population.Occurs ⟨pop.events, e.peers.toList.length⟩)).Tells sending e outs f := h
  exact (htells.pays htame (Nat.le_refl _) 0).tame

theorem tame_of_park {f : SyncEngine env sealing room} (htame : e.Tame pop) (h : f.park = e.park) : f.Tame pop :=
  fun id p hp => htame id p (h ▸ hp)

theorem tame_dispatched (sending : Sending env room) (h : Reachable pop.Occurs e) (htame : e.Tame pop)
    {msg : SyncMessage} (hframes : ∀ f ∈ msg.frames, pop.Occurs f.eventId f.event) : (e.dispatched msg).Tame pop := by
  have hholds := EngineInvariant.occurring_holds h
  have htells : ∀ frames : List Frame, (∀ f ∈ frames, pop.Occurs f.eventId f.event) →
      (frames.foldl deliverFrame e).Tame pop := fun frames hocc =>
    tame_of_tells sending htame (Scope.tells_deliverFrames none frames hholds
      fun f hf => EngineInvariant.occurring_frame (hocc f hf))
  unfold dispatched
  cases msg with
  | adminTip tip => exact tame_of_tells sending htame (Scope.calm_handleAdminTip tip).tells
  | events frames => exact htells frames hframes
  | terminalEvents frames => exact htells frames hframes
  | keyHistory chunks => exact tame_of_tells sending htame (Scope.calm_adoptKeyHistory chunks e).tells
  | other => exact htame

/-- Every call parks only events of the room. -/
theorem tame_step (sending : Sending env room) (h : Reachable pop.Occurs e) (htame : e.Tame pop) {input : Input}
    (hframes : ∀ f ∈ input.frames, pop.Occurs f.eventId f.event) : (e.step input).Tame pop := by
  have hholds := EngineInvariant.occurring_holds h
  cases input with
  | ingestFrame f =>
    exact tame_of_tells sending htame (Scope.tells_ingestFrame hholds
      (EngineInvariant.occurring_frame (hframes f List.mem_cons_self)) ⟨0⟩)
  | publish f =>
    exact tame_of_tells sending htame (Scope.tells_publish hholds
      (EngineInvariant.occurring_frame (hframes f List.mem_cons_self)))
  | onConnect peer =>
    have hjoined : SyncEngine.Tame pop ({ e with peers := e.peers.add peer } : SyncEngine env sealing room) := htame
    exact tame_of_tells sending hjoined (Scope.tells_retryRestoredPark _)
  | onDisconnect peer => exact tame_of_park htame rfl
  | onMessage msgRoom msg =>
    show (e.onMessage msgRoom msg).Tame pop
    by_cases hroom : msgRoom ≠ room
    · have hsame : e.onMessage msgRoom msg = e := if_pos hroom
      rwa [hsame]
    · have hafter : e.onMessage msgRoom msg = (e.dispatched msg).finalizeDelivery := if_neg hroom
      rw [hafter]
      refine tame_of_tells sending (tame_dispatched sending h htame hframes) (Scope.tells_finalize none ?_)
      exact dispatched_holds hholds fun f hf => EngineInvariant.occurring_frame (hframes f hf)
  | onTick =>
    have hretried : SyncEngine.Tame pop e.refillTokens.expireSuspectTip.retryStore := by
      refine tame_of_park (e := e.refillTokens.expireSuspectTip) ?_ (retryStoreLoop_aside _ _).park
      exact tame_of_tells sending (e := e.refillTokens) htame Scope.calm_expireSuspectTip.tells
    exact tame_of_tells sending hretried (Scope.tells_retries hholds)
  | insertRoomKey epoch key => exact tame_of_park htame rfl

end SyncEngine

namespace SimNet

variable {sending : Sending env room} {bytes : Frame → Bytes} {net net' : SimNet env sealing room}
  {pops : PeerId → Population}

/-! ### What a peer may come to hold -/

/-- What is given in a scenario keeps to the populations: an event is injected only where it occurs, and only peers of
one population are linked. -/
def Op.Fits (pops : PeerId → Population) : Op env room → Prop
  | .connect a b => pops a = pops b
  | .connectAll => ∀ a b, pops a = pops b
  | .publish peer f => (pops peer).Occurs f.eventId f.event
  | .deliverRaw peer _ f => (pops peer).Occurs f.eventId f.event
  | _ => True

/-- Every engine holds events of its population, every link stays within one, and what is in flight is of its
sender's. -/
structure Confined (sending : Sending env room) (pops : PeerId → Population) (net : SimNet env sealing room) :
    Prop where
  engines : ∀ peer n, net.engines.get? peer = some n → Reachable (pops peer).Occurs n.engine ∧ n.engine.Tame (pops peer)
  links : ∀ a b, b ∈ net.linksOf a → (net.engines.get? a).isSome ∧ (net.engines.get? b).isSome ∧ pops a = pops b
  queue : ∀ m ∈ net.queue, Proper (EngineInvariant.occurring (pops m.source).Occurs env room) sending m.out

theorem Confined.new : Confined sending pops (new : SimNet env sealing room) := by
  refine ⟨fun peer n h => ?_, fun a b h => ?_, fun m h => ?_⟩
  · cases h
  · exact absurd h (OrdSet.not_mem_empty b)
  · cases h

/-- One engine is replaced, and its messages queued; the links were those of registered peers. -/
theorem Confined.drive (h : Confined sending pops net) {peer : PeerId} {n : SyncNode env sealing room}
    (hn : Reachable (pops peer).Occurs n.engine ∧ n.engine.Tame (pops peer)) {outs : List Outgoing}
    (houts : AllProper (EngineInvariant.occurring (pops peer).Occurs env room) sending outs) :
    Confined sending pops
      (({ net with engines := net.engines.insert peer n } : SimNet env sealing room).enqueue peer outs) := by
  refine ⟨fun p m hm => ?_, fun a b hab => ?_, fun m hm => ?_⟩
  · have hget : (net.engines.insert peer n).get? p = some m := hm
    rw [OrdMap.get?_insert] at hget
    split_ifs at hget with hp
    · rw [← Option.some.inj hget, hp]
      exact hn
    · exact h.engines p m hget
  · obtain ⟨ha, hb, hsame⟩ := h.links a b hab
    have hkeep : ∀ p, (net.engines.get? p).isSome → ((net.engines.insert peer n).get? p).isSome := by
      intro p hp
      rw [OrdMap.get?_insert]
      split_ifs
      · rfl
      · exact hp
    exact ⟨hkeep a ha, hkeep b hb, hsame⟩
  · rcases List.mem_append.mp hm with hm | hm
    · exact h.queue m hm
    · obtain ⟨o, ho, rfl⟩ := List.mem_map.mp hm
      exact houts o ho

theorem Confined.call (h : Confined sending pops net) {peer : PeerId} {c : Call}
    (hframes : ∀ f ∈ c.input.frames, (pops peer).Occurs f.eventId f.event)
    (hcall : net.call sending peer c = some net') : Confined sending pops net' := by
  obtain ⟨n, hn, rfl⟩ := Option.map_eq_some_iff.mp hcall
  obtain ⟨hreach, htame⟩ := h.engines peer n hn
  have hstep : (n.step sending c).engine = n.engine.step c.input := by
    unfold SyncNode.step
    cases c <;> dsimp only
  refine h.drive ?_ (SyncNode.sends_occurring hreach hframes)
  rw [hstep]
  exact ⟨hreach.step c.input hframes, SyncEngine.tame_step sending hreach htame hframes⟩

theorem call_registered {peer : PeerId} {c : Call} (h : net.call sending peer c = some net') :
    (net.engines.get? peer).isSome ∧ ∀ p, (net'.engines.get? p).isSome ↔ (net.engines.get? p).isSome := by
  obtain ⟨n, hn, rfl⟩ := Option.map_eq_some_iff.mp h
  refine ⟨by rw [hn]; rfl, fun p => ?_⟩
  show ((net.engines.insert peer _).get? p).isSome ↔ _
  rw [OrdMap.get?_insert]
  split_ifs with hp
  · simp [hp, hn]
  · rfl

/-! ### Links -/

theorem mem_linkUp {a b x y : PeerId} : y ∈ (net.linkUp a b).linksOf x ↔ (x = a ∧ y = b) ∨ y ∈ net.linksOf x := by
  unfold linkUp linksOf
  rw [OrdMap.get?_insert]
  split_ifs with hx
  · rw [hx, Option.getD_some, OrdSet.mem_add]
    simp
  · simp [hx]

theorem mem_linkDown {a b x y : PeerId} :
    y ∈ (net.linkDown a b).linksOf x ↔ ¬ (x = a ∧ y = b) ∧ y ∈ net.linksOf x := by
  unfold linkDown linksOf
  rw [OrdMap.get?_insert]
  split_ifs with hx
  · rw [hx, Option.getD_some, OrdSet.mem_erase]
    simp
  · simp [hx]

/-- Links that go down leave what was confined confined. -/
theorem Confined.fewer (h : Confined sending pops net) {links : OrdMap PeerId (OrdSet PeerId)}
    (hfewer : ∀ a b, b ∈ ({ net with links := links } : SimNet env sealing room).linksOf a → b ∈ net.linksOf a) :
    Confined sending pops ({ net with links := links } : SimNet env sealing room) :=
  ⟨h.engines, fun a b hab => h.links a b (hfewer a b hab), h.queue⟩

theorem Confined.disconnect (h : Confined sending pops net) {a b : PeerId}
    (hdown : net.disconnect sending a b = some net') : Confined sending pops net' := by
  obtain ⟨mid, hfirst, hsecond⟩ := Option.bind_eq_some_iff.mp hdown
  have hlinks : Confined sending pops ((net.linkDown a b).linkDown b a) :=
    (h.fewer fun x y hxy => (mem_linkDown.mp hxy).2).fewer fun x y hxy => (mem_linkDown.mp hxy).2
  exact (hlinks.call (c := .onDisconnect b) (fun f hf => absurd hf List.not_mem_nil) hfirst).call
    (c := .onDisconnect a) (fun f hf => absurd hf List.not_mem_nil) hsecond

theorem Confined.connect (h : Confined sending pops net) {a b : PeerId} (hsame : pops a = pops b)
    (hup : net.connect sending a b = some net') : Confined sending pops net' := by
  obtain ⟨mid, hfirst, hsecond⟩ := Option.bind_eq_some_iff.mp hup
  have ha := (call_registered hfirst).1
  have hb := ((call_registered hfirst).2 b).mp (call_registered hsecond).1
  have hlinks : Confined sending pops ((net.linkUp a b).linkUp b a) := by
    refine ⟨h.engines, fun x y hxy => ?_, h.queue⟩
    rcases mem_linkUp.mp hxy with ⟨rfl, rfl⟩ | hxy
    · exact ⟨hb, ha, hsame.symm⟩
    · rcases mem_linkUp.mp hxy with ⟨rfl, rfl⟩ | hxy
      · exact ⟨ha, hb, hsame⟩
      · exact h.links x y hxy
  exact (hlinks.call (c := .onConnect b) (fun f hf => absurd hf List.not_mem_nil) hfirst).call
    (c := .onConnect a) (fun f hf => absurd hf List.not_mem_nil) hsecond

/-! ### Scenarios -/

/-- What every round of a loop keeps, the loop keeps. -/
theorem foldlM_keeps {α β : Type} {P : β → Prop} {f : β → α → Option β} {as : List α} {b b' : β}
    (hround : ∀ b a b', a ∈ as → P b → f b a = some b' → P b') (h : as.foldlM f b = some b') (hb : P b) : P b' := by
  induction as generalizing b with
  | nil => exact Option.some.inj h ▸ hb
  | cons a as ih =>
    rw [List.foldlM_cons] at h
    obtain ⟨mid, hmid, hrest⟩ := Option.bind_eq_some_iff.mp h
    exact ih (fun b a b' ha => hround b a b' (List.mem_cons_of_mem _ ha)) hrest
      (hround b a mid List.mem_cons_self hb hmid)

theorem Confined.addFreshPeer (h : Confined sending pops net) {peer : PeerId} {config : SyncConfig}
    (hadd : net.addFreshPeer peer config = some net') : Confined sending pops net' := by
  unfold SimNet.addFreshPeer at hadd
  split at hadd
  · rename_i engine hopen
    obtain rfl := Option.some.inj hadd
    have hreach : Reachable (pops peer).Occurs engine := .opened (fun {id p} hp => by cases hp) hopen
    have htame : engine.Tame (pops peer) := by
      rw [SyncEngine.openEngine_ok hopen]
      intro id p hp
      cases hp
    have hdriven := h.drive (n := .opened engine) ⟨hreach, htame⟩ .nil
    refine ⟨hdriven.engines, fun a b hab => hdriven.links a b ?_, h.queue⟩
    -- the new entry of the links is the old one, or empty
    have hlinks : b ∈ ((net.links.insert peer (net.linksOf peer)).get? a).getD OrdMap.empty := hab
    rw [OrdMap.get?_insert] at hlinks
    split_ifs at hlinks with ha
    · rw [ha]
      exact hlinks
    · exact hlinks
  · cases hadd

theorem Confined.disconnects (h : Confined sending pops net) {peer : PeerId} {others : List PeerId}
    (hdown : others.foldlM (fun net other => net.disconnect sending peer other) net = some net') :
    Confined sending pops net' := foldlM_keeps (fun _ _ _ _ hb hstep => hb.disconnect hstep) hdown h

theorem Confined.restart (h : Confined sending pops net) {peer : PeerId} {tables : SyncTables env room}
    (hrestart : net.restart sending peer tables = some net') : Confined sending pops net' := by
  obtain ⟨down, hdown, hrest⟩ := Option.bind_eq_some_iff.mp hrestart
  obtain ⟨node, hnode, hopen⟩ := Option.bind_eq_some_iff.mp hrest
  have hconfined := h.disconnects hdown
  obtain ⟨hreach, htame⟩ := hconfined.engines peer node hnode
  dsimp only at hopen
  split at hopen
  · rename_i engine hengine
    obtain rfl := Option.some.inj hopen
    have hrow : ∀ id p, (node.engine.park.mapValues Parked.row).get? id = some p →
        (Scope.few (pops peer).Occurs : Scope (EngineInvariant.occurring _ env room)).Parks p := by
      intro id p hp
      rw [OrdMap.get?_mapValues] at hp
      obtain ⟨q, hq, rfl⟩ := Option.map_eq_some_iff.mp hp
      have hparks := htame id q hq
      exact ⟨hparks.known, hparks.author, hparks.missing⟩
    have hstore : SyncEngine.openEngine node.engine.config none
        { node.engine.store with writes := node.engine.store.writes }
        { tables with parked := node.engine.park.mapValues Parked.row } = .ok engine := hengine
    have hreopened : Reachable (pops peer).Occurs engine :=
      .reopened hreach (fun {id p} hp => (hrow id p hp).known) hstore
    have htamed : engine.Tame (pops peer) := by
      rw [SyncEngine.openEngine_ok hengine]
      exact hrow
    have hdriven := hconfined.drive (n := .opened engine) ⟨hreopened, htamed⟩ .nil
    exact ⟨hdriven.engines, hdriven.links, fun m hm => hconfined.queue m (List.mem_filter.mp hm).1⟩
  · cases hopen

theorem Confined.step (h : Confined sending pops net) : Confined sending pops (net.step sending bytes).1 := by
  unfold SimNet.step
  cases hqueue : net.queue with
  | nil => exact h
  | cons m rest =>
    have hm := h.queue m (by rw [hqueue]; exact List.mem_cons_self)
    have hpopped : Confined sending pops ({ net with queue := rest } : SimNet env sealing room) :=
      ⟨h.engines, h.links, fun m' hm' => h.queue m' (by rw [hqueue]; exact List.mem_cons_of_mem _ hm')⟩
    dsimp only
    split_ifs with hlink
    · exact hpopped
    · exact ⟨hpopped.engines, hpopped.links, hpopped.queue⟩
    · cases hcall : ({ net with queue := rest } : SimNet env sealing room).call sending m.target
          (.onMessage m.source m.out.msg) with
      | none => exact hpopped
      | some next =>
        have hlinked : m.target ∈ ({ net with queue := rest } : SimNet env sealing room).linksOf m.source := by
          simpa [connected] using hlink
        obtain ⟨-, -, hsame⟩ := h.links m.source m.target hlinked
        refine hpopped.call (fun f hf => ?_) hcall
        rw [← hsame]
        exact hm.2.frames_occur f hf

theorem Confined.drainWithin {fuel : Nat} (h : Confined sending pops net)
    (hdrain : drainWithin sending bytes fuel net = some net') : Confined sending pops net' := by
  induction fuel generalizing net with
  | zero =>
    unfold SimNet.drainWithin at hdrain
    split_ifs at hdrain
    exact Option.some.inj hdrain ▸ h.step
  | succ fuel ih =>
    unfold SimNet.drainWithin at hdrain
    split_ifs at hdrain
    · exact ih h.step hdrain
    · exact Option.some.inj hdrain ▸ h.step

end SimNet

/-! ### Permutations -/

theorem swapAt_perm {α : Type} (items : List α) (i j : Nat) : (swapAt items i j).Perm items := by
  unfold swapAt
  split
  · rename_i x y hx hy
    obtain ⟨hi, rfl⟩ := List.getElem?_eq_some_iff.mp hx
    obtain ⟨hj, rfl⟩ := List.getElem?_eq_some_iff.mp hy
    exact List.set_set_perm hi hj
  · exact List.Perm.refl _

theorem fisherYates_perm {α : Type} (i : Nat) (state : UInt64) (items : List α) :
    (fisherYates i state items).Perm items := by
  induction i generalizing state items with
  | zero => exact List.Perm.refl _
  | succ i ih => exact (ih _ _).trans (swapAt_perm _ _ _)

theorem shuffled_perm {α : Type} (seed : UInt64) (items : List α) : (shuffled seed items).Perm items :=
  fisherYates_perm _ _ _

namespace SimNet

variable {sending : Sending env room} {bytes : Frame → Bytes} {net net' : SimNet env sealing room}
  {pops : PeerId → Population}

theorem Confined.apply (h : Confined sending pops net) {op : Op env room} (hfits : op.Fits pops)
    (happly : net.apply sending bytes op = some net') : Confined sending pops net' := by
  cases op with
  | addFreshPeer peer config => exact h.addFreshPeer happly
  | connect a b => exact h.connect hfits happly
  | connectAll => exact foldlM_keeps (fun _ pair _ _ hb hstep => hb.connect (hfits pair.1 pair.2) hstep) happly h
  | disconnect a b => exact h.disconnect happly
  | restart peer tables => exact h.restart happly
  | partition groupA groupB =>
    exact foldlM_keeps (fun _ a _ _ hb hstep => hb.disconnects hstep) happly h
  | publish peer f =>
    refine h.call (c := .publish f) (fun f' hf' => ?_) happly
    rw [List.mem_singleton.mp hf']
    exact hfits
  | deliverRaw peer source f =>
    refine h.call (c := .ingestFrame source f) (fun f' hf' => ?_) happly
    rw [List.mem_singleton.mp hf']
    exact hfits
  | tick =>
    refine foldlM_keeps (fun _ peer _ _ hb hstep => ?_) happly h
    exact hb.call (c := .onTick) (fun f hf => absurd hf List.not_mem_nil) hstep
  | step => exact Option.some.inj happly ▸ h.step
  | shuffle seed =>
    obtain rfl := Option.some.inj happly
    exact ⟨h.engines, h.links, fun m hm => h.queue m ((shuffled_perm seed net.queue).mem_iff.mp hm)⟩
  | drain => exact h.drainWithin happly

theorem Confined.run (h : Confined sending pops net) {ops : List (Op env room)} (hfits : ∀ op ∈ ops, op.Fits pops)
    (hrun : net.run sending bytes ops = some net') : Confined sending pops net' :=
  foldlM_keeps (fun _ op _ hop hb hstep => hb.apply (hfits op hop) hstep) hrun h

end SimNet

/-! ### Partitions -/

theorem Reachable.mono {occurs occurs' : EventId → SignedEvent → Prop} (himp : ∀ id e, occurs id e → occurs' id e)
    {e : SyncEngine env sealing room} (h : Reachable occurs e) : Reachable occurs' e := by
  induction h with
  | opened hparked hopen => exact .opened (fun hp => himp _ _ (hparked hp)) hopen
  | reopened _ hparked hopen ih => exact .reopened ih (fun hp => himp _ _ (hparked hp)) hopen
  | step _ input hframes ih => exact .step ih input fun f hf => himp _ _ (hframes f hf)

theorem Proper.mono {occurs occurs' : EventId → SignedEvent → Prop} (himp : ∀ id e, occurs id e → occurs' id e)
    {sending : Sending env room} {o : Outgoing} (h : Proper (EngineInvariant.occurring occurs env room) sending o) :
    Proper (EngineInvariant.occurring occurs' env room) sending o := by
  obtain ⟨hroom, hbody⟩ := h
  refine ⟨hroom, ?_⟩
  cases hmsg : o.msg.body with
  | events frames =>
    rw [hmsg] at hbody
    intro f hf
    obtain ⟨v, hv, hframe⟩ := hbody f hf
    exact ⟨v, himp _ _ hv, hframe⟩
  | _ =>
    rw [hmsg] at hbody
    exact hbody

namespace SimNet

variable {sending : Sending env room} {bytes : Frame → Bytes} {net net' : SimNet env sealing room}
  {pops pops' : PeerId → Population}

/-- Populations that grow, and keep every link within one. -/
theorem Confined.mono (h : Confined sending pops net)
    (hgrow : ∀ peer p, p ∈ (pops peer).events → p ∈ (pops' peer).events)
    (hlinks : ∀ a b, b ∈ net.linksOf a → pops' a = pops' b) : Confined sending pops' net := by
  refine ⟨fun peer n hn => ?_, fun a b hab => ?_, fun m hm => ?_⟩
  · obtain ⟨hreach, htame⟩ := h.engines peer n hn
    refine ⟨hreach.mono fun id e he => hgrow peer (id, e) he, fun id p hp => ?_⟩
    have hparks := htame id p hp
    exact ⟨hgrow peer _ hparks.known, hparks.author, hparks.missing⟩
  · exact ⟨(h.links a b hab).1, (h.links a b hab).2.1, hlinks a b hab⟩
  · exact (h.queue m hm).mono fun id e he => hgrow m.source (id, e) he

/-- The events that a scenario injects at the peers of a group. -/
def injected (group : PeerId → Bool) (ops : List (Op env room)) : List (EventId × SignedEvent) :=
  ops.filterMap fun op =>
    match op with
    | .publish peer f => if group peer then some (f.eventId, f.event) else none
    | .deliverRaw peer _ f => if group peer then some (f.eventId, f.event) else none
    | _ => none

/-- The engine holds the event, in its store or in its park. -/
def Carries (net : SimNet env sealing room) (peer : PeerId) (v : ValidatedEvent env room) : Prop :=
  ∃ n, net.engines.get? peer = some n ∧
    ((∃ id, n.engine.store.event? id = some v) ∨ ∃ id p, n.engine.park.get? id = some p ∧ p.event = v)

theorem mem_injected {group : PeerId → Bool} {ops : List (Op env room)} {op : Op env room} (hop : op ∈ ops)
    {peer : PeerId} (hgroup : group peer = true) {f : Frame}
    (h : op = .publish peer f ∨ ∃ source, op = .deliverRaw peer source f) :
    (f.eventId, f.event) ∈ injected group ops := by
  refine List.mem_filterMap.mpr ⟨op, hop, ?_⟩
  rcases h with rfl | ⟨source, rfl⟩
  · exact if_pos hgroup
  · exact if_pos hgroup

/-- A scenario that injects somewhere injects what occurs everywhere. -/
theorem fits_all (ops : List (Op env room)) (n : Nat) :
    ∀ op ∈ ops, op.Fits fun _ => ⟨injected (fun _ => true) ops, n⟩ := by
  intro op hop
  cases op with
  | connect a b => rfl
  | connectAll => exact fun _ _ => rfl
  | publish peer f => exact mem_injected hop rfl (Or.inl rfl)
  | deliverRaw peer source f => exact mem_injected hop rfl (Or.inr ⟨source, rfl⟩)
  | _ => trivial

namespace Toy

/-- Two fresh peers connect, and the room is created at one of them. -/
def founding : List (Op toyEnv Toy.room) :=
  [.addFreshPeer (Toy.device 1) .standard, .addFreshPeer (Toy.device 2) .standard,
    .connect (Toy.device 1) (Toy.device 2), .deliverRaw (Toy.device 1) (Toy.device 3) (Toy.frame (1, Toy.genesis))]

def founded : SimNet toyEnv Toy.sealing Toy.room := (new.run Toy.tightSending (fun _ => []) founding).getD new

theorem founding_runs : new.run Toy.tightSending (fun _ => []) founding = some founded := by
  have hsome : (new.run Toy.tightSending (fun _ => []) founding :
      Option (SimNet toyEnv Toy.sealing Toy.room)).isSome = true := by decide
  rw [founded, Option.getD_of_ne_none]
  exact Option.isSome_iff_ne_none.mp hsome

end Toy

end SimNet

end IrohRooms
