import IrohRooms.Net.PeerTable
import IrohRooms.Net.Links
import IrohRooms.Sync.Pulls

/-!
# The engine's peers

The pump turns connection events into calls of the engine. A device that comes up gets its handshake, put off while it
is provisional and has proven nothing; one that goes down leaves the set of deferred handshakes, and the engine's peers
only if the event says that it was connected. So a device whose handshake ran and that goes down from another state
stays among the peers, and that is the only way one does.
-/

namespace IrohRooms

variable {env : Env} {sealing : Sealing} {room : RoomId} {isPoint : DeviceKey → Bool}

/-- What the pump keeps between events. -/
structure Driver (env : Env) (sealing : Sealing) (room : RoomId) where
  node : SyncNode env sealing room
  deferred : OrdSet PeerId
  bootstrapProof : Option (RoomId × ShortId × ShortId)

/-- An event with the link tables as they are when it is handled. -/
structure Handled (isPoint : DeviceKey → Bool) where
  links : Links isPoint
  event : ConnEvent isPoint

namespace Handled

variable (h : Handled isPoint)

/-- The device is provisional and has proven nothing. -/
def unproven : Bool := h.links.isProvisional h.event.device && !h.links.isCapabilityProven h.event.device

/-- The device comes up and its handshake is run at once. -/
def greets : Prop := h.event.toState = .connected ∧ h.unproven = false

/-- The device goes down. -/
def drops : Prop := h.event.toState = .offline ∨ h.event.toState = .unauthorized

instance : Decidable h.greets := inferInstanceAs (Decidable (_ ∧ _))

instance : Decidable h.drops := inferInstanceAs (Decidable (_ ∨ _))

end Handled

namespace Driver

variable (sending : Sending env room)

/-- Handle an event; also what is to be routed. -/
def handleConnEvent (p : Driver env sealing room) (h : Handled isPoint) : Driver env sealing room × List Outgoing :=
  let peer : PeerId := h.event.device.val
  match h.event.toState with
  | .connected =>
    let present : List Outgoing :=
      p.bootstrapProof.elim [] fun q => [⟨peer, ⟨q.1, .proveCapability q.2.1 q.2.2⟩, false⟩]
    if h.unproven then ({ p with deferred := p.deferred.add peer }, present)
    else ({ p with node := p.node.step sending (.onConnect peer) }, present ++ p.node.sends sending (.onConnect peer))
  | .offline | .unauthorized =>
    let p := { p with deferred := OrdMap.erase p.deferred peer }
    if h.event.fromState = .connected then ({ p with node := p.node.step sending (.onDisconnect peer) }, [])
    else (p, [])
  | .connecting => (p, [])

def run (p : Driver env sealing room) (events : List (Handled isPoint)) : Driver env sealing room :=
  events.foldl (fun p h => (handleConnEvent sending p h).1) p

variable {sending} {p : Driver env sealing room} {h : Handled isPoint}

/-- An event puts its own device among the peers, if it runs the handshake, or takes it from them, if it goes down
from `connected`. -/
theorem mem_peers_handleConnEvent {peer : PeerId} :
    peer ∈ (handleConnEvent sending p h).1.node.engine.peers ↔
      (peer = h.event.device.val ∧ h.greets) ∨
      (peer ∈ p.node.engine.peers ∧ ¬ (peer = h.event.device.val ∧ h.drops ∧ h.event.fromState = .connected)) := by
  have hleft : peer ∈ OrdMap.erase p.node.engine.peers h.event.device.val ↔
      peer ∈ p.node.engine.peers ∧ ¬ peer = h.event.device.val := by
    rw [OrdSet.mem_erase, and_comm]
  unfold handleConnEvent Handled.greets Handled.drops
  cases hstate : h.event.toState with
  | connecting => simp
  | connected =>
    by_cases hunproven : h.unproven = true
    · simp [hunproven]
    · have hpeers : (p.node.step sending (.onConnect h.event.device.val)).engine.peers =
          p.node.engine.peers.add h.event.device.val := SyncEngine.onConnect_peers ..
      simp [hunproven, hpeers]
  | offline =>
    by_cases hfrom : h.event.fromState = .connected
    · have hpeers : (p.node.step sending (.onDisconnect h.event.device.val)).engine.peers =
          OrdMap.erase p.node.engine.peers h.event.device.val := rfl
      simp [hfrom, hpeers, hleft]
    · simp [hfrom]
  | unauthorized =>
    by_cases hfrom : h.event.fromState = .connected
    · have hpeers : (p.node.step sending (.onDisconnect h.event.device.val)).engine.peers =
          OrdMap.erase p.node.engine.peers h.event.device.val := rfl
      simp [hfrom, hpeers, hleft]
    · simp [hfrom]

theorem mem_deferred_handleConnEvent {peer : PeerId} (hpeer : peer ∈ (handleConnEvent sending p h).1.deferred) :
    (peer = h.event.device.val ∧ h.event.toState = .connected) ∨
      (peer ∈ p.deferred ∧ ¬ (peer = h.event.device.val ∧ h.drops)) := by
  have hleft : peer ∈ OrdMap.erase p.deferred h.event.device.val → peer ∈ p.deferred ∧ ¬ peer = h.event.device.val := by
    rw [OrdSet.mem_erase]
    exact And.symm
  unfold handleConnEvent at hpeer
  unfold Handled.drops
  cases hstate : h.event.toState with
  | connecting =>
    rw [hstate] at hpeer
    exact .inr ⟨hpeer, by simp⟩
  | connected =>
    rw [hstate] at hpeer
    dsimp only at hpeer
    split_ifs at hpeer
    · rcases OrdSet.mem_add.mp hpeer with hsame | hmem
      · exact .inl ⟨hsame, rfl⟩
      · exact .inr ⟨hmem, by simp⟩
    · exact .inr ⟨hpeer, by simp⟩
  | offline =>
    rw [hstate] at hpeer
    dsimp only at hpeer
    have hmem : peer ∈ OrdMap.erase p.deferred h.event.device.val := by split_ifs at hpeer <;> exact hpeer
    exact .inr ⟨(hleft hmem).1, fun hboth => (hleft hmem).2 hboth.1⟩
  | unauthorized =>
    rw [hstate] at hpeer
    dsimp only at hpeer
    have hmem : peer ∈ OrdMap.erase p.deferred h.event.device.val := by split_ifs at hpeer <;> exact hpeer
    exact .inr ⟨(hleft hmem).1, fun hboth => (hleft hmem).2 hboth.1⟩

/-! ### Runs -/

section Run

variable (sending) (p)

/-- The state a device was last reported in. -/
def latest (device : EndpointId isPoint) (events : List (Handled isPoint)) : Option PeerConnState :=
  ConnChain.last (Broadcast.of device (events.map Handled.event))

/-- The handshake of a device was run since it last went down. -/
def greeted (device : EndpointId isPoint) (events : List (Handled isPoint)) : Bool :=
  events.foldl (fun done h => if h.event.device ≠ device then done else if h.greets then true
    else if h.drops then false else done) false

/-- After every event, a device last reported down is neither a peer nor waits for its handshake. -/
def Tracks (events : List (Handled isPoint)) : Prop :=
  ∀ front, front <+: events → ∀ device state, latest device front = some state →
    state = .offline ∨ state = .unauthorized →
    ¬ device.val ∈ (run sending p front).node.engine.peers ∧ ¬ device.val ∈ (run sending p front).deferred

/-- No device whose handshake was run goes down from another state than `connected`. -/
def Clean (events : List (Handled isPoint)) : Prop :=
  ∀ front h, front ++ [h] <+: events → h.drops → greeted h.event.device front = true → h.event.fromState = .connected

end Run

variable {events : List (Handled isPoint)} {device : EndpointId isPoint}

theorem run_append_singleton :
    run sending p (events ++ [h]) = (handleConnEvent sending (run sending p events) h).1 := by
  rw [run, List.foldl_append]
  rfl

theorem latest_append_singleton : latest device (events ++ [h]) =
    if h.event.device = device then some h.event.toState else latest device events := by
  unfold latest
  rw [List.map_append, Broadcast.of_append]
  split_ifs with hdevice
  · have hone : Broadcast.of device ([h].map Handled.event) = [h.event] :=
      List.filter_cons_of_pos (by simpa using hdevice)
    rw [hone, ConnChain.last_append_singleton]
  · have hnone : Broadcast.of device ([h].map Handled.event) = [] :=
      List.filter_cons_of_neg (by simpa using hdevice)
    rw [hnone, List.append_nil]

theorem greeted_append_singleton : greeted device (events ++ [h]) =
    if h.event.device ≠ device then greeted device events else if h.greets then true
    else if h.drops then false else greeted device events := by
  rw [greeted, List.foldl_append]
  rfl

theorem not_drops_of_greets (hgreets : h.greets) : ¬ h.drops := by
  intro hdrops
  unfold Handled.drops at hdrops
  rw [hgreets.1] at hdrops
  rcases hdrops with hstate | hstate <;> cases hstate

/-- A device whose handshake was run was last reported up. -/
theorem latest_of_greeted (hdone : greeted device events = true) {state : PeerConnState}
    (hlatest : latest device events = some state) : ¬ (state = .offline ∨ state = .unauthorized) := by
  induction events using List.reverseRecOn generalizing state with
  | nil => cases hdone
  | append_singleton events h ih =>
    rw [greeted_append_singleton] at hdone
    rw [latest_append_singleton] at hlatest
    by_cases hdevice : h.event.device = device
    · rw [if_neg (not_not.mpr hdevice)] at hdone
      rw [if_pos hdevice] at hlatest
      cases hlatest
      split_ifs at hdone with hgreets hdrops
      · exact not_drops_of_greets hgreets
      · exact hdrops
    · rw [if_pos hdevice] at hdone
      rw [if_neg hdevice] at hlatest
      exact ih hdone hlatest

/-- A device that waits for its handshake was last reported up. -/
theorem latest_of_deferred (hstart : ∀ peer, ¬ peer ∈ p.deferred)
    (hmem : device.val ∈ (run sending p events).deferred) {state : PeerConnState}
    (hlatest : latest device events = some state) : ¬ (state = .offline ∨ state = .unauthorized) := by
  induction events using List.reverseRecOn generalizing state with
  | nil => exact absurd hmem (hstart _)
  | append_singleton events h ih =>
    rw [run_append_singleton] at hmem
    rw [latest_append_singleton] at hlatest
    rcases mem_deferred_handleConnEvent hmem with ⟨hsame, hup⟩ | ⟨hmem, hother⟩
    · rw [if_pos (Subtype.ext hsame.symm), hup] at hlatest
      cases hlatest
      simp
    · split_ifs at hlatest with hdevice
      · cases hlatest
        exact fun hdrops => hother ⟨congrArg Subtype.val hdevice.symm, hdrops⟩
      · exact ih hmem hlatest

theorem clean_append_singleton : Clean (events ++ [h]) ↔
    Clean events ∧ (h.drops → greeted h.event.device events = true → h.event.fromState = .connected) := by
  constructor
  · intro hclean
    exact ⟨fun front h' hfront => hclean front h' (hfront.trans (List.prefix_append ..)),
      hclean events h (List.prefix_refl _)⟩
  · intro ⟨hclean, hlast⟩ front h' hfront
    rcases List.prefix_concat_iff.mp hfront with hsame | hfront
    · obtain ⟨rfl, hcons⟩ := List.append_inj' hsame rfl
      cases hcons
      exact hlast
    · exact hclean front h' hfront

/-- In a clean run the peers are the devices whose handshake was run since they last went down. -/
theorem mem_peers_iff_greeted (hstart : ∀ peer, ¬ peer ∈ p.node.engine.peers) (hclean : Clean events)
    (device : EndpointId isPoint) :
    device.val ∈ (run sending p events).node.engine.peers ↔ greeted device events = true := by
  induction events using List.reverseRecOn with
  | nil => exact iff_of_false (hstart _) (by simp [greeted])
  | append_singleton events h ih =>
    obtain ⟨hclean, hlast⟩ := clean_append_singleton.mp hclean
    rw [run_append_singleton, mem_peers_handleConnEvent, ih hclean, greeted_append_singleton]
    by_cases hdevice : h.event.device = device
    · subst hdevice
      rw [if_neg (not_not.mpr rfl)]
      by_cases hgreets : h.greets
      · simp [hgreets]
      · by_cases hdrops : h.drops
        · simp only [hgreets, hdrops, and_false, false_or, true_and, if_false, if_true, Bool.false_eq_true, iff_false]
          exact fun hboth => hboth.2 (hlast hdrops hboth.1)
        · simp [hgreets, hdrops]
    · have hval : ¬ device.val = h.event.device.val := fun hsame => hdevice (Subtype.ext hsame).symm
      simp [hdevice, hval]

/-- A device whose handshake was run and that goes down from another state is still a peer. -/
theorem not_tracks (hstart : ∀ peer, ¬ peer ∈ p.node.engine.peers) (hclean : Clean events) (hdrops : h.drops)
    (hdone : greeted h.event.device events = true) (hfrom : h.event.fromState ≠ .connected) :
    ¬ Tracks sending p (events ++ [h]) := by
  intro htracks
  have hmem : h.event.device.val ∈ (run sending p (events ++ [h])).node.engine.peers := by
    rw [run_append_singleton, mem_peers_handleConnEvent]
    exact .inr ⟨(mem_peers_iff_greeted hstart hclean _).mpr hdone, fun hboth => hfrom hboth.2.2⟩
  have hlatest : latest h.event.device (events ++ [h]) = some h.event.toState := by
    rw [latest_append_singleton, if_pos rfl]
  exact (htracks _ (List.prefix_refl _) _ _ hlatest hdrops).1 hmem

theorem clean_of_up (hup : ∀ h ∈ events, ¬ h.drops) : Clean events := by
  intro front h hfront hdrops
  exact absurd hdrops (hup h (hfront.subset (by simp)))

/-- The engine's peers and the deferred handshakes hold no device that was last reported down, after any event of a run,
exactly if no device whose handshake was run goes down from another state than `connected`. -/
theorem tracks_iff_clean (hpeers : ∀ peer, ¬ peer ∈ p.node.engine.peers) (hdeferred : ∀ peer, ¬ peer ∈ p.deferred) :
    Tracks sending p events ↔ Clean events := by
  constructor
  · intro htracks
    induction events using List.reverseRecOn with
    | nil =>
      intro front h hfront
      simp at hfront
    | append_singleton events h ih =>
      have hclean : Clean events := ih fun front hfront => htracks front (hfront.trans (List.prefix_append ..))
      refine clean_append_singleton.mpr ⟨hclean, fun hdrops hdone => ?_⟩
      by_contra hfrom
      exact not_tracks hpeers hclean hdrops hdone hfrom htracks
  · intro hclean front hfront device state hlatest hdown
    have hfrontClean : Clean front := fun front' h hfront' => hclean front' h (hfront'.trans hfront)
    refine ⟨fun hmem => ?_, fun hmem => latest_of_deferred hdeferred hmem hlatest hdown⟩
    exact latest_of_greeted ((mem_peers_iff_greeted hpeers hfrontClean device).mp hmem) hlatest hdown

end Driver

namespace Toy

/-- The pump of the worked room before any event. -/
def driver : Driver toyEnv Toy.sealing Toy.room := ⟨.opened Toy.opened, .empty, none⟩

/-- Participant `2` moves through these states, and nobody is provisional. -/
def moves (states : List (PeerConnState × PeerConnState)) : List (Handled fun _ => true) :=
  states.map fun s => ⟨.empty, ⟨somePoint 2, s.1, s.2, 0⟩⟩

theorem driver_peers (peer : PeerId) : ¬ peer ∈ driver.node.engine.peers := OrdSet.not_mem_empty peer

/-- The manager marks a live device as connecting again. -/
def redialed : List (PeerConnState × PeerConnState) :=
  [(.connecting, .connecting), (.connecting, .connected), (.connected, .connecting)]

theorem clean_redialed : Driver.Clean (moves redialed) := Driver.clean_of_up (by decide)

end Toy

/-- The device goes down before it is connected again. -/
theorem connEvents_leave_peer :
    (∀ device, ConnChain (Broadcast.of device
      ((Toy.moves (Toy.redialed ++ [(.connecting, .offline)])).map Handled.event))) ∧
    ¬ Driver.Tracks Toy.tightSending Toy.driver (Toy.moves (Toy.redialed ++ [(.connecting, .offline)])) := by
  constructor
  · intro device
    by_cases hdevice : Toy.somePoint 2 = device
    · subst hdevice
      refine ⟨fun e he => ?_, by decide⟩
      have hfirst : e = ⟨Toy.somePoint 2, .connecting, .connecting, 0⟩ := by
        rw [← Option.some.injEq, ← he]
        decide
      rw [hfirst]
    · have hnone : Broadcast.of device ((Toy.moves (Toy.redialed ++ [(.connecting, .offline)])).map Handled.event) =
          [] := by simp [Broadcast.of, Toy.moves, Toy.redialed, hdevice]
      rw [hnone]
      exact .nil
  · exact Driver.not_tracks Toy.driver_peers Toy.clean_redialed (.inl rfl) (by decide) (by decide)

theorem tracks_iff_clean_redialed :
    Driver.Tracks Toy.tightSending Toy.driver
      (Toy.moves (Toy.redialed ++ [(.connecting, .connected)] ++ [(.connected, .offline)])) := by
  have hnone : ∀ peer, ¬ peer ∈ Toy.driver.deferred := OrdSet.not_mem_empty
  refine (Driver.tracks_iff_clean Toy.driver_peers hnone).mpr ?_
  -- the device is up again before it goes down
  rw [Toy.moves, List.map_append, List.map_singleton]
  refine Driver.clean_append_singleton.mpr ⟨Driver.clean_of_up ?_, ?_⟩
  · decide
  · intro _ _
    rfl

end IrohRooms
