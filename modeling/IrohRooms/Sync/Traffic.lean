import IrohRooms.Sync.Mesh

/-!
# Traffic dies down

The messages in flight and the reserves of the engines have a weight together (`backlog`). Delivering a message lowers
it and reordering the queue leaves it, so after any scenario the traffic ends by itself, in whatever order it is
delivered: the loop that drains the queue comes to its end before its bound whenever the weight is within it.
-/

namespace IrohRooms

variable {env : Env} {sealing : Sealing} {room : RoomId}

namespace SimNet

variable {sending : Sending env room} {bytes : Frame → Bytes} {net net' : SimNet env sealing room} {pop : Population}

/-! ### The weight of a net -/

def reserveOf (pop : Population) (net : SimNet env sealing room) (peer : PeerId) : Nat :=
  match net.engines.get? peer with
  | some n => pop.reserve n.engine
  | none => 0

/-- The messages that may still be delivered before the next call from outside. -/
def backlog (pop : Population) (cap : Nat) (net : SimNet env sealing room) : Nat :=
  pop.load cap (net.queue.map Envelope.out) + (net.engines.keys.map (net.reserveOf pop)).sum

/-- The most peers an engine of the net has. -/
def mostPeers (net : SimNet env sealing room) : Nat :=
  (net.engines.values.map fun n => n.engine.peers.toList.length).foldr max 0

/-- No engine has more peers than the population says. -/
def Within (pop : Population) (net : SimNet env sealing room) : Prop :=
  ∀ peer n, net.engines.get? peer = some n → n.engine.peers.toList.length ≤ pop.peers

theorem within_mostPeers (net : SimNet env sealing room) (events : List (EventId × SignedEvent)) :
    net.Within ⟨events, net.mostPeers⟩ := by
  have hmax : ∀ (l : List Nat) (x : Nat), x ∈ l → x ≤ l.foldr max 0 := by
    intro l
    induction l with
    | nil => exact fun x hx => absurd hx List.not_mem_nil
    | cons y l ih =>
      intro x hx
      rw [List.foldr_cons]
      rcases List.mem_cons.mp hx with rfl | hx
      · exact Nat.le_max_left _ _
      · exact (ih x hx).trans (Nat.le_max_right _ _)
  intro peer n hn
  exact hmax _ _ (List.mem_map.mpr ⟨n, OrdMap.mem_values.mpr ⟨peer, hn⟩, rfl⟩)

theorem keys_insert {peer : PeerId} {n n' : SyncNode env sealing room} (h : net.engines.get? peer = some n) :
    (net.engines.insert peer n').keys = net.engines.keys := by
  refine OrdSet.eq_of_sorted (OrdMap.keys_sorted _) (OrdMap.keys_sorted _) fun p => ?_
  rw [OrdMap.mem_keys, OrdMap.mem_keys, OrdMap.get?_insert]
  split_ifs with hp
  · simp [hp, h]
  · rfl

/-- A sum over peers of which one is replaced. -/
theorem sum_replace {f g : PeerId → Nat} {peers : List PeerId} (hnodup : peers.Nodup) {peer : PeerId}
    (hpeer : peer ∈ peers) (hrest : ∀ p, p ≠ peer → g p = f p) :
    (peers.map g).sum + f peer = (peers.map f).sum + g peer := by
  induction peers with
  | nil => cases hpeer
  | cons p peers ih =>
    obtain ⟨hfresh, htail⟩ := List.nodup_cons.mp hnodup
    rw [List.map_cons, List.map_cons, List.sum_cons, List.sum_cons]
    rcases List.mem_cons.mp hpeer with rfl | hmem
    · have hsame : peers.map g = peers.map f :=
        List.map_congr_left fun q hq => hrest q fun heq => hfresh (heq ▸ hq)
      rw [hsame]
      omega
    · have hsum := ih htail hmem
      rw [hrest p fun heq => hfresh (heq ▸ hmem)]
      omega

/-! ### Deliveries -/

/-- A message taken in weighs more than what it is answered with, and the engine has the peers it had. -/
theorem deliver_backlog (h : Confined sending (fun _ => pop) net) (hwithin : net.Within pop) {m : Envelope}
    (hm : Proper (EngineInvariant.occurring pop.Occurs env room) sending m.out)
    (hcall : net.call sending m.target (.onMessage m.source m.out.msg) = some net') :
    1 + net'.backlog pop sending.responseMaxFrames ≤
      pop.weight sending.responseMaxFrames m.out.msg.body + net.backlog pop sending.responseMaxFrames ∧
    net'.Within pop := by
  obtain ⟨n, hn, rfl⟩ := Option.map_eq_some_iff.mp hcall
  obtain ⟨hreach, htame⟩ := h.engines m.target n hn
  obtain ⟨hspends, hpeers, -⟩ := SyncEngine.onMessage_spends hreach htame (hwithin m.target n hn) n.claimRotation
    m.source hm.2
  constructor
  · have hone : reserveOf pop ({ net with
          engines := net.engines.insert m.target (n.step sending (.onMessage m.source m.out.msg))
        } : SimNet env sealing room) m.target =
        pop.reserve (n.engine.onMessage m.out.msg.roomId m.out.msg.body.toSync) := by
      unfold reserveOf
      rw [OrdMap.get?_insert_self]
      rfl
    have hold : net.reserveOf pop m.target = pop.reserve n.engine := by
      unfold reserveOf
      rw [hn]
    have hothers : ∀ p, p ≠ m.target → reserveOf pop ({ net with
          engines := net.engines.insert m.target (n.step sending (.onMessage m.source m.out.msg))
        } : SimNet env sealing room) p = net.reserveOf pop p := by
      intro p hp
      unfold reserveOf
      rw [OrdMap.get?_insert_of_ne _ _ hp]
    have hsum := sum_replace net.engines.keys_nodup (OrdMap.mem_keys.mpr (by rw [hn]; rfl)) hothers
    rw [hone, hold] at hsum
    unfold backlog enqueue
    dsimp only
    rw [keys_insert hn, List.map_append, Population.load_append, List.map_map]
    have houts : ((n.sends sending (.onMessage m.source m.out.msg)).map
        (Envelope.out ∘ fun o => (⟨m.target, o.peer, o⟩ : Envelope))) =
        n.engine.onMessageOut sending n.claimRotation m.source m.out.msg := List.map_id _
    rw [houts]
    show 1 + (_ + _ + (net.engines.keys.map (reserveOf pop ({ net with
      engines := net.engines.insert m.target (n.step sending (.onMessage m.source m.out.msg))
      } : SimNet env sealing room))).sum) ≤ _
    omega
  · intro p n' hn'
    have hget : (net.engines.insert m.target (n.step sending (.onMessage m.source m.out.msg))).get? p = some n' := hn'
    rw [OrdMap.get?_insert] at hget
    split_ifs at hget
    · obtain rfl := Option.some.inj hget
      show (n.engine.onMessage m.out.msg.roomId m.out.msg.body.toSync).peers.toList.length ≤ pop.peers
      rw [hpeers]
      exact hwithin m.target n hn
    · exact hwithin p n' hget

/-- A delivery lowers the weight and leaves the peers of the engines as they are. -/
theorem step_backlog (bytes : Frame → Bytes) (h : Confined sending (fun _ => pop) net) (hwithin : net.Within pop)
    (hsome : net.queue ≠ []) :
    1 + (net.step sending bytes).1.backlog pop sending.responseMaxFrames ≤ net.backlog pop sending.responseMaxFrames ∧
      (net.step sending bytes).1.Within pop ∧ (net.step sending bytes).2 = true := by
  cases hqueue : net.queue with
  | nil => exact absurd hqueue hsome
  | cons m rest =>
    have hm := h.queue m (by rw [hqueue]; exact List.mem_cons_self)
    have hpopped : Confined sending (fun _ => pop) ({ net with queue := rest } : SimNet env sealing room) :=
      ⟨h.engines, h.links, fun m' hm' => h.queue m' (by rw [hqueue]; exact List.mem_cons_of_mem _ hm')⟩
    have hsplit : net.backlog pop sending.responseMaxFrames = pop.weight sending.responseMaxFrames m.out.msg.body +
        ({ net with queue := rest } : SimNet env sealing room).backlog pop sending.responseMaxFrames := by
      unfold backlog
      rw [hqueue, List.map_cons, Population.load_cons, Nat.add_assoc]
      rfl
    have hlost : 1 + ({ net with queue := rest } : SimNet env sealing room).backlog pop sending.responseMaxFrames ≤
        net.backlog pop sending.responseMaxFrames := by
      have hpos : 1 ≤ pop.weight sending.responseMaxFrames m.out.msg.body := by
        unfold Population.weight
        split <;> omega
      omega
    unfold step
    rw [hqueue]
    dsimp only
    split_ifs
    · exact ⟨hlost, hwithin, rfl⟩
    · exact ⟨hlost, hwithin, rfl⟩
    · cases hcall : ({ net with queue := rest } : SimNet env sealing room).call sending m.target
          (.onMessage m.source m.out.msg) with
      | none => exact ⟨hlost, hwithin, rfl⟩
      | some next =>
        obtain ⟨hless, hnext⟩ := deliver_backlog hpopped hwithin hm hcall
        exact ⟨hsplit ▸ hless, hnext, rfl⟩

/-- So many deliveries, with the queue reordered at will in between. -/
inductive Traffic (sending : Sending env room) (bytes : Frame → Bytes) (net : SimNet env sealing room) :
    Nat → SimNet env sealing room → Prop
  | rest : Traffic sending bytes net 0 net
  | deliver {k : Nat} {mid : SimNet env sealing room} : Traffic sending bytes net k mid → mid.queue ≠ [] →
      Traffic sending bytes net (k + 1) (mid.step sending bytes).1
  | reorder {k : Nat} {mid : SimNet env sealing room} {queue : List Envelope} : Traffic sending bytes net k mid →
      queue.Perm mid.queue → Traffic sending bytes net k ({ mid with queue := queue } : SimNet env sealing room)

theorem Traffic.backlog {k : Nat} (htraffic : Traffic sending bytes net k net')
    (h : Confined sending (fun _ => pop) net) (hwithin : net.Within pop) :
    Confined sending (fun _ => pop) net' ∧ net'.Within pop ∧
      k + net'.backlog pop sending.responseMaxFrames ≤ net.backlog pop sending.responseMaxFrames := by
  induction htraffic with
  | rest => exact ⟨h, hwithin, by omega⟩
  | deliver _ hsome ih =>
    obtain ⟨hmid, hwithinMid, hle⟩ := ih
    obtain ⟨hless, hnext, -⟩ := step_backlog bytes hmid hwithinMid hsome
    exact ⟨hmid.step, hnext, by omega⟩
  | @reorder k mid queue _ hperm ih =>
    obtain ⟨hmid, hwithinMid, hle⟩ := ih
    refine ⟨⟨hmid.engines, hmid.links, fun m hm => hmid.queue m (hperm.mem_iff.mp hm)⟩, hwithinMid, ?_⟩
    have hsame : ({ mid with queue := queue } : SimNet env sealing room).backlog pop sending.responseMaxFrames =
        mid.backlog pop sending.responseMaxFrames := by
      unfold SimNet.backlog Population.load
      rw [((hperm.map Envelope.out).map _).sum_eq]
      rfl
    rw [hsame]
    exact hle

theorem drainWithin_empty (fuel : Nat) (hqueue : net.queue = []) : drainWithin sending bytes fuel net = some net := by
  have hstep : net.step sending bytes = (net, false) := by
    unfold step
    rw [hqueue]
  cases fuel with
  | zero =>
    unfold drainWithin
    rw [hstep]
    rfl
  | succ fuel =>
    unfold drainWithin
    rw [hstep]
    rfl

theorem drainWithin_ends {fuel : Nat} (h : Confined sending (fun _ => pop) net) (hwithin : net.Within pop)
    (hfuel : net.backlog pop sending.responseMaxFrames ≤ fuel) :
    ∃ drained, drainWithin sending bytes fuel net = some drained ∧ drained.queue = [] := by
  induction fuel generalizing net with
  | zero =>
    by_cases hqueue : net.queue = []
    · exact ⟨net, drainWithin_empty 0 hqueue, hqueue⟩
    · have hstep := step_backlog bytes h hwithin hqueue
      have hless := hstep.1
      omega
  | succ fuel ih =>
    by_cases hqueue : net.queue = []
    · exact ⟨net, drainWithin_empty (fuel + 1) hqueue, hqueue⟩
    · have hstep := step_backlog bytes h hwithin hqueue
      have hless := hstep.1
      unfold drainWithin
      rw [if_pos hstep.2.2]
      exact ih h.step hstep.2.1 (by omega)

/-- After any scenario the traffic dies down by itself. However the messages in flight are reordered, no more of them
are delivered than the weight of the net, and the loop that drains the queue ends with an empty queue if it is allowed
as many steps. -/
theorem traffic_ends {ops : List (Op env room)}
    (hrun : (new : SimNet env sealing room).run sending bytes ops = some net) :
    let weight := net.backlog ⟨injected (fun _ => true) ops, net.mostPeers⟩ sending.responseMaxFrames
    (∀ k later, Traffic sending bytes net k later → k ≤ weight) ∧
      (weight ≤ maxDrainSteps → ∃ drained, net.drain sending bytes = some drained ∧ drained.queue = []) := by
  intro weight
  have hconfined : Confined sending _ net := Confined.new.run (fits_all ops net.mostPeers) hrun
  have hwithin := within_mostPeers net (injected (fun _ => true) ops)
  refine ⟨fun k later htraffic => ?_, fun hfits => drainWithin_ends hconfined hwithin hfits⟩
  have hbacklog := (htraffic.backlog hconfined hwithin).2.2
  show k ≤ net.backlog _ _
  omega

theorem traffic_ends_founding : ∃ net : SimNet toyEnv Toy.sealing Toy.room,
    new.run Toy.tightSending (fun _ => []) Toy.founding = some net ∧
      ∀ k later, Traffic Toy.tightSending (fun _ => []) net k later →
        k ≤ net.backlog ⟨injected (fun _ => true) Toy.founding, net.mostPeers⟩ Toy.tightSending.responseMaxFrames :=
  ⟨Toy.founded, Toy.founding_runs, (traffic_ends Toy.founding_runs).1⟩

end SimNet

end IrohRooms
