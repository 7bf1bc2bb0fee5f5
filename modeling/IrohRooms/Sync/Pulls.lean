import IrohRooms.Lib.Rotation
import IrohRooms.Sync.Sends

/-!
# The periodic pulls

A tick repeats the admin tip to every peer and pulls from a window of `pull_fanout_peers` of them that moves by its own
width. A forced pull arms as many pulling ticks as the window needs to pass over all peers, so with a fixed peer set
everybody is pulled from within one sweep, whatever calls come in between (`forced_pull_reaches_all`).
-/

namespace IrohRooms

variable {env : Env} {sealing : Sealing} {room : RoomId}

namespace Sending

/-- Why the bounds of what is sent are refused, if they are. -/
def validate (sending : Sending env room) : Option String :=
  if sending.maxBackfillFanoutIds = 0 ∨ sending.responseMaxFrames = 0 then some "fanout_cap_zero"
  else if sending.pullFanoutPeers = 0 then some "pull_fanout_zero"
  else if sending.chatWindowMax = 0 ∨ sending.chatWindowDefault = 0 then some "chat_window_zero"
  else if sending.chatWindowDefault > sending.chatWindowMax then some "chat_default_exceeds_max"
  else if sending.membershipHaveMaxIds = 0 then some "membership_have_cap_zero"
  else if sending.membershipHaveMaxIds > 16384 then some "membership_have_cap_oversized"
  else none

/-- What valid bounds have in common. -/
structure Valid (sending : Sending env room) : Prop where
  responseMaxFrames : 0 < sending.responseMaxFrames
  pullFanoutPeers : 0 < sending.pullFanoutPeers
  membershipHaveMaxIds : sending.membershipHaveMaxIds ≤ 16384

theorem valid_of_validate {sending : Sending env room} (h : sending.validate = none) : sending.Valid := by
  unfold validate at h
  split_ifs at h
  exact ⟨by omega, by omega, by omega⟩

end Sending

/-- A request for membership or chat history, as a tick repeats it. -/
def MessageBody.isPeriodicPull : MessageBody → Bool
  | .wantMembership _ | .wantRecentChat _ _ => true
  | _ => false

namespace SyncEngine

variable {sending : Sending env room} {origin : Option PeerId} {e : SyncEngine env sealing room}

/-! ### Retries pull nothing -/

/-- No message of the list is a periodic pull. -/
def Pullless (outs : List Outgoing) : Prop := ∀ o ∈ outs, o.msg.body.isPeriodicPull = false

theorem pullless_nil : Pullless [] := fun _ h => by cases h

theorem Pullless.append {outs outs' : List Outgoing} (h : Pullless outs) (h' : Pullless outs') :
    Pullless (outs ++ outs') := by
  intro o ho
  rcases List.mem_append.mp ho with ho | ho
  · exact h o ho
  · exact h' o ho

theorem storeSent_pullless (v : ValidatedEvent env room) : Pullless (e.storeSent sending origin v).out := by
  unfold storeSent
  dsimp only
  split
  · unfold landedOut
    split
    · intro o ho
      obtain ⟨peer, -, rfl⟩ := List.mem_map.mp ho
      rfl
    · exact pullless_nil
  · exact pullless_nil

theorem chaseOut_pullless (targets : List PeerId) (author : IdentityKey) (missing : List EventId) :
    Pullless (e.chaseOut sending targets author missing) := by
  unfold chaseOut requests
  dsimp only
  split_ifs
  · exact pullless_nil
  · intro o ho
    obtain ⟨chunk, -, ho⟩ := List.mem_flatMap.mp ho
    obtain ⟨peer, -, rfl⟩ := List.mem_map.mp ho
    rfl
  · exact pullless_nil

theorem wakeOneSent_pullless (st : SyncEngine env sealing room × Bool) (id : EventId) :
    Pullless (wakeOneSent sending st id).out := by
  unfold wakeOneSent
  split
  · exact pullless_nil
  · dsimp only
    split
    · exact storeSent_pullless _
    · exact pullless_nil
    · exact pullless_nil

theorem wakePassSent_pullless (ids : List EventId) (st : SyncEngine env sealing room × Bool) :
    Pullless (wakePassSent sending ids st).out := by
  induction ids generalizing st with
  | nil => exact pullless_nil
  | cons id ids ih => exact (wakeOneSent_pullless st id).append (ih _)

theorem wakeParkLoopSent_pullless (fuel : Nat) (e : SyncEngine env sealing room) :
    Pullless (wakeParkLoopSent sending fuel e).out := by
  induction fuel generalizing e with
  | zero => exact pullless_nil
  | succ fuel ih =>
    unfold wakeParkLoopSent
    dsimp only
    refine (wakePassSent_pullless _ _).append ?_
    split_ifs
    · exact ih _
    · exact pullless_nil

theorem chasesOut_pullless (frames : List (IdentityKey × Nat × List EventId)) (e : SyncEngine env sealing room) :
    Pullless (chasesOut sending frames e) := by
  induction frames generalizing e with
  | nil => exact pullless_nil
  | cons p frames ih => exact (chaseOut_pullless _ _ _).append (ih _)

theorem retryRestoredLoopOut_pullless (ids : List EventId) (e : SyncEngine env sealing room) :
    Pullless (retryRestoredLoopOut sending ids e) := by
  induction ids generalizing e with
  | nil => exact pullless_nil
  | cons id ids ih =>
    refine Pullless.append ?_ (ih _)
    unfold retryRestoredOneOut
    dsimp only
    split
    · exact pullless_nil
    · exact chaseOut_pullless _ _ _

theorem retriesSent_pullless (e : SyncEngine env sealing room) : Pullless (e.retriesSent sending).out := by
  refine Pullless.append ((wakeParkLoopSent_pullless _ _).append (chasesOut_pullless _ _)) ?_
  dsimp only
  unfold retryRestoredParkOut
  split_ifs
  · exact pullless_nil
  · exact retryRestoredLoopOut_pullless _ _

/-! ### The window -/

theorem length_pullSet_le (sending : Sending env room) (e : SyncEngine env sealing room) (claimRotation : Nat) :
    (e.pullSet sending claimRotation).length ≤ sending.pullFanoutPeers := by
  unfold pullSet
  dsimp only
  split_ifs with hfew
  · exact hfew
  · refine (List.length_filterMap_le _ _).trans ?_
    rw [List.length_range]

/-- A tick's pulls go to the window. -/
theorem mem_pullSet_of_advertised {claimRotation : Nat} {emitPulls : Bool} {o : Outgoing}
    (ho : o ∈ e.advertised sending claimRotation emitPulls) (hpull : o.msg.body.isPeriodicPull = true) :
    o.peer ∈ e.pullSet sending claimRotation := by
  obtain ⟨peer, -, ho⟩ := List.mem_flatMap.mp ho
  rcases List.mem_cons.mp ho with rfl | ho
  · cases hpull
  · split_ifs at ho with hwindow
    · have hmem : peer ∈ e.pullSet sending claimRotation := by
        rw [Bool.and_eq_true] at hwindow
        simpa using hwindow.2
      simp only [List.mem_cons, List.not_mem_nil, or_false] at ho
      rcases ho with rfl | rfl
      · exact hmem
      · exact hmem
    · cases ho

theorem tip_mem_advertised {claimRotation : Nat} {emitPulls : Bool} {peer : PeerId} (hpeer : peer ∈ e.peers) :
    toPeer room peer (.adminTip e.store.adminChainTip) ∈ e.advertised sending claimRotation emitPulls :=
  List.mem_flatMap.mpr ⟨peer, OrdSet.mem_toList.mpr hpeer, List.mem_cons_self⟩

/-- A peer in the window is pulled from. -/
theorem pulls_mem_advertised {claimRotation : Nat} {peer : PeerId} (hpeer : peer ∈ e.peers)
    (hwindow : peer ∈ e.pullSet sending claimRotation) :
    toPeer room peer (.wantMembership (e.membershipHave sending claimRotation)) ∈
        e.advertised sending claimRotation true ∧
      toPeer room peer (.wantRecentChat ⟨sending.chatWindowDefault, none⟩ (e.chatHave sending)) ∈
        e.advertised sending claimRotation true := by
  have hin : (true && (e.pullSet sending claimRotation).contains peer) = true := by simpa using hwindow
  refine ⟨List.mem_flatMap.mpr ⟨peer, OrdSet.mem_toList.mpr hpeer, ?_⟩,
    List.mem_flatMap.mpr ⟨peer, OrdSet.mem_toList.mpr hpeer, ?_⟩⟩
  · rw [if_pos hin]
    simp
  · rw [if_pos hin]
    simp

/-- The ticks a sweep takes. -/
def sweepLength (sending : Sending env room) (e : SyncEngine env sealing room) : Nat :=
  (e.peers.toList.length + sending.pullFanoutPeers - 1) / sending.pullFanoutPeers

/-- The windows of a sweep's consecutive rotations hold every peer. -/
theorem exists_pullSet (hfanout : 0 < sending.pullFanoutPeers) (first : Nat) {peer : PeerId} (hpeer : peer ∈ e.peers)
    (hfits : ∀ k < e.sweepLength sending, (first + k) * sending.pullFanoutPeers < 2 ^ 64) :
    ∃ k < e.sweepLength sending, peer ∈ e.pullSet sending (first + k) := by
  obtain ⟨place, hplace, hget⟩ := List.mem_iff_getElem.mp (OrdSet.mem_toList.mpr hpeer)
  obtain ⟨k, hk, i, hi, hat⟩ := Rotation.exists_wrapping hfanout first hplace
  refine ⟨k, hk, ?_⟩
  unfold pullSet wrappingMul
  dsimp only
  split_ifs with hfew
  · exact OrdSet.mem_toList.mpr hpeer
  · rw [Nat.mod_eq_of_lt (hfits k hk), List.mem_filterMap]
    refine ⟨i, List.mem_range.mpr hi, ?_⟩
    rw [hat, List.getElem?_eq_getElem hplace, hget]

end SyncEngine

/-! ### Sweeps -/

def Call.isTick : Call → Bool
  | .onTick => true
  | _ => false

namespace SyncNode

variable (sending : Sending env room) {n : SyncNode env sealing room}

/-- The ticks among the calls of a run. -/
def ticks (calls : List Call) : Nat := calls.countP Call.isTick

theorem step_claimRotation (c : Call) :
    (n.step sending c).claimRotation = if c.isTick then (n.claimRotation + 1) % 2 ^ 64 else n.claimRotation := by
  cases c <;> rfl

/-- The rotation counts the ticks. -/
theorem run_claimRotation {calls : List Call} (h : n.claimRotation + ticks calls < 2 ^ 64) :
    (calls.foldl (step sending) n).claimRotation = n.claimRotation + ticks calls := by
  induction calls generalizing n with
  | nil => rfl
  | cons c calls ih =>
    unfold ticks at h ih ⊢
    rw [List.countP_cons] at h ⊢
    have hstep := n.step_claimRotation sending c
    by_cases htick : c.isTick = true
    · rw [if_pos htick] at h hstep ⊢
      rw [Nat.mod_eq_of_lt (by omega)] at hstep
      rw [List.foldl_cons, ih (by omega), hstep]
      omega
    · rw [if_neg htick] at h hstep ⊢
      rw [List.foldl_cons, ih (by omega), hstep]
      omega

/-- At least `left` more ticks pull: so many are armed, or the next tick arms a sweep. -/
def Armed (left : Nat) (n : SyncNode env sealing room) : Prop :=
  n.forceNextTickPull = true ∨ left ≤ n.pullSweepRemaining

/-- A tick of an armed node pulls, if a sweep is at least that long. -/
theorem Armed.le_sweep {left : Nat} (h : Armed left n) (hleft : left ≤ n.engine.sweepLength sending)
    (hfanout : 0 < sending.pullFanoutPeers) : left ≤ n.sweep sending := by
  have hwindow : max sending.pullFanoutPeers 1 = sending.pullFanoutPeers := by omega
  have hpeers : n.engine.onTick.peers = n.engine.peers := n.engine.onTick_peers
  unfold sweep
  dsimp only
  rw [hpeers, hwindow]
  split_ifs with hforced
  · unfold SyncEngine.sweepLength at hleft
    omega
  · rw [Bool.or_eq_true, not_or] at hforced
    exact h.resolve_left hforced.1

theorem Armed.step {left : Nat} (h : Armed left n) (hleft : left ≤ n.engine.sweepLength sending)
    (hfanout : 0 < sending.pullFanoutPeers) (c : Call) :
    Armed (left - if c.isTick then 1 else 0) (n.step sending c) := by
  cases c with
  | onTick =>
    have hsweep := h.le_sweep sending hleft hfanout
    refine Or.inr ?_
    show left - 1 ≤ n.sweep sending - 1
    omega
  | _ =>
    rcases h with hforced | hleft
    · refine Or.inl ?_
      show (n.forceNextTickPull || _) = true
      rw [hforced]
      rfl
    · exact Or.inr hleft

/-- Whatever happens between the ticks, each of them spends one of the armed pulls at most. -/
theorem Armed.run {left : Nat} {calls : List Call} (h : Armed left n)
    (hfixed : ∀ pre, pre <+: calls → (pre.foldl (SyncNode.step sending) n).engine.peers = n.engine.peers)
    (hleft : left ≤ n.engine.sweepLength sending) (hfanout : 0 < sending.pullFanoutPeers) :
    Armed (left - ticks calls) (calls.foldl (SyncNode.step sending) n) := by
  induction calls generalizing n left with
  | nil => exact h
  | cons c calls ih =>
    have hone : (n.step sending c).engine.peers = n.engine.peers := hfixed [c] (by simp)
    have hlength : (n.step sending c).engine.sweepLength sending = n.engine.sweepLength sending := by
      unfold SyncEngine.sweepLength
      rw [hone]
    have hrest := ih (h.step sending hleft hfanout c) (fun pre hpre => ?_) (by omega)
    · unfold ticks at hrest ⊢
      rw [List.countP_cons, Nat.add_comm, Nat.sub_add_eq]
      exact hrest
    · have := hfixed (c :: pre) (List.cons_prefix_cons.mpr ⟨rfl, hpre⟩)
      rw [List.foldl_cons] at this
      rw [this, hone]

/-- The run up to one of its ticks. -/
theorem exists_tick {calls : List Call} {i : Nat} (h : i < ticks calls) :
    ∃ pre post : List Call, calls = pre ++ .onTick :: post ∧ ticks pre = i := by
  induction calls generalizing i with
  | nil => cases h
  | cons c calls ih =>
    unfold ticks at h ih
    rw [List.countP_cons] at h
    by_cases htick : c.isTick = true
    · rw [if_pos htick] at h
      cases i with
      | zero =>
        refine ⟨[], calls, ?_, rfl⟩
        cases c <;> first | rfl | cases htick
      | succ i =>
        obtain ⟨pre, post, hsplit, hcount⟩ := ih (Nat.lt_of_succ_lt_succ h)
        refine ⟨c :: pre, post, by rw [hsplit]; rfl, ?_⟩
        rw [ticks, List.countP_cons, hcount, if_pos htick]
    · rw [if_neg htick] at h
      obtain ⟨pre, post, hsplit, hcount⟩ := ih h
      refine ⟨c :: pre, post, by rw [hsplit]; rfl, ?_⟩
      rw [ticks, List.countP_cons, hcount, if_neg htick, Nat.add_zero]

/-- A tick pulls from a window of peers and sends the tip to all of them. -/
theorem onTickOut_bounded (n : SyncNode env sealing room) :
    (∃ pulled : List PeerId, pulled.length ≤ sending.pullFanoutPeers ∧
      ∀ o ∈ n.sends sending .onTick, o.msg.body.isPeriodicPull = true → o.peer ∈ pulled) ∧
    ∀ peer ∈ n.engine.peers, ∃ tip, SyncEngine.toPeer room peer (.adminTip tip) ∈ n.sends sending .onTick := by
  refine ⟨⟨_, n.engine.onTick.length_pullSet_le sending n.nextRotation, ?_⟩, ?_⟩
  · intro o ho hpull
    rcases List.mem_append.mp ho with ho | ho
    · rw [SyncEngine.retriesSent_pullless n.engine o ho] at hpull
      cases hpull
    · exact SyncEngine.mem_pullSet_of_advertised ho hpull
  · intro peer hpeer
    have hpeer' : peer ∈ n.engine.onTick.peers := by rwa [n.engine.onTick_peers]
    exact ⟨_, List.mem_append_right _ (SyncEngine.tip_mem_advertised hpeer')⟩

/-- Once a pull is forced, the ticks of one sweep pull from every peer, as long as the peer set stays as it is; each of
them pulls from at most `pull_fanout_peers` peers and sends the tip to all. -/
theorem forced_pull_reaches_all {calls : List Call} (hvalid : sending.validate = none)
    (hforced : n.forceNextTickPull = true)
    (hfixed : ∀ pre, pre <+: calls → (pre.foldl (step sending) n).engine.peers = n.engine.peers)
    (hticks : ticks calls = n.engine.sweepLength sending)
    (hfits : (n.claimRotation + ticks calls) * sending.pullFanoutPeers < 2 ^ 64) :
    (∀ peer ∈ n.engine.peers,
      (∃ pre post held, calls = pre ++ .onTick :: post ∧
        SyncEngine.toPeer room peer (.wantMembership held) ∈ (pre.foldl (step sending) n).sends sending .onTick) ∧
      ∃ pre post window held, calls = pre ++ .onTick :: post ∧
        SyncEngine.toPeer room peer (.wantRecentChat window held) ∈
          (pre.foldl (step sending) n).sends sending .onTick) ∧
    ∀ pre post, calls = pre ++ .onTick :: post →
      (∃ pulled : List PeerId, pulled.length ≤ sending.pullFanoutPeers ∧
        ∀ o ∈ (pre.foldl (step sending) n).sends sending .onTick,
          o.msg.body.isPeriodicPull = true → o.peer ∈ pulled) ∧
      ∀ peer ∈ n.engine.peers, ∃ tip,
        SyncEngine.toPeer room peer (.adminTip tip) ∈ (pre.foldl (step sending) n).sends sending .onTick := by
  have hfanout : 0 < sending.pullFanoutPeers := (Sending.valid_of_validate hvalid).pullFanoutPeers
  have hrotation : n.claimRotation + ticks calls < 2 ^ 64 :=
    lt_of_le_of_lt (Nat.le_mul_of_pos_right _ hfanout) hfits
  refine ⟨fun peer hpeer => ?_, fun pre post hsplit => ?_⟩
  · obtain ⟨k, hk, hwindow⟩ := SyncEngine.exists_pullSet hfanout (n.claimRotation + 1) hpeer (by
      intro k hk
      refine lt_of_le_of_lt (Nat.mul_le_mul_right _ ?_) hfits
      omega)
    obtain ⟨pre, post, hsplit, hcount⟩ := exists_tick (hticks ▸ hk)
    have hpre : pre <+: calls := ⟨_, hsplit.symm⟩
    obtain ⟨m, hm⟩ : ∃ m, m = pre.foldl (step sending) n := ⟨_, rfl⟩
    have hpeers : m.engine.onTick.peers = n.engine.peers := by rw [m.engine.onTick_peers, hm, hfixed pre hpre]
    have hnext : m.nextRotation = n.claimRotation + 1 + k := by
      unfold nextRotation
      rw [hm, run_claimRotation sending (by omega), hcount, Nat.mod_eq_of_lt (by omega)]
      omega
    -- the tick has pulls left: it is one of the first of the sweep
    have hpulls : (decide (m.sweep sending > 0) || m.engine.onTick.hasPendingSyncWork) = true := by
      have harmed : Armed (n.engine.sweepLength sending - ticks pre) m := by
        rw [hm]
        exact Armed.run sending (Or.inl hforced) (fun p hp => hfixed p (hp.trans hpre)) le_rfl hfanout
      have hlength : m.engine.sweepLength sending = n.engine.sweepLength sending := by
        unfold SyncEngine.sweepLength
        rw [hm, hfixed pre hpre]
      have hsweep := harmed.le_sweep sending (by omega) hfanout
      rw [Bool.or_eq_true, decide_eq_true_eq]
      exact Or.inl (by omega)
    have hset : peer ∈ m.engine.onTick.pullSet sending m.nextRotation := by
      rw [hnext]
      unfold SyncEngine.pullSet at hwindow ⊢
      rw [hpeers]
      exact hwindow
    have hpeer' : peer ∈ m.engine.onTick.peers := by
      rw [hpeers]
      exact hpeer
    obtain ⟨hmembership, hchat⟩ := SyncEngine.pulls_mem_advertised hpeer' hset
    have hout : m.sends sending .onTick = (m.engine.retriesSent sending).out ++
        m.engine.onTick.advertised sending m.nextRotation true := by
      show m.onTickOut sending = _
      rw [onTickOut, hpulls]
    have hmembershipSent := List.mem_append_right (m.engine.retriesSent sending).out hmembership
    have hchatSent := List.mem_append_right (m.engine.retriesSent sending).out hchat
    rw [← hout, hm] at hmembershipSent hchatSent
    exact ⟨⟨pre, post, _, hsplit, hmembershipSent⟩, ⟨pre, post, _, _, hsplit, hchatSent⟩⟩
  · have hbounded := (pre.foldl (step sending) n).onTickOut_bounded sending
    rw [hfixed pre ⟨_, hsplit.symm⟩] at hbounded
    exact hbounded

end SyncNode

namespace Toy

/-- Small bounds: two peers a tick, four ids a claim. -/
def tightSending : Sending toyEnv Toy.room where
  toServing := ⟨512, 200, 1000, fun _ => 300⟩
  maxBackfillFanoutIds := 256
  pullFanoutPeers := 2
  membershipHaveMaxIds := 4
  wrapRoomKey _ _ _ := none
  chunkLen _ := 0

/-- A node with three peers whose next tick is to pull. -/
def meshed : SyncNode toyEnv Toy.sealing Toy.room :=
  .opened { Toy.opened with peers := OrdSet.ofList [device 1, device 2, device 3] }

end Toy

namespace SyncNode

theorem forced_pull_reaches_all_meshed :
    ticks [.onTick, .insertRoomKey 0 0, .onTick] = Toy.meshed.engine.sweepLength Toy.tightSending ∧
      ∀ peer ∈ Toy.meshed.engine.peers, ∃ pre post held, [.onTick, .insertRoomKey 0 0, .onTick] = pre ++ .onTick :: post ∧
        SyncEngine.toPeer Toy.room peer (.wantMembership held) ∈
          (pre.foldl (step Toy.tightSending) Toy.meshed).sends Toy.tightSending .onTick := by
  have hticks : ticks [.onTick, .insertRoomKey 0 0, .onTick] = Toy.meshed.engine.sweepLength Toy.tightSending := by
    decide
  have hstep : ∀ c ∈ [Call.onTick, .insertRoomKey 0 0, .onTick], ∀ n : SyncNode toyEnv Toy.sealing Toy.room,
      (n.step Toy.tightSending c).engine.peers = n.engine.peers := by
    intro c hc n
    simp only [List.mem_cons, List.not_mem_nil, or_false] at hc
    rcases hc with rfl | rfl | rfl
    · exact n.engine.onTick_peers
    · rfl
    · exact n.engine.onTick_peers
  have hfixed : ∀ pre, pre <+: [Call.onTick, .insertRoomKey 0 0, .onTick] →
      (pre.foldl (step Toy.tightSending) Toy.meshed).engine.peers = Toy.meshed.engine.peers := by
    intro pre hpre
    exact List.foldlRecOn pre (step Toy.tightSending) (motive := fun n => n.engine.peers = Toy.meshed.engine.peers) rfl
      fun n hn c hc => (hstep c (hpre.subset hc) n).trans hn
  have hall := forced_pull_reaches_all Toy.tightSending (by decide) rfl hfixed hticks (by decide)
  exact ⟨hticks, fun peer hpeer => (hall.1 peer hpeer).1⟩

end SyncNode

end IrohRooms
