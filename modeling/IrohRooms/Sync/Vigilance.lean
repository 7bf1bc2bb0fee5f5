import IrohRooms.Sync.Carried
import IrohRooms.Sync.Completeness
import IrohRooms.Sync.Rest

/-!
# Tips that stay ahead

The engine chases one tip at a time, and a different tip that is ahead takes its place even if it is lower. As long as
that does not happen, a tip that was ahead when it came is chased until the store catches up with it, and everybody but
the admin is denied all the while (`vigilant_of_oneChase`). What a store has caught up with it never falls behind again
(`isAhead_antitone`), since its admin chains only grow.
-/

namespace IrohRooms

variable {env : Env} {sealing : Sealing} {room : RoomId}

namespace Universe

variable {W : Universe}

/-! ### Growing stores -/

/-- A chain of a store is one of every store of the room that holds its events. -/
theorem chain_mono {s t : EventStore env room} (hs : W.StoreOk s) (ht : W.StoreOk t)
    (hgrow : ∀ id, s.contains id = true → t.contains id = true) {id : EventId} {n : Nat}
    (hchain : EventStore.AdminChain s W.creator id n) : EventStore.AdminChain t W.creator id n := by
  have hsame : ∀ {id row}, s.rows.get? id = some row →
      ∃ row', t.rows.get? id = some row' ∧ row'.event.event = row.event.event := by
    intro id row hrow
    obtain ⟨row', hrow'⟩ := EventStore.contains_iff.mp (hgrow id (EventStore.contains_iff.mpr ⟨row, hrow⟩))
    have hevent := (hs.2 hrow).1
    have hevent' := (ht.2 hrow').1
    rw [Known, s.keyed id row hrow] at hevent
    rw [Known, t.keyed id row' hrow'] at hevent'
    exact ⟨row', hrow', Option.some.inj (hevent'.symm.trans hevent)⟩
  induction hchain with
  | genesis hrow hsender hfirst =>
    obtain ⟨row', hrow', heq⟩ := hsame hrow
    refine .genesis hrow' (heq ▸ hsender) ?_
    rw [Row.isGenesis, heq]
    exact hfirst
  | step hrow hsender hlater hparent _ ih =>
    obtain ⟨row', hrow', heq⟩ := hsame hrow
    refine .step hrow' (heq ▸ hsender) ?_ (heq ▸ hparent) ih
    rw [Row.isGenesis, heq]
    exact hlater

/-- What a store has caught up with stays behind it. -/
theorem isAhead_antitone {e f : SyncEngine env sealing room} (he : W.StoreOk e.store) (hf : W.StoreOk f.store)
    (hgrow : ∀ id, e.store.contains id = true → f.store.contains id = true) {id : EventId} {seq : Nat}
    (h : e.isAhead id seq = false) : f.isAhead id seq = false := by
  rw [SyncEngine.isAhead, Bool.and_eq_false_iff, Bool.not_eq_false'] at h
  rw [SyncEngine.isAhead, Bool.and_eq_false_iff, Bool.not_eq_false']
  rcases h with hlow | hheld
  · left
    cases htip : e.store.adminChainTip with
    | none =>
      rw [htip] at hlow
      cases hlow
    | some t =>
      rw [htip] at hlow
      have hle : ¬ seq > t.2 := of_decide_eq_false hlow
      obtain ⟨t', ht', hle'⟩ := chain_le_tip hf (chain_mono he hf hgrow (chain_of_tip he htip))
      rw [ht']
      exact decide_eq_false (by omega)
  · exact Or.inr (hgrow id hheld)

end Universe

namespace SyncEngine

variable {e f : SyncEngine env sealing room} {W : Universe} {t : EventId × Nat}

/-! ### A tip under chase -/

/-- The tip is being chased, or the store has caught up with it. -/
def Chased (t : EventId × Nat) (e : SyncEngine env sealing room) : Prop :=
  (∃ s, e.suspectTip = some s ∧ (s.id, s.seq) = t) ∨ e.isAhead t.1 t.2 = false

/-- The tip is chased in an engine of the room whose writes succeed. -/
structure Alert (W : Universe) (t : EventId × Nat) (e : SyncEngine env sealing room) : Prop where
  holds : (W.invariant env room).Holds e
  writes : e.store.NeverFails
  retry : e.storeRetry = .empty
  chased : Chased t e

theorem Chased.congr (h : Chased t e) (hrows : f.store.rows = e.store.rows) (hs : f.suspectTip = e.suspectTip) :
    Chased t f := by
  refine h.imp (fun hchased => ?_) fun hbehind => (isAhead_congr hrows t.1 t.2).trans hbehind
  rw [hs]
  exact hchased

theorem Alert.lands (h : Alert W t e) {vs : List (ValidatedEvent env room)} (hl : Lands vs e f)
    (hholds : (W.invariant env room).Holds f) : Alert W t f := by
  refine ⟨hholds, hl.writes, hl.retry, ?_⟩
  rcases h.chased with ⟨s, hs, hst⟩ | hbehind
  · rcases hl.suspect with hsame | ⟨-, hspent⟩
    · exact Or.inl ⟨s, hsame.trans hs, hst⟩
    · right
      rw [← hst]
      exact hspent s hs
  · exact Or.inr (Universe.isAhead_antitone h.holds.store hholds.store (fun id hid => (hl.contains id).mpr (Or.inl hid)) hbehind)

theorem Alert.books (h : Alert W t e) (hbooks : Reparks W.Known e f) : Alert W t f := by
  refine ⟨⟨?_, ?_, ?_, fun {id p} hp => ?_, ?_, ?_⟩, ?_, hbooks.retry.trans h.retry, ?_⟩
  · rw [hbooks.fold]
    exact h.holds.fold
  · rw [hbooks.store]
    exact h.holds.store
  · rw [snapshot, hbooks.projection]
    exact h.holds.projection
  · rcases hbooks.parked id p hp with ⟨id', hold⟩ | hnew
    · exact h.holds.park hold
    · exact hnew
  · rw [hbooks.retry]
    exact h.holds.retry
  · rw [hbooks.pendingBatch]
    exact h.holds.pending
  · rw [hbooks.store]
    exact h.writes
  · exact h.chased.congr (congrArg EventStore.rows hbooks.store) hbooks.posture.1

theorem Alert.ingestFold (h : Alert W t e) {v : ValidatedEvent env room} (hv : W.Known v) :
    Alert W t (e.ingestFold v) := by
  have hholds := h.holds.ingestFold hv
  rw [ingestFold_eq] at hholds ⊢
  exact ⟨hholds, h.writes, h.retry, h.chased.congr rfl rfl⟩

theorem Alert.queue (h : Alert W t e) {v : ValidatedEvent env room} (hv : W.Sound v) :
    Alert W t ({ e with
      backfillDepth := e.backfillDepth.erase v.eventId
      pendingBatch := e.pendingBatch ++ [v] } : SyncEngine env sealing room) := by
  refine ⟨⟨h.holds.fold, h.holds.store, h.holds.projection, h.holds.park, h.holds.retry, fun w hw => ?_⟩, h.writes,
    h.retry, h.chased.congr rfl rfl⟩
  rcases List.mem_append.mp hw with hold | hnew
  · exact h.holds.pending w hold
  · rw [List.mem_singleton.mp hnew]
    exact hv

theorem alert_carried (W : Universe) (t : EventId × Nat) :
    Carried W.Known (Alert W t : SyncEngine env sealing room → Prop) where
  parked h hp := h.holds.park hp
  books h hbooks := h.books hbooks
  ingest h hv := h.ingestFold hv
  queue h hv hout := (h.ingestFold hv).queue (h.holds.sound_of_accepted hv hout)
  promote {e v id id' flags} h hv hout := by
    have hevicted := (h.ingestFold hv).books (evictParked_reparks _ id)
    have hsound := h.holds.sound_of_accepted hv hout
    exact hevicted.lands (storeAndFanout_lands hevicted.writes hevicted.retry v).1 (hevicted.holds.storeAndFanout hsound)
  flush h := h.lands (flushStoreBatch_lands h.writes h.retry).1 h.holds.flushStoreBatch

/-! ### Tips -/

/-- A tip that is ahead comes while another is chased only if it is that one. -/
def OneChaseStep (e : SyncEngine env sealing room) (input : Input) : Prop :=
  ∀ t, input = .onMessage room (.adminTip (some t)) → e.isAhead t.1 t.2 = true → e.stillBehind = true →
    ∃ s, e.suspectTip = some s ∧ (s.id, s.seq) = t

theorem recomputeCompleteness_chased (h : Chased t e) : Chased t e.recomputeCompleteness := by
  rcases h with ⟨s, hs, rfl⟩ | hbehind
  · cases hb : e.stillBehind with
    | true =>
      refine Or.inl ⟨s, ?_, rfl⟩
      unfold recomputeCompleteness
      simp [hb, hs]
    | false =>
      rw [stillBehind, hs] at hb
      exact Or.inr hb
  · exact Or.inr hbehind

theorem armSuspectTip_chased (e : SyncEngine env sealing room) (t : EventId × Nat) : Chased t (e.armSuspectTip t.1 t.2) := by
  obtain ⟨attempts, htip⟩ := e.armSuspectTip_suspectTip t.1 t.2
  exact Or.inl ⟨_, htip, rfl⟩

/-- A tip that takes no other's place leaves the chase as it is. -/
theorem handleAdminTip_chased (h : Chased t e) {tip : Option (EventId × Nat)}
    (hone : ∀ u, tip = some u → e.isAhead u.1 u.2 = true → e.stillBehind = true →
      ∃ s, e.suspectTip = some s ∧ (s.id, s.seq) = u) : Chased t (e.handleAdminTip tip) := by
  unfold handleAdminTip
  apply recomputeCompleteness_chased
  split
  · rename_i u
    split_ifs with hahead
    · obtain ⟨⟨-, -, -, hstore, -, -⟩, -⟩ := e.armSuspectTip_untouched u.1 u.2
      have hrows : (e.armSuspectTip u.1 u.2).store.rows = e.store.rows := congrArg EventStore.rows hstore
      rcases h with ⟨s, hs, rfl⟩ | hbehind
      · cases hb : e.stillBehind with
        | true =>
          -- the tip being chased is the one that came
          obtain ⟨s', hs', rfl⟩ := hone u rfl hahead hb
          rw [hs] at hs'
          rw [Option.some.inj hs']
          exact e.armSuspectTip_chased _
        | false =>
          rw [stillBehind, hs] at hb
          exact Or.inr ((isAhead_congr hrows _ _).trans hb)
      · exact Or.inr ((isAhead_congr hrows _ _).trans hbehind)
    · exact h
  · exact h

/-! ### Runs -/

/-- The tips received since the last tick that were ahead when they came, after one more call. -/
def received (e : SyncEngine env sealing room) (tips : List (EventId × Nat)) : Input → List (EventId × Nat)
  | .onTick => []
  | .onMessage msgRoom (.adminTip (some t)) => if msgRoom = room ∧ e.isAhead t.1 t.2 = true then t :: tips else tips
  | _ => tips

/-- The tips a run leaves, in the same sense. -/
def tipsOf (e : SyncEngine env sealing room) (tips : List (EventId × Nat)) : List Input → List (EventId × Nat)
  | [] => tips
  | input :: inputs => (e.step input).tipsOf (e.received tips input) inputs

def OneChase (e : SyncEngine env sealing room) : List Input → Prop
  | [] => True
  | input :: inputs => e.OneChaseStep input ∧ (e.step input).OneChase inputs

/-- A received tip that is still ahead makes the view suspect, and every member but the admin is denied. -/
def Vigilant (tips : List (EventId × Nat)) (e : SyncEngine env sealing room) : Prop :=
  ∀ t ∈ tips, e.isAhead t.1 t.2 = true → e.completeness = .adminViewSuspect ∧
    ∀ m ∈ e.snapshot.members.values, e.snapshot.admin ≠ some m.identity → m.status ≠ .removed →
      m.identity ∈ e.failClosedSubjects

/-- A tip being chased denies everybody. -/
theorem AtRest.vigilant (h : e.AtRest) {tips : List (EventId × Nat)} (hchased : ∀ t ∈ tips, Chased t e) :
    Vigilant tips e := by
  intro t ht hahead
  have hbehind : e.stillBehind = true := by
    rcases hchased t ht with ⟨s, hs, rfl⟩ | hno
    · rw [stillBehind, hs]
      exact hahead
    · rw [hno] at hahead
      cases hahead
  refine ⟨?_, fun m hm hadmin hstatus => ?_⟩
  · rw [h.current.completeness, if_pos hbehind]
  · rw [failClosedSubjects, h.current.failClosed, if_pos hbehind, OrdSet.mem_toList, removalSensitive, OrdSet.mem_ofList]
    refine List.mem_map.mpr ⟨m, List.mem_filter.mpr ⟨hm, ?_⟩, rfl⟩
    rw [Bool.and_eq_true, decide_eq_true_eq, decide_eq_true_eq]
    exact ⟨hadmin, hstatus⟩

theorem received_of_plain {tips : List (EventId × Nat)} {input : Input} (h : input.Plain room) :
    e.received tips input = tips := by
  unfold Input.Plain at h
  split at h
  · exact absurd h id
  · rename_i msgRoom tip
    cases tip with
    | none => rfl
    | some t => exact if_neg fun hboth => h hboth.1
  · unfold received
    split
    · rename_i hno _
      exact absurd rfl hno
    · rename_i hno
      exact absurd rfl (hno _ _)
    · rfl

/-- A tip of the room, chased from now on if it is ahead. -/
theorem AtRest.tip_chased (h : e.AtRest) (hholds : (W.invariant env room).Holds e) {tips : List (EventId × Nat)}
    (hchased : ∀ t ∈ tips, Chased t e) {tip : Option (EventId × Nat)}
    (hone : e.OneChaseStep (.onMessage room (.adminTip tip))) :
    ∀ t ∈ e.received tips (.onMessage room (.adminTip tip)), Chased t (e.step (.onMessage room (.adminTip tip))) := by
  obtain ⟨hu, -⟩ := e.handleAdminTip_untouched tip
  have hstep : e.step (.onMessage room (.adminTip tip)) = (e.handleAdminTip tip).finalizeDelivery := if_neg (not_not.mpr rfl)
  have hkept : ∀ t, Chased t e → Chased t (e.handleAdminTip tip) := by
    intro t ht
    refine handleAdminTip_chased ht fun u hu' => ?_
    subst hu'
    exact hone u rfl
  have hafter : ∀ t ∈ e.received tips (.onMessage room (.adminTip tip)), Chased t (e.handleAdminTip tip) := by
    intro t ht
    cases tip with
    | none => exact hkept t (hchased t ht)
    | some u =>
      unfold received at ht
      dsimp only at ht
      split_ifs at ht with hahead
      · rcases List.mem_cons.mp ht with rfl | hold
        · unfold handleAdminTip
          dsimp only
          rw [if_pos hahead.2]
          exact recomputeCompleteness_chased (e.armSuspectTip_chased t)
        · exact hkept t (hchased t hold)
      · exact hkept t (hchased t ht)
  rw [hstep]
  intro t ht
  refine ((alert_carried W t).finalizeDelivery ⟨hholds.handleAdminTip tip, ?_, ?_, hafter t ht⟩).chased
  · rw [hu.store]
    exact h.synced.writes
  · rw [hu.retry]
    exact h.synced.retry

/-- One call keeps every received tip under chase. -/
theorem AtRest.step_chased (h : e.AtRest) (hholds : (W.invariant env room).Holds e) {tips : List (EventId × Nat)}
    (hchased : ∀ t ∈ tips, Chased t e) {input : Input} (hone : e.OneChaseStep input)
    (hknown : ∀ frame ∈ input.frames, (W.invariant env room).KnownFrame frame) :
    ∀ t ∈ e.received tips input, Chased t (e.step input) := by
  by_cases hplain : input.Plain room
  · rw [received_of_plain hplain]
    intro t ht
    exact ((alert_carried W t).step_plain ⟨hholds, h.synced.writes, h.synced.retry, hchased t ht⟩ hplain hknown).chased
  · unfold Input.Plain at hplain
    split at hplain
    · exact fun t ht => absurd ht List.not_mem_nil
    · rw [not_not.mp hplain] at hone ⊢
      exact h.tip_chased hholds hchased hone
    · exact absurd trivial hplain

theorem AtRest.steps_chased {inputs : List Input} {tips : List (EventId × Nat)} (h : e.AtRest)
    (hholds : (W.invariant env room).Holds e) (hchased : ∀ t ∈ tips, Chased t e) (hroomy : e.RoomyRun inputs)
    (hone : e.OneChase inputs) (hknown : ∀ input ∈ inputs, ∀ frame ∈ input.frames, (W.invariant env room).KnownFrame frame) :
    ∀ t ∈ e.tipsOf tips inputs, Chased t (inputs.foldl SyncEngine.step e) := by
  induction inputs generalizing e tips with
  | nil => exact hchased
  | cons input inputs ih =>
    have hinput := hknown input List.mem_cons_self
    exact ih (h.step hroomy.1) (hholds.step hinput) (h.step_chased hholds hchased hone.1 hinput) hroomy.2 hone.2
      fun i hi => hknown i (List.mem_cons_of_mem _ hi)

/-- In a run in which each event that has to wait has room, and no tip that is ahead takes the place of another one
still ahead, every tip that was ahead when it came and still is makes the view suspect and denies everybody. -/
theorem vigilant_of_oneChase {config : SyncConfig} {seed : Option SigningKey} {store : EventStore env room}
    {tables : SyncTables env room} (hwrites : store.NeverFails) (hstoreOk : W.StoreOk store)
    (hparked : ∀ id p, tables.parked.get? id = some p → p.event.eventId = id ∧ W.Occurs id p.event.event)
    (hstored : ∀ id, store.contains id = true →
      (RoomMembership.fromEvents (store.roomTail.map Row.event)).isAccepted id = true)
    (hopen : openEngine config seed store tables = .ok e) {inputs : List Input}
    (hoccurs : ∀ input ∈ inputs, ∀ frame ∈ input.frames, W.Occurs frame.eventId frame.event)
    (hroomy : e.RoomyRun inputs) (hone : e.OneChase inputs) :
    Vigilant (e.tipsOf [] inputs) (inputs.foldl SyncEngine.step e) := by
  obtain ⟨hrest, hholds⟩ := opened_ok hwrites hstoreOk hparked hstored hopen
  exact (hrest.steps hroomy).vigilant
    (hrest.steps_chased hholds (fun _ ht => absurd ht List.not_mem_nil) hroomy hone (knownFrames_of_occurs hoccurs))

end SyncEngine

/-! ### The worked room -/

namespace Toy

/-- The member room, then a tip far ahead. -/
def farTip : List SyncEngine.Input :=
  memberRoom.map (fun p => .ingestFrame (frame p)) ++ [.onMessage Toy.room (.adminTip (some (Bytes32.ofNat 9, 5)))]

/-- Then the tip of another peer, lower but ahead, and its event, a message of the admin. -/
def nearTip : List SyncEngine.Input :=
  farTip ++ [.onMessage Toy.room (.adminTip (some (Bytes32.ofNat 8, 2))), .ingestFrame (frame (8, message 1 "hello" [2]))]

def memberUniverse : Universe := roomOf memberRoom (by decide)

theorem farTip_roomy : opened.RoomyRun farTip := by
  refine ⟨fun _ v _ _ _ => ?_, fun _ v _ _ _ => ?_, fun _ v _ _ _ => ?_, fun _ => trivial, trivial⟩
  · exact hasRoom_of_small (by decide) v
  · exact hasRoom_of_small (by decide +kernel) v
  · exact hasRoom_of_small (by decide +kernel) v

theorem farTip_oneChase : opened.OneChase farTip := by
  have hframe : ∀ (e : SyncEngine toyEnv Toy.sealing Toy.room) (f : Frame), e.OneChaseStep (.ingestFrame f) :=
    fun _ _ _ ht => by cases ht
  refine ⟨hframe _ _, hframe _ _, hframe _ _, fun _ _ _ hbehind => ?_, trivial⟩
  exact absurd hbehind (by decide +kernel)

theorem farTip_occurs : ∀ input ∈ farTip, ∀ f ∈ input.frames, memberUniverse.Occurs f.eventId f.event := by
  intro input hi f hf
  rcases List.mem_append.mp hi with hevent | htip
  · obtain ⟨p, hp, rfl⟩ := List.mem_map.mp hevent
    rw [List.mem_singleton.mp hf]
    exact event?_roomOf (by decide) hp
  · rw [List.mem_singleton.mp htip] at hf
    cases hf

end Toy

namespace SyncEngine

theorem vigilant_of_oneChase_farTip :
    Vigilant (Toy.opened.tipsOf [] Toy.farTip) (Toy.farTip.foldl SyncEngine.step Toy.opened) := by
  have hopen : openEngine .standard none (.openEmpty []) ⟨.empty, none, .empty, .empty⟩ = .ok Toy.opened := rfl
  refine vigilant_of_oneChase (W := Toy.memberUniverse) ?_ ?_ ?_ ?_ hopen Toy.farTip_occurs Toy.farTip_roomy
    Toy.farTip_oneChase
  · exact fun _ hok => absurd hok List.not_mem_nil
  · exact (Toy.memberUniverse.invariant toyEnv Toy.room).storeEmpty []
  · exact fun _ _ hp => nomatch hp
  · exact fun _ hid => nomatch hid

/-- The near tip takes the place of the far one; once its event is stored nobody is denied any more, although the far
tip is as far ahead as before. -/
theorem nearTip_forgets_farTip : (Bytes32.ofNat 9, 5) ∈ Toy.opened.tipsOf [] Toy.nearTip ∧
    (Toy.nearTip.foldl SyncEngine.step Toy.opened).isAhead (Bytes32.ofNat 9) 5 = true ∧
    (Toy.nearTip.foldl SyncEngine.step Toy.opened).completeness = .complete ∧
    (Toy.nearTip.foldl SyncEngine.step Toy.opened).failClosedSubjects = [] ∧
    ¬ Vigilant (Toy.opened.tipsOf [] Toy.nearTip) (Toy.nearTip.foldl SyncEngine.step Toy.opened) := by
  obtain ⟨htip, hahead, hcomplete, hopen⟩ : (Bytes32.ofNat 9, 5) ∈ Toy.opened.tipsOf [] Toy.nearTip ∧
      (Toy.nearTip.foldl SyncEngine.step Toy.opened).isAhead (Bytes32.ofNat 9) 5 = true ∧
      (Toy.nearTip.foldl SyncEngine.step Toy.opened).completeness = .complete ∧
      (Toy.nearTip.foldl SyncEngine.step Toy.opened).failClosedSubjects = [] := by decide +kernel
  refine ⟨htip, hahead, hcomplete, hopen, fun hvigilant => ?_⟩
  rw [(hvigilant _ htip hahead).1] at hcomplete
  cases hcomplete

end SyncEngine

end IrohRooms
