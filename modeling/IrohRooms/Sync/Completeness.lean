import IrohRooms.Membership.Convergence
import IrohRooms.Membership.Snapshot
import IrohRooms.Store.Columns
import IrohRooms.Sync.Invariant

/-!
# Detecting a withheld admin event

A node that is told of an admin tip ahead of its own fails closed. A tip is measured by `admin_seq`, so between two
nodes of one room the advertisement tells exactly whether the sender holds a longer chain of admin events that cite
each other directly (`withheld_detected_iff`). An admin event that cites only other members' events lengthens no
chain, and a node that lacks such a removal is not told.
-/

namespace IrohRooms

/-- The events of a room as they occur at its nodes: an id stands for one event, and one identity created the
room. -/
structure Universe where
  event? : EventId → Option SignedEvent
  creator : IdentityKey
  genesis : ∀ {id e}, event? id = some e → e.eventType = .roomCreated → e.senderId = creator

namespace Universe

variable {env : Env} {sealing : Sealing} {room : RoomId} (W : Universe)

def Occurs (id : EventId) (event : SignedEvent) : Prop := W.event? id = some event

def deps (id : EventId) : Option (List EventId) := (W.event? id).map SignedEvent.prevEvents

/-! ### The invariant of a node's store -/

/-- The event occurs. -/
def Known (v : ValidatedEvent env room) : Prop := W.Occurs v.eventId v.event

/-- The event and its whole ancestry occur, and no ancestry is endless. -/
def Sound (v : ValidatedEvent env room) : Prop := W.Known v ∧ Staged.Ready W.deps v.eventId

def FoldOk (m : RoomMembership env room) : Prop :=
  m.Settled ∧ ∀ {id e}, m.event? id = some e → W.Occurs id e

def StoreOk (s : EventStore env room) : Prop :=
  s.Consistent ∧ ∀ {id row}, s.rows.get? id = some row → W.Sound row.event

variable {W}

theorem FoldOk.ingest {m : RoomMembership env room} {v : ValidatedEvent env room} (h : W.FoldOk m)
    (hv : W.Known v) : W.FoldOk (m.ingest v) := by
  refine ⟨h.1.ingest v, ?_⟩
  intro id e he
  rw [RoomMembership.ingest_event? h.1.wf, Option.or_eq_some_iff] at he
  rcases he with hold | ⟨-, hnew⟩
  · exact h.2 hold
  · split_ifs at hnew with hid
    rw [hid, ← Option.some.inj hnew]
    exact hv

/-- An accepted event is classified, hence its ancestry is there. -/
theorem FoldOk.sound {m : RoomMembership env room} {v : ValidatedEvent env room} {id : EventId} {flags : List Flag}
    (h : W.FoldOk m) (hv : W.Known v) (hout : (m.ingest v).outcome v.eventId = .accepted id flags) : W.Sound v := by
  have hnext := h.ingest hv
  have hresult : (m.ingest v).result v.eventId ≠ none := by
    unfold RoomMembership.outcome at hout
    split at hout
    · cases hout
    · rename_i n hn
      rw [RoomMembership.result_of_node hn]
      split at hout
      · rename_i hverdict
        simp [hverdict, Verdict.outcome]
      · cases hout
      · cases hout
  refine ⟨hv, (hnext.1.wf.ready hresult).mono ?_⟩
  intro i ds hds
  obtain ⟨e, he, rfl⟩ := Option.map_eq_some_iff.mp hds
  exact Option.map_eq_some_iff.mpr ⟨e, hnext.2 he, rfl⟩

/-- A stored event depends on what it depends on in the room. -/
theorem deps_of_stored {s : EventStore env room} (h : ∀ {id row}, s.rows.get? id = some row → W.Sound row.event)
    {id : EventId} {ds : List EventId} (hds : s.deps id = some ds) : W.deps id = some ds := by
  obtain ⟨v, hv, rfl⟩ := Option.map_eq_some_iff.mp hds
  obtain ⟨row, hrow, rfl⟩ := EventStore.event?_eq_some.mp hv
  rw [← s.keyed id row hrow]
  exact Option.map_eq_some_iff.mpr ⟨_, (h hrow).1, rfl⟩

theorem createdBy_of_stored {s : EventStore env room}
    (h : ∀ {id row}, s.rows.get? id = some row → W.Sound row.event) : EventStore.CreatedBy W.creator s := by
  intro id row hrow hgenesis
  apply W.genesis (h hrow).1
  simpa [Row.isGenesis] using hgenesis

theorem acyclic_of_stored {s : EventStore env room}
    (h : ∀ {id row}, s.rows.get? id = some row → W.Sound row.event) : s.Acyclic := by
  intro id hbelow
  have hroom : Staged.Below W.deps id id := hbelow.mono (deps_of_stored h)
  -- the last step of the cycle starts at a stored event
  obtain ⟨d, hd, -⟩ := Staged.Below.cases hbelow
  obtain ⟨row, hrow, -⟩ := EventStore.dep_iff.mp hd
  have hready := (h hrow).2
  rw [s.keyed id row hrow] at hready
  exact hready.not_below_self hroom

theorem StoreOk.insertInTx {s : EventStore env room} {v : ValidatedEvent env room} (h : W.StoreOk s)
    (hv : W.Sound v) : W.StoreOk (s.insertInTx v).1 := by
  have hrows : ∀ {id row}, (s.setRow ⟨v, none, none⟩).rows.get? id = some row → W.Sound row.event := by
    intro id row hrow
    rw [EventStore.setRow_get?] at hrow
    split_ifs at hrow
    · rw [← Option.some.inj hrow]
      exact hv
    · exact h.2 hrow
  obtain ⟨hcons, hevents⟩ :=
    EventStore.insertInTx_spec h.1 (createdBy_of_stored hrows) (acyclic_of_stored hrows)
  refine ⟨hcons, ?_⟩
  intro id row hrow
  have hevent := EventStore.event?_eq_some.mpr ⟨row, hrow, rfl⟩
  rw [hevents] at hevent
  split_ifs at hevent
  · rw [← Option.some.inj hevent]
    exact hv
  · obtain ⟨row', hrow', heq⟩ := EventStore.event?_eq_some.mp hevent
    rw [← heq]
    exact h.2 hrow'

variable (W) in
/-- Every node of the room keeps a fold and a store of events that occur, with the columns a fixpoint. -/
def invariant (env : Env) (room : RoomId) : EngineInvariant env room where
  Known := W.Known
  Sound := W.Sound
  FoldOk := W.FoldOk
  StoreOk := W.StoreOk
  foldNew := ⟨RoomMembership.settled_new, fun h => nomatch h⟩
  ingest := FoldOk.ingest
  accepted := FoldOk.sound
  storeEmpty _ := ⟨fun _ _ h => (nomatch h), fun h => (nomatch h)⟩
  scheduled _ h := h
  insertInTx := StoreOk.insertInTx
  stored h hrow := (h.2 hrow).1

theorem knownFrame_of_occurs {frame : Frame} (h : W.Occurs frame.eventId frame.event) :
    (W.invariant env room).KnownFrame frame := by
  intro v hid hevent
  show W.Occurs v.eventId v.event
  rw [hid, hevent]
  exact h

/-- A parked event is known if it occurs under the id it is kept under. -/
theorem known_of_filed {id : EventId} {v : ValidatedEvent env room}
    (h : v.eventId = id ∧ W.Occurs id v.event) : (W.invariant env room).Known v := by
  obtain ⟨rfl, hoccurs⟩ := h
  exact hoccurs

theorem storeOk_of_reachable {e : SyncEngine env sealing room} (h : Reachable W.Occurs e) : W.StoreOk e.store :=
  (h.holds (W.invariant env room) fun _ hv => hv).store

/-! ### Chains and tips -/

/-- Every parent of a stored event is stored. -/
def Placed (s : EventStore env room) : Prop :=
  ∀ id row, s.rows.get? id = some row → ∀ p ∈ row.event.event.prevEvents, s.contains p = true

/-- A chain of one node that ends in an event of a placed node is a chain there. -/
theorem chain_transfer {s t : EventStore env room} (hs : W.StoreOk s) (ht : W.StoreOk t) (hplaced : Placed t)
    {id : EventId} {n : Nat} (hchain : EventStore.AdminChain s W.creator id n) (hstored : t.contains id = true) :
    EventStore.AdminChain t W.creator id n := by
  have hsame : ∀ {id row row'}, s.rows.get? id = some row → t.rows.get? id = some row' →
      row'.event.event = row.event.event := by
    intro id row row' hrow hrow'
    have hevent := (hs.2 hrow).1
    have hevent' := (ht.2 hrow').1
    rw [Known, s.keyed id row hrow] at hevent
    rw [Known, t.keyed id row' hrow'] at hevent'
    exact Option.some.inj (hevent'.symm.trans hevent)
  have hgenesis : ∀ {row row' : Row env room}, row'.event.event = row.event.event →
      row'.isGenesis = row.isGenesis := by
    intro row row' heq
    rw [Row.isGenesis, Row.isGenesis, heq]
  induction hchain with
  | genesis hrow hsender hfirst =>
    obtain ⟨row', hrow'⟩ := EventStore.contains_iff.mp hstored
    have heq := hsame hrow hrow'
    exact .genesis hrow' (heq ▸ hsender) ((hgenesis heq).trans hfirst)
  | step hrow hsender hlater hparent _ ih =>
    obtain ⟨row', hrow'⟩ := EventStore.contains_iff.mp hstored
    have heq := hsame hrow hrow'
    have hparent' := heq ▸ hparent
    exact .step hrow' (heq ▸ hsender) ((hgenesis heq).trans hlater) hparent' (ih (hplaced _ _ hrow' _ hparent'))

/-- No chain is longer than the tip. -/
theorem chain_le_tip {s : EventStore env room} (h : W.StoreOk s) {id : EventId} {n : Nat}
    (hchain : EventStore.AdminChain s W.creator id n) : ∃ t, s.adminChainTip = some t ∧ n ≤ t.2 := by
  obtain ⟨-, m, hm, hnm⟩ := h.1.adminSeq_of_chain (createdBy_of_stored h.2) hchain
  obtain ⟨t, ht, hmt⟩ := EventStore.le_adminChainTip hm
  exact ⟨t, ht, hnm.trans hmt⟩

theorem chain_of_tip {s : EventStore env room} (h : W.StoreOk s) {t : EventId × Nat}
    (ht : s.adminChainTip = some t) : EventStore.AdminChain s W.creator t.1 t.2 :=
  h.1.chain_of_adminSeq (createdBy_of_stored h.2) (EventStore.adminSeqOf_adminChainTip ht)

/-- An advertised tip is ahead exactly when it is higher than every chain held. -/
theorem isAhead_iff {N : SyncEngine env sealing room} {s : EventStore env room} (hN : W.StoreOk N.store)
    (hs : W.StoreOk s) (hplaced : Placed N.store) {t : EventId × Nat} (ht : s.adminChainTip = some t) :
    N.isAhead t.1 t.2 = true ↔ ∀ id n, EventStore.AdminChain N.store W.creator id n → n < t.2 := by
  rw [SyncEngine.isAhead, Bool.and_eq_true]
  constructor
  · intro ⟨hhigher, _⟩ id n hchain
    obtain ⟨t', ht', hn⟩ := chain_le_tip hN hchain
    rw [ht'] at hhigher
    have hlt : t.2 > t'.2 := of_decide_eq_true hhigher
    omega
  · intro h
    constructor
    · cases htip : N.store.adminChainTip with
      | none => rfl
      | some t' => exact decide_eq_true (h t'.1 t'.2 (chain_of_tip hN htip))
    · rw [Bool.not_eq_true', ← Bool.not_eq_true]
      intro hstored
      have hlt := h t.1 t.2 (chain_transfer hs hN hplaced (chain_of_tip hs ht) hstored)
      omega

end Universe

/-! ### Handling an advertisement -/

section Handling

variable {env : Env} {sealing : Sealing} {room : RoomId}

/-- A node turns suspect on a tip ahead of it, or stays so on the one it is chasing. -/
theorem handleAdminTip_suspect (e : SyncEngine env sealing room) (tip : Option (EventId × Nat)) :
    (e.handleAdminTip tip).completeness = .adminViewSuspect ↔
      (∃ t, tip = some t ∧ e.isAhead t.1 t.2 = true) ∨ e.stillBehind = true := by
  have hrecompute : ∀ e' : SyncEngine env sealing room,
      e'.recomputeCompleteness.completeness = .adminViewSuspect ↔ e'.stillBehind = true := by
    intro e'
    unfold SyncEngine.recomputeCompleteness
    dsimp only
    split_ifs <;> simp_all
  unfold SyncEngine.handleAdminTip
  rw [hrecompute]
  cases tip with
  | none => simp
  | some t =>
    by_cases hahead : e.isAhead t.1 t.2 = true
    · simp only [hahead, if_true]
      -- armed afresh or kept, the suspicion is this tip's, and it is ahead
      have harmed : (e.armSuspectTip t.1 t.2).stillBehind = true := by
        unfold SyncEngine.armSuspectTip
        dsimp only
        split_ifs with hfresh
        · exact hahead
        · cases hold : e.suspectTip with
          | none => simp [hold] at hfresh
          | some old =>
            simp only [hold, ne_eq, decide_not, Bool.or_eq_true, Bool.not_eq_true', decide_eq_false_iff_not,
              not_or, not_not] at hfresh
            rw [SyncEngine.stillBehind, hold]
            simp only [hfresh.1, hfresh.2, hahead]
      simp [harmed, hahead]
    · simp [hahead]

/-- Every non-admin, non-Removed member is denied. -/
def FailsClosed (e : SyncEngine env sealing room) : Prop :=
  ∀ i, i ∈ e.failClosedSubjects ↔
    ∃ m, e.snapshot.member i = some m ∧ e.snapshot.admin ≠ some i ∧ m.status ≠ .removed

/-- A node that handles an advertisement and is suspect fails closed. -/
theorem handleAdminTip_failsClosed {occurs : EventId → SignedEvent → Prop} {e : SyncEngine env sealing room}
    (hreach : Reachable occurs e) (tip : Option (EventId × Nat))
    (hsuspect : (e.handleAdminTip tip).completeness = .adminViewSuspect) : FailsClosed (e.handleAdminTip tip) := by
  obtain ⟨scope, hfold⟩ := hreach.snapshot_eq_fold
  have hsnapshot : (e.handleAdminTip tip).snapshot = e.snapshot := by
    cases tip with
    | none => rfl
    | some t =>
      unfold SyncEngine.handleAdminTip SyncEngine.armSuspectTip
      dsimp only
      split_ifs <;> rfl
  have hclosed : (e.handleAdminTip tip).failClosed = SyncEngine.removalSensitive e.snapshot := by
    rw [← hsnapshot]
    unfold SyncEngine.handleAdminTip SyncEngine.recomputeCompleteness at hsuspect ⊢
    dsimp only at hsuspect ⊢
    split_ifs at hsuspect ⊢
    rfl
  intro i
  rw [SyncEngine.failClosedSubjects, hclosed, hsnapshot, OrdSet.mem_toList, SyncEngine.removalSensitive,
    OrdSet.mem_ofList, List.mem_map]
  have hfiled : ∀ {j m}, e.snapshot.member j = some m → m.identity = j := by
    intro j m hm
    rw [hfold] at hm
    exact fold_member_identity hm
  constructor
  · intro ⟨m, hm, hid⟩
    obtain ⟨hmem, hkept⟩ := List.mem_filter.mp hm
    obtain ⟨j, hj⟩ := OrdMap.mem_values.mp hmem
    have hji : j = i := (hfiled hj).symm.trans hid
    rw [hid] at hkept
    exact ⟨m, hji ▸ hj, by simpa using hkept⟩
  · intro ⟨m, hm, hkept⟩
    refine ⟨m, List.mem_filter.mpr ⟨OrdMap.mem_values.mpr ⟨i, hm⟩, ?_⟩, hfiled hm⟩
    rw [hfiled hm]
    simpa using hkept

/-- Told of the admin tip of another node, a placed node turns suspect and fails closed exactly when the other node
holds an admin chain longer than all of its own, or when it was behind a tip already. -/
theorem withheld_detected_iff (W : Universe) (N P : SyncEngine env sealing room) (hN : Reachable W.Occurs N)
    (hP : Reachable W.Occurs P) (hplaced : Universe.Placed N.store) :
    ((N.handleAdminTip P.store.adminChainTip).completeness = .adminViewSuspect ∧
      FailsClosed (N.handleAdminTip P.store.adminChainTip)) ↔
    (∃ id k, EventStore.AdminChain P.store W.creator id k ∧
      ∀ id' n, EventStore.AdminChain N.store W.creator id' n → n < k) ∨ N.stillBehind = true := by
  have hstoreN := Universe.storeOk_of_reachable hN
  have hstoreP := Universe.storeOk_of_reachable hP
  have hboth : ((N.handleAdminTip P.store.adminChainTip).completeness = .adminViewSuspect ∧
      FailsClosed (N.handleAdminTip P.store.adminChainTip)) ↔
      (N.handleAdminTip P.store.adminChainTip).completeness = .adminViewSuspect :=
    ⟨fun h => h.1, fun h => ⟨h, handleAdminTip_failsClosed hN _ h⟩⟩
  rw [hboth, handleAdminTip_suspect]
  constructor
  · intro h
    rcases h with ⟨t, ht, hahead⟩ | hbehind
    · exact Or.inl ⟨t.1, t.2, Universe.chain_of_tip hstoreP ht,
        (Universe.isAhead_iff hstoreN hstoreP hplaced ht).mp hahead⟩
    · exact Or.inr hbehind
  · intro h
    rcases h with ⟨id, k, hchain, hlonger⟩ | hbehind
    · obtain ⟨t, ht, hk⟩ := Universe.chain_le_tip hstoreP hchain
      refine Or.inl ⟨t, ht, (Universe.isAhead_iff hstoreN hstoreP hplaced ht).mpr ?_⟩
      intro id' n hchain'
      have hlt := hlonger id' n hchain'
      omega
    · exact Or.inr hbehind

end Handling

namespace Toy

/-- The universe of a log created by participant 1. -/
def roomOf (events : List (Nat × SignedEvent))
    (h : ∀ p ∈ events, p.2.eventType = .roomCreated → p.2.senderId = identity 1) : Universe where
  event? id := (events.find? fun p => Bytes32.ofNat p.1 == id).map Prod.snd
  creator := identity 1
  genesis := by
    intro id e he hgenesis
    obtain ⟨p, hp, rfl⟩ := Option.map_eq_some_iff.mp he
    exact h p (List.mem_of_find?_eq_some hp) hgenesis

theorem event?_roomOf {events : List (Nat × SignedEvent)}
    {h : ∀ p ∈ events, p.2.eventType = .roomCreated → p.2.senderId = identity 1}
    (hids : (events.map fun p => (Bytes32.ofNat p.1 : EventId)).Nodup) {p : Nat × SignedEvent} (hp : p ∈ events) :
    (roomOf events h).event? (Bytes32.ofNat p.1) = some p.2 := by
  have hfound : (events.find? fun q => (Bytes32.ofNat q.1 : EventId) == Bytes32.ofNat p.1).isSome = true :=
    List.find?_isSome.mpr ⟨p, hp, beq_self_eq_true _⟩
  obtain ⟨q, hq⟩ := Option.isSome_iff_exists.mp hfound
  have hid := List.find?_some hq
  have hsame : q = p := List.inj_on_of_nodup_map hids (List.mem_of_find?_eq_some hq) hp (eq_of_beq hid)
  exact Option.map_eq_some_iff.mpr ⟨q, hq, congrArg Prod.snd hsame⟩

/-- Member 2 joined; the node that is told holds no more than this. -/
def memberRoom : List (Nat × SignedEvent) :=
  [(1, genesis), (2, invite 2 2 .member none [1]), (3, join 2 2 .member [2])]

/-- The removal of member 2 cites the admin's invite. -/
def removedDirectly : List (Nat × SignedEvent) := memberRoom ++ [(4, remove 2 1 [2])]

/-- The removal of member 2 cites that member's own message. -/
def removedAbove : List (Nat × SignedEvent) := memberRoom ++ [(4, message 2 "hello" [3]), (5, remove 2 1 [4])]

def directRoom : Universe := roomOf removedDirectly (by decide)

def aboveRoom : Universe := roomOf removedAbove (by decide)

theorem placed_of {s : EventStore toyEnv room}
    (h : ∀ e ∈ s.rows.entries, ∀ p ∈ e.2.event.event.prevEvents, s.contains p = true) : Universe.Placed s :=
  fun id row hrow => h (id, row) (OrdMap.mem_entries.mpr hrow)

end Toy

/-- A removal that cites an admin event is noticed. -/
theorem withheld_detected_direct :
    ((Toy.run Toy.memberRoom).handleAdminTip (Toy.run Toy.removedDirectly).store.adminChainTip).completeness
        = .adminViewSuspect ∧
      FailsClosed ((Toy.run Toy.memberRoom).handleAdminTip (Toy.run Toy.removedDirectly).store.adminChainTip) := by
  have hN : Reachable Toy.directRoom.Occurs (Toy.run Toy.memberRoom) :=
    Toy.reachable_run fun _ hp => Toy.event?_roomOf (by decide) (List.mem_append_left _ hp)
  have hP : Reachable Toy.directRoom.Occurs (Toy.run Toy.removedDirectly) :=
    Toy.reachable_run fun _ hp => Toy.event?_roomOf (by decide) hp
  obtain ⟨htipN, htipP, hplaced⟩ :
      (Toy.run Toy.memberRoom).store.adminChainTip = some (Bytes32.ofNat 2, 1) ∧
      (Toy.run Toy.removedDirectly).store.adminChainTip = some (Bytes32.ofNat 4, 2) ∧
      ∀ e ∈ (Toy.run Toy.memberRoom).store.rows.entries, ∀ p ∈ e.2.event.event.prevEvents,
        (Toy.run Toy.memberRoom).store.contains p = true := by decide +kernel
  refine (withheld_detected_iff Toy.directRoom _ _ hN hP (Toy.placed_of hplaced)).mpr (Or.inl ?_)
  refine ⟨_, _, Universe.chain_of_tip (Universe.storeOk_of_reachable hP) htipP, ?_⟩
  intro id n hchain
  obtain ⟨t, ht, hn⟩ := Universe.chain_le_tip (Universe.storeOk_of_reachable hN) hchain
  rw [htipN, Option.some.injEq] at ht
  rw [← ht] at hn
  show n < 2
  omega

/-- A removal that cites another member's event lengthens no chain: the node that lacks it is not warned, though
every admin event it holds lies below that removal. -/
theorem withheld_removal_unnoticed :
    Reachable Toy.aboveRoom.Occurs (Toy.run Toy.memberRoom) ∧
    Reachable Toy.aboveRoom.Occurs (Toy.run Toy.removedAbove) ∧
    Universe.Placed (Toy.run Toy.memberRoom).store ∧ Universe.Placed (Toy.run Toy.removedAbove).store ∧
    (Toy.run Toy.removedAbove).fold.isAccepted (Bytes32.ofNat 5) = true ∧
    ((Toy.run Toy.removedAbove).store.event? (Bytes32.ofNat 5)).map ValidatedEvent.event = some (Toy.remove 2 1 [4]) ∧
    (Toy.run Toy.memberRoom).store.contains (Bytes32.ofNat 5) = false ∧
    (∀ e ∈ (Toy.run Toy.memberRoom).store.rows.entries, e.2.event.event.senderId = Toy.aboveRoom.creator →
      Staged.Below (Toy.run Toy.removedAbove).store.deps e.1 (Bytes32.ofNat 5)) ∧
    ((Toy.run Toy.memberRoom).handleAdminTip (Toy.run Toy.removedAbove).store.adminChainTip).completeness
      = .complete := by
  -- each room is evaluated once for all that is read of it
  obtain ⟨haccepted, hremove, hmissing, hcomplete, hadmin, hdep₁, hdep₂, hdep₃, hdep₄, hplacedN, hplacedP⟩ :
      (Toy.run Toy.removedAbove).fold.isAccepted (Bytes32.ofNat 5) = true ∧
      ((Toy.run Toy.removedAbove).store.event? (Bytes32.ofNat 5)).map ValidatedEvent.event =
        some (Toy.remove 2 1 [4]) ∧
      (Toy.run Toy.memberRoom).store.contains (Bytes32.ofNat 5) = false ∧
      ((Toy.run Toy.memberRoom).handleAdminTip (Toy.run Toy.removedAbove).store.adminChainTip).completeness
        = .complete ∧
      (∀ e ∈ (Toy.run Toy.memberRoom).store.rows.entries, e.2.event.event.senderId = Toy.aboveRoom.creator →
        e.1 = Bytes32.ofNat 1 ∨ e.1 = Bytes32.ofNat 2) ∧
      (Toy.run Toy.removedAbove).store.deps (Bytes32.ofNat 2) = some [Bytes32.ofNat 1] ∧
      (Toy.run Toy.removedAbove).store.deps (Bytes32.ofNat 3) = some [Bytes32.ofNat 2] ∧
      (Toy.run Toy.removedAbove).store.deps (Bytes32.ofNat 4) = some [Bytes32.ofNat 3] ∧
      (Toy.run Toy.removedAbove).store.deps (Bytes32.ofNat 5) = some [Bytes32.ofNat 4] ∧
      (∀ e ∈ (Toy.run Toy.memberRoom).store.rows.entries, ∀ p ∈ e.2.event.event.prevEvents,
        (Toy.run Toy.memberRoom).store.contains p = true) ∧
      ∀ e ∈ (Toy.run Toy.removedAbove).store.rows.entries, ∀ p ∈ e.2.event.event.prevEvents,
        (Toy.run Toy.removedAbove).store.contains p = true := by decide +kernel
  refine ⟨Toy.reachable_run fun _ hp => Toy.event?_roomOf (by decide) (List.mem_append_left _ hp),
    Toy.reachable_run fun _ hp => Toy.event?_roomOf (by decide) hp,
    Toy.placed_of hplacedN, Toy.placed_of hplacedP, haccepted, hremove, hmissing, ?_, hcomplete⟩
  have hdep : ∀ a b : Nat, (Toy.run Toy.removedAbove).store.deps (Bytes32.ofNat b) = some [Bytes32.ofNat a] →
      Staged.Below (Toy.run Toy.removedAbove).store.deps (Bytes32.ofNat a) (Bytes32.ofNat b) :=
    fun a b h => .of_dep ⟨_, h, List.mem_cons_self⟩
  have hsecond : Staged.Below (Toy.run Toy.removedAbove).store.deps (Bytes32.ofNat 2) (Bytes32.ofNat 5) :=
    ((hdep 2 3 hdep₂).trans (hdep 3 4 hdep₃)).trans (hdep 4 5 hdep₄)
  intro e he hsender
  rcases hadmin e he hsender with hid | hid
  · rw [hid]
    exact (hdep 1 2 hdep₁).trans hsecond
  · rw [hid]
    exact hsecond

end IrohRooms
