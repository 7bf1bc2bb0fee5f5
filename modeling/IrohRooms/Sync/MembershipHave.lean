import IrohRooms.Store.Rebuild
import IrohRooms.Sync.Pulls
import IrohRooms.Sync.Reads

/-!
# The ancestry claim of a pull

A pull claims at most `membership_have_max_ids` ids, each of an event whose ancestry is stored: placed heads, a slab of
the newest ids, and a window over the older ones. The window is cut off at the oldest id instead of wrapping around, so
the ticks of one sweep may claim some ids twice, but over as many ticks as there are placed events every one of them is
claimed (`membershipHave_sweeps`).
-/

namespace IrohRooms

variable {env : Env} {sealing : Sealing} {room : RoomId}

namespace EventStore

variable {s : EventStore env room}

/-- The ids of the placed rows, newest first. -/
def placedIds (s : EventStore env room) : List EventId := s.roomTail.reverse.map fun row => row.event.eventId

theorem length_placedIds : s.placedIds.length = s.roomTail.length := by
  rw [placedIds, List.length_map, List.length_reverse]

theorem mem_placedIds {id : EventId} : id ∈ s.placedIds ↔ (s.lamportOf id).isSome = true := by
  rw [placedIds, List.mem_map]
  constructor
  · rintro ⟨row, hrow, rfl⟩
    obtain ⟨hget, hlamport⟩ := mem_roomTail.mp (List.mem_reverse.mp hrow)
    rwa [lamportOf, hget, Option.bind_some]
  · intro hlamport
    obtain ⟨n, hn⟩ := Option.isSome_iff_exists.mp hlamport
    obtain ⟨row, hget, hrow⟩ := Option.bind_eq_some_iff.mp hn
    have hkey := s.keyed id row hget
    refine ⟨row, List.mem_reverse.mpr (mem_roomTail.mpr ⟨hkey ▸ hget, ?_⟩), hkey⟩
    rw [hrow]
    rfl

/-- What is placed is what has its whole ancestry stored. -/
theorem mem_placedIds_iff_ancestryStored (hcons : s.Consistent) (hacyclic : s.Acyclic) {id : EventId} :
    id ∈ s.placedIds ↔ s.AncestryStored id := by
  rw [mem_placedIds, Option.isSome_iff_exists]
  constructor
  · rintro ⟨n, hn⟩
    exact hcons.ancestry_of_lamport hn
  · exact hcons.lamport_of_ancestry hacyclic

theorem placedHeads_subset {id : EventId} (h : id ∈ s.placedHeads) : id ∈ s.placedIds :=
  mem_placedIds.mpr (List.mem_filter.mp h).2

theorem recentEventIds_eq (limit offset : Nat) : s.recentEventIds limit offset = (s.placedIds.drop offset).take limit :=
  rfl

theorem recentEventIds_subset {limit offset : Nat} {id : EventId} (h : id ∈ s.recentEventIds limit offset) :
    id ∈ s.placedIds := by
  rw [recentEventIds_eq] at h
  exact List.mem_of_mem_drop (List.mem_of_mem_take h)

theorem length_recentEventIds_le (limit offset : Nat) : (s.recentEventIds limit offset).length ≤ limit := by
  rw [recentEventIds_eq, List.length_take]
  exact Nat.min_le_left _ _

/-- A page holds the ids at its places. -/
theorem getElem_mem_recentEventIds {limit offset place : Nat} (hplace : place < s.placedIds.length)
    (hfirst : offset ≤ place) (hlast : place < offset + limit) :
    s.placedIds[place] ∈ s.recentEventIds limit offset := by
  rw [recentEventIds_eq, List.mem_take_iff_getElem]
  refine ⟨place - offset, ?_, ?_⟩
  · rw [List.length_drop]
    omega
  · rw [List.getElem_drop]
    congr 1
    omega

end EventStore

namespace SyncEngine

variable (sending : Sending env room) {e : SyncEngine env sealing room}

/-! ### Filling a claim -/

theorem length_claimUpTo_le {cap : Nat} {ids : List EventId} {claim : OrdSet EventId}
    (h : claim.toList.length ≤ cap) : (claimUpTo cap ids claim).toList.length ≤ cap := by
  induction ids generalizing claim with
  | nil => exact h
  | cons id ids ih =>
    unfold claimUpTo at ih ⊢
    rw [List.foldl_cons]
    refine ih ?_
    split_ifs with hfull
    · exact h
    · have := claim.length_add_le id
      omega

/-- A claim gets longer by the ids offered at most. -/
theorem length_claimUpTo_le_add {cap : Nat} {ids : List EventId} {claim : OrdSet EventId} :
    (claimUpTo cap ids claim).toList.length ≤ claim.toList.length + ids.length := by
  induction ids generalizing claim with
  | nil => exact Nat.le_refl _
  | cons id ids ih =>
    unfold claimUpTo at ih ⊢
    rw [List.foldl_cons, List.length_cons]
    refine ih.trans ?_
    split_ifs with hfull
    · omega
    · have := claim.length_add_le id
      omega

theorem mem_of_mem_claimUpTo {cap : Nat} {ids : List EventId} {claim : OrdSet EventId} {id : EventId}
    (h : id ∈ claimUpTo cap ids claim) : id ∈ claim ∨ id ∈ ids := by
  induction ids generalizing claim with
  | nil => exact Or.inl h
  | cons a ids ih =>
    unfold claimUpTo at h ih
    rw [List.foldl_cons] at h
    rcases ih h with hclaim | hids
    · split_ifs at hclaim with hfull
      · exact Or.inl hclaim
      · rcases OrdSet.mem_add.mp hclaim with rfl | hold
        · exact Or.inr List.mem_cons_self
        · exact Or.inl hold
    · exact Or.inr (List.mem_cons_of_mem _ hids)

/-- With room for all of them, all ids are claimed. -/
theorem claimUpTo_eq_extend {cap : Nat} {ids : List EventId} {claim : OrdSet EventId}
    (h : claim.toList.length + ids.length ≤ cap) : claimUpTo cap ids claim = claim.extend ids := by
  induction ids generalizing claim with
  | nil => rfl
  | cons id ids ih =>
    rw [List.length_cons] at h
    have hone := claim.length_add_le id
    have hroom : ¬ claim.toList.length ≥ cap := by omega
    unfold claimUpTo OrdSet.extend at ih ⊢
    rw [List.foldl_cons, List.foldl_cons, if_neg hroom]
    exact ih (by omega)

/-! ### The parts of the claim -/

def claimHeads (e : SyncEngine env sealing room) : OrdSet EventId :=
  claimUpTo ((sending.membershipHaveMaxIds + 1) / 2) e.store.placedHeads .empty

def slabBudget (e : SyncEngine env sealing room) : Nat :=
  (sending.membershipHaveMaxIds - (e.claimHeads sending).toList.length + 1) / 2

def claimRecent (e : SyncEngine env sealing room) : OrdSet EventId :=
  claimUpTo sending.membershipHaveMaxIds (e.store.recentEventIds (min (e.slabBudget sending) u32Max) 0)
    (e.claimHeads sending)

/-- The width of the rotating window. -/
def claimWindow (e : SyncEngine env sealing room) : Nat :=
  sending.membershipHaveMaxIds - (e.claimRecent sending).toList.length

/-- The ids below the slab. -/
def claimSpan (e : SyncEngine env sealing room) : Nat := e.store.roomTail.length - e.slabBudget sending

theorem membershipHave_eq (claimRotation : Nat) : e.membershipHave sending claimRotation =
    if e.claimWindow sending > 0 ∧ e.claimSpan sending > 0 then
      ((e.claimRecent sending).extend (e.store.recentEventIds (min (e.claimWindow sending) u32Max)
        (e.slabBudget sending + wrappingMul claimRotation (e.claimWindow sending) % e.claimSpan sending))).toList
    else (e.claimRecent sending).toList :=
  rfl

theorem length_claimHeads_le : (e.claimHeads sending).toList.length ≤ (sending.membershipHaveMaxIds + 1) / 2 :=
  length_claimUpTo_le (Nat.zero_le _)

theorem length_claimRecent_le : (e.claimRecent sending).toList.length ≤ sending.membershipHaveMaxIds := by
  have hheads := e.length_claimHeads_le sending
  refine length_claimUpTo_le ?_
  omega

/-- The slab leaves a place for the window. -/
theorem slabBudget_lt (hcap : 4 ≤ sending.membershipHaveMaxIds) :
    (e.claimHeads sending).toList.length + e.slabBudget sending < sending.membershipHaveMaxIds := by
  have hheads := e.length_claimHeads_le sending
  unfold slabBudget
  omega

theorem claimWindow_pos (hcap : 4 ≤ sending.membershipHaveMaxIds) : 0 < e.claimWindow sending := by
  have hslab := e.slabBudget_lt sending hcap
  have hrecent : (e.claimRecent sending).toList.length ≤
      (e.claimHeads sending).toList.length + e.slabBudget sending := by
    refine length_claimUpTo_le_add.trans (Nat.add_le_add_left ?_ _)
    exact (EventStore.length_recentEventIds_le _ _).trans (Nat.min_le_left _ _)
  unfold claimWindow
  omega

theorem claimRecent_subset {id : EventId} (h : id ∈ e.claimRecent sending) : id ∈ e.store.placedIds := by
  rcases mem_of_mem_claimUpTo h with hheads | hslab
  · rcases mem_of_mem_claimUpTo hheads with hempty | hplaced
    · exact absurd hempty (OrdSet.not_mem_empty id)
    · exact EventStore.placedHeads_subset hplaced
  · exact EventStore.recentEventIds_subset hslab

/-- The claim is bounded. -/
theorem length_membershipHave_le (claimRotation : Nat) :
    (e.membershipHave sending claimRotation).length ≤ sending.membershipHaveMaxIds := by
  have hrecent := e.length_claimRecent_le sending
  rw [membershipHave_eq]
  split_ifs
  · refine (OrdSet.length_extend_le _ _).trans ?_
    have hpage := (EventStore.length_recentEventIds_le (s := e.store) (min (e.claimWindow sending) u32Max)
      (e.slabBudget sending + wrappingMul claimRotation (e.claimWindow sending) % e.claimSpan sending)).trans
        (Nat.min_le_left _ _)
    unfold claimWindow at hpage ⊢
    omega
  · exact hrecent

/-- The claim is of placed ids. -/
theorem membershipHave_subset {claimRotation : Nat} {id : EventId} (h : id ∈ e.membershipHave sending claimRotation) :
    id ∈ e.store.placedIds := by
  rw [membershipHave_eq] at h
  split_ifs at h
  · rcases OrdSet.mem_extend.mp (OrdSet.mem_toList.mp h) with hrecent | hpage
    · exact e.claimRecent_subset sending hrecent
    · exact EventStore.recentEventIds_subset hpage
  · exact e.claimRecent_subset sending (OrdSet.mem_toList.mp h)

theorem claimRecent_subset_membershipHave {claimRotation : Nat} {id : EventId} (h : id ∈ e.claimRecent sending) :
    id ∈ e.membershipHave sending claimRotation := by
  rw [membershipHave_eq]
  split_ifs
  · exact OrdSet.mem_toList.mpr (OrdSet.mem_extend.mpr (Or.inl h))
  · exact OrdSet.mem_toList.mpr h

/-- Every placed id is claimed within as many consecutive rotations as there are placed ids. -/
theorem exists_membershipHave (hvalid : sending.Valid) (hcap : 4 ≤ sending.membershipHaveMaxIds) (first : Nat)
    {id : EventId} (hid : id ∈ e.store.placedIds)
    (hfits : ∀ k < e.store.roomTail.length, (first + k) * e.claimWindow sending < 2 ^ 64) :
    ∃ k < e.store.roomTail.length, id ∈ e.membershipHave sending (first + k) := by
  obtain ⟨place, hplace, rfl⟩ := List.mem_iff_getElem.mp hid
  have hlength : e.store.placedIds.length = e.store.roomTail.length := EventStore.length_placedIds
  have hslab := e.slabBudget_lt sending hcap
  have hbound := hvalid.membershipHaveMaxIds
  have hslabFits : min (e.slabBudget sending) u32Max = e.slabBudget sending := by
    unfold u32Max
    omega
  by_cases hnew : place < e.slabBudget sending
  · -- in the slab, which is claimed at every tick
    refine ⟨0, by omega, e.claimRecent_subset_membershipHave sending ?_⟩
    unfold claimRecent
    rw [hslabFits]
    have hpage := EventStore.length_recentEventIds_le (s := e.store) (e.slabBudget sending) 0
    rw [claimUpTo_eq_extend (by omega), OrdSet.mem_extend]
    exact Or.inr (EventStore.getElem_mem_recentEventIds hplace (Nat.zero_le _) (by omega))
  · have hwindow := e.claimWindow_pos sending hcap
    have hspan : place - e.slabBudget sending < e.claimSpan sending := by
      unfold claimSpan
      omega
    have hspanLe : e.claimSpan sending ≤ e.store.roomTail.length := Nat.sub_le _ _
    obtain ⟨k, hfirst, hlast, hstart, hend⟩ := Rotation.exists_cut_off hwindow first hspan
    have hturn : first + (k - first) = k := by omega
    have hkfits : k * e.claimWindow sending < 2 ^ 64 := by
      have hk := hfits (k - first) (by omega)
      rwa [hturn] at hk
    have hwindowFits : min (e.claimWindow sending) u32Max = e.claimWindow sending := by
      have : e.claimWindow sending ≤ sending.membershipHaveMaxIds := Nat.sub_le _ _
      unfold u32Max
      omega
    refine ⟨k - first, by omega, ?_⟩
    rw [hturn, membershipHave_eq, if_pos ⟨hwindow, by omega⟩, OrdSet.mem_toList, OrdSet.mem_extend, wrappingMul,
      Nat.mod_eq_of_lt hkfits, hwindowFits]
    exact Or.inr (EventStore.getElem_mem_recentEventIds hplace (by omega) (by omega))

/-- The claim reads the rows of the store alone. -/
theorem membershipHave_congr {e' : SyncEngine env sealing room} (h : e'.store.rows = e.store.rows)
    (claimRotation : Nat) : e'.membershipHave sending claimRotation = e.membershipHave sending claimRotation := by
  have htail : e'.store.roomTail = e.store.roomTail := by
    unfold EventStore.roomTail
    rw [h]
  have hheads : e'.store.placedHeads = e.store.placedHeads := by
    unfold EventStore.placedHeads EventStore.heads EventStore.childrenOf EventStore.lamportOf
    rw [h]
  unfold membershipHave EventStore.recentEventIds
  rw [htail, hheads]

end SyncEngine

namespace SyncNode

variable (sending : Sending env room) {n : SyncNode env sealing room}

/-- What a tick claims. -/
def tickClaim (n : SyncNode env sealing room) : List EventId :=
  n.engine.onTick.membershipHave sending n.nextRotation

theorem step_onTick_engine (n : SyncNode env sealing room) : (n.step sending .onTick).engine = n.engine.onTick := by
  unfold step
  dsimp only [Call.input, SyncEngine.step]

/-- Over any store, a claim is bounded and of events whose whole ancestry is stored, and while the rows stay as they
are, the ticks of any stretch as long as there are placed events claim all of those. -/
theorem membershipHave_sweeps {events : List (ValidatedEvent env room)} (hfree : GenesisCollisionFree events)
    (hacyclic : ∀ id, ¬ Staged.Below (EventStore.citedBy events) id id)
    (hstore : n.engine.store.rows = (EventStore.insertAll events).rows) (hvalid : sending.validate = none)
    (hcap : 4 ≤ sending.membershipHaveMaxIds) :
    (∀ claimRotation, (n.engine.membershipHave sending claimRotation).length ≤ sending.membershipHaveMaxIds ∧
      ∀ id ∈ n.engine.membershipHave sending claimRotation, n.engine.store.AncestryStored id) ∧
    ∀ calls, (∀ pre, pre <+: calls → (pre.foldl (step sending) n).engine.store.rows = n.engine.store.rows) →
      ticks calls = n.engine.store.roomTail.length →
      (n.claimRotation + ticks calls) * n.engine.claimWindow sending < 2 ^ 64 →
      ∀ id, n.engine.store.AncestryStored id →
        ∃ pre post, calls = pre ++ .onTick :: post ∧ id ∈ (pre.foldl (step sending) n).tickClaim sending := by
  have hcons : n.engine.store.Consistent := by
    intro id row hrow
    rw [hstore] at hrow
    rw [← EventStore.insertAll_consistent events hfree hacyclic id row hrow]
    unfold EventStore.computed EventStore.lamportOf EventStore.adminSeqOf EventStore.adminOfRoom
    rw [hstore]
  have hdeps : n.engine.store.deps = EventStore.citedBy events := by
    rw [← EventStore.deps_insertAll]
    unfold EventStore.deps EventStore.event?
    rw [hstore]
  have hplaced : ∀ {id}, id ∈ n.engine.store.placedIds ↔ n.engine.store.AncestryStored id := by
    refine EventStore.mem_placedIds_iff_ancestryStored hcons fun id => ?_
    rw [hdeps]
    exact hacyclic id
  have hbounds := Sending.valid_of_validate hvalid
  refine ⟨fun claimRotation => ⟨n.engine.length_membershipHave_le sending claimRotation, fun id hid => ?_⟩, ?_⟩
  · exact hplaced.mp (n.engine.membershipHave_subset sending hid)
  · intro calls hfixed hticks hfits id hid
    have hwindow := n.engine.claimWindow_pos sending hcap
    have hrotation : n.claimRotation + ticks calls < 2 ^ 64 :=
      lt_of_le_of_lt (Nat.le_mul_of_pos_right _ hwindow) hfits
    obtain ⟨k, hk, hclaimed⟩ := SyncEngine.exists_membershipHave sending hbounds hcap (n.claimRotation + 1)
      (hplaced.mpr hid) (by
        intro k hk
        refine lt_of_le_of_lt (Nat.mul_le_mul_right _ ?_) hfits
        omega)
    have hwithin : k < ticks calls := by omega
    obtain ⟨pre, post, hsplit, hcount⟩ := exists_tick hwithin
    have hnext : (pre.foldl (step sending) n).nextRotation = n.claimRotation + 1 + k := by
      unfold nextRotation
      rw [run_claimRotation sending (by omega), hcount, Nat.mod_eq_of_lt (by omega)]
      omega
    have hrows : (pre.foldl (step sending) n).engine.onTick.store.rows = n.engine.store.rows := by
      have htick := hfixed (pre ++ [.onTick]) ⟨post, by rw [hsplit, List.append_assoc]; rfl⟩
      rwa [List.foldl_append, List.foldl_cons, List.foldl_nil, step_onTick_engine] at htick
    refine ⟨pre, post, hsplit, ?_⟩
    rw [tickClaim, hnext, SyncEngine.membershipHave_congr sending hrows]
    exact hclaimed

end SyncNode

/-! ### A node whose ticks change nothing stored -/

namespace SyncEngine

theorem restore_store (config : SyncConfig) (seed : Option SigningKey) (store : EventStore env room)
    (tables : SyncTables env room) : (restore config seed store tables : SyncEngine env sealing room).store = store :=
  rfl

/-- Nothing is queued, parked or suspected. -/
structure Still (e : SyncEngine env sealing room) : Prop where
  park : e.park = .empty
  storeRetry : e.storeRetry = .empty
  restoredBackfill : e.restoredBackfill = .empty
  suspectTip : e.suspectTip = none

/-- A tick then only refills the buckets. -/
theorem Still.onTick {e : SyncEngine env sealing room} (h : e.Still) : e.onTick = e.refillTokens := by
  have hexpire : e.refillTokens.expireSuspectTip = e.refillTokens := by
    unfold expireSuspectTip
    split
    · rfl
    · rename_i t ht
      rw [show e.refillTokens.suspectTip = e.suspectTip from rfl, h.suspectTip] at ht
      cases ht
  have hstore : e.refillTokens.retryStore = e.refillTokens := by
    unfold retryStore retryOrder
    rw [show e.refillTokens.storeRetry = e.storeRetry from rfl, h.storeRetry]
    rfl
  have hwake : e.refillTokens.wakePark = e.refillTokens := by
    unfold wakePark wakeParkLoop
    rw [show e.refillTokens.park = e.park from rfl, h.park]
    rfl
  have hretryPark : e.refillTokens.retryPark = e.refillTokens := by
    unfold retryPark
    dsimp only
    rw [hwake, show e.refillTokens.park = e.park from rfl, h.park]
    rfl
  unfold SyncEngine.onTick retryRestoredPark
  rw [hexpire, hstore, hretryPark, if_pos (Or.inl ?_)]
  rw [show e.refillTokens.restoredBackfill = e.restoredBackfill from rfl, h.restoredBackfill]
  rfl

theorem Still.refillTokens {e : SyncEngine env sealing room} (h : e.Still) : e.refillTokens.Still :=
  ⟨h.park, h.storeRetry, h.restoredBackfill, h.suspectTip⟩

end SyncEngine

namespace Toy

/-- Member 2 wrote three messages, each citing the one before. -/
def chatted : List (Nat × SignedEvent) :=
  memberRoom ++ [(4, message 2 "a" [3]), (5, message 2 "b" [4]), (6, message 2 "c" [5])]

def chattedNode : SyncNode toyEnv Toy.sealing Toy.room :=
  .opened (SyncEngine.restore .standard none (EventStore.insertAll (Toy.log chatted)) ⟨.empty, none, .empty, .empty⟩)

end Toy

namespace SyncNode

theorem membershipHave_sweeps_chatted :
    Toy.chattedNode.engine.store.roomTail.length = 6 ∧ Toy.chattedNode.engine.claimWindow Toy.tightSending = 2 ∧
      ∀ id, Toy.chattedNode.engine.store.AncestryStored id →
        ∃ pre post, List.replicate 6 Call.onTick = pre ++ .onTick :: post ∧
          id ∈ (pre.foldl (step Toy.tightSending) Toy.chattedNode).tickClaim Toy.tightSending := by
  have hfree : GenesisCollisionFree (Toy.log Toy.chatted) := by
    refine Toy.log_collisionFree fun p hp c hc => ?_
    simp only [Toy.chatted, Toy.memberRoom, List.cons_append, List.nil_append, List.mem_cons, List.not_mem_nil,
      or_false] at hp
    rcases hp with rfl | rfl | rfl | rfl | rfl | rfl
    · cases hc
      rfl
    all_goals cases hc
  obtain ⟨hplaced, hwindow, hunsuspecting⟩ : Toy.chattedNode.engine.store.roomTail.length = 6 ∧
      Toy.chattedNode.engine.claimWindow Toy.tightSending = 2 ∧ Toy.chattedNode.engine.suspectTip.isNone = true := by
    decide +kernel
  have hstore : Toy.chattedNode.engine.store = EventStore.insertAll (Toy.log Toy.chatted) :=
    SyncEngine.restore_store _ _ _ _
  have hopened : Toy.chattedNode.engine.Still :=
    ⟨rfl, rfl, rfl, Option.isNone_iff_eq_none.mp hunsuspecting⟩
  have hfixed : ∀ pre, pre <+: List.replicate 6 Call.onTick →
      (pre.foldl (step Toy.tightSending) Toy.chattedNode).engine.store.rows = Toy.chattedNode.engine.store.rows := by
    intro pre hpre
    have hstill : (pre.foldl (step Toy.tightSending) Toy.chattedNode).engine.store = Toy.chattedNode.engine.store ∧
        (pre.foldl (step Toy.tightSending) Toy.chattedNode).engine.Still := by
      refine List.foldlRecOn pre (step Toy.tightSending)
        (motive := fun n : SyncNode toyEnv Toy.sealing Toy.room =>
          n.engine.store = Toy.chattedNode.engine.store ∧ n.engine.Still)
        ⟨rfl, hopened⟩ fun n hn c hc => ?_
      rw [List.eq_of_mem_replicate (hpre.subset hc), step_onTick_engine, hn.2.onTick]
      exact ⟨hn.1, hn.2.refillTokens⟩
    rw [hstill.1]
  refine ⟨hplaced, hwindow, ?_⟩
  refine (membershipHave_sweeps Toy.tightSending hfree (EventStore.acyclic_of_lt (by decide +kernel))
    (congrArg EventStore.rows hstore) (by decide) (by decide)).2 _ hfixed ?_ ?_
  · rw [hplaced]
    rfl
  · rw [hwindow]
    decide

end SyncNode

end IrohRooms
