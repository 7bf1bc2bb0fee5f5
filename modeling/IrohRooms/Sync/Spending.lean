import Mathlib.Algebra.Order.Ring.Nat
import IrohRooms.Sync.Amplification
import IrohRooms.Sync.Provenance
import IrohRooms.Sync.Recovery

/-!
# What a message may set off

Between two ticks an engine sends on its own account only when it stores an event it did not have, which it does once
for each event of the room, or when it spends a backfill token, which only a tick refills. Everything else it sends
answers a message, and the answers answer to nothing but such events and tokens. So each message has a weight, each
engine a reserve, and a message that is taken in is replaced by messages and a reserve that together weigh less
(`onMessage_spends`).
-/

namespace IrohRooms

open Journal

variable {env : Env} {sealing : Sealing} {room : RoomId}

/-- The events a room may see, and the most peers a node of it has. -/
structure Population where
  events : List (EventId × SignedEvent)
  peers : Nat

namespace Population

variable (pop : Population)

def Occurs (id : EventId) (event : SignedEvent) : Prop := (id, event) ∈ pop.events

/-- A message and what it may be answered with as long as no event is stored and no token spent. -/
def weight (cap : Nat) : MessageBody → Nat
  | .adminTip _ => 1 + pop.peers * (1 + cap)
  | .wantEvents ids => 2 + ids.length
  | .wantMembership _ | .wantRecentChat .. => 1 + cap
  | _ => 1

def load (cap : Nat) (outs : List Outgoing) : Nat := (outs.map fun o => pop.weight cap o.msg.body).sum

/-- The requests a token buys, with their answers. -/
def grantCost : Nat := pop.peers * (3 * maxPrevEvents)

def unstored (s : EventStore env room) : Nat := (pop.events.filter fun p => !s.contains p.1).length

/-- The tokens the authors of the room have left. -/
def tokensLeft (config : SyncConfig) (tokens : OrdMap IdentityKey Nat) : Nat :=
  (pop.events.map fun p => config.bucket tokens p.2.senderId).sum

/-- What an engine may still send on its own account before a tick. -/
def reserve (e : SyncEngine env sealing room) : Nat :=
  pop.peers * pop.unstored e.store + pop.grantCost * pop.tokensLeft e.config e.tokens

variable {pop} {cap : Nat}

@[simp] theorem load_nil : pop.load cap [] = 0 := rfl

@[simp] theorem load_append (outs outs' : List Outgoing) :
    pop.load cap (outs ++ outs') = pop.load cap outs + pop.load cap outs' := by
  rw [load, List.map_append, List.sum_append]
  rfl

theorem load_cons (o : Outgoing) (outs : List Outgoing) :
    pop.load cap (o :: outs) = pop.weight cap o.msg.body + pop.load cap outs := List.sum_cons

theorem load_le {w : Nat} {outs : List Outgoing} (h : ∀ o ∈ outs, pop.weight cap o.msg.body ≤ w) :
    pop.load cap outs ≤ outs.length * w := by
  have hsum := List.sum_le_card_nsmul (outs.map fun o => pop.weight cap o.msg.body) w (by simpa using h)
  rwa [List.length_map, smul_eq_mul] at hsum

/-! ### Storing -/

/-- Every row a transaction adds is one event fewer that is not stored. -/
theorem unstored_gains {s t : EventStore env room} {landed : List (ValidatedEvent env room × InsertOutcome)}
    (h : s.Gains t landed) (hknown : ∀ id ∈ insertedIds landed, ∃ e, (id, e) ∈ pop.events) :
    (insertedIds landed).length + pop.unstored t ≤ pop.unstored s := by
  have hsplit := List.length_eq_length_filter_add (l := pop.events.filter fun p => !s.contains p.1) fun p =>
    t.contains p.1
  have hkept : (pop.events.filter fun p => !s.contains p.1).filter (fun p => !t.contains p.1) =
      pop.events.filter fun p => !t.contains p.1 := by
    rw [List.filter_filter]
    refine List.filter_congr fun p _ => ?_
    cases hs : s.contains p.1 with
    | false => simp
    | true => simp [h.kept p.1 hs]
  have hnew : insertedIds landed ⊆
      ((pop.events.filter fun p => !s.contains p.1).filter fun p => t.contains p.1).map Prod.fst := by
    intro id hid
    obtain ⟨e, he⟩ := hknown id hid
    refine List.mem_map.mpr ⟨(id, e), List.mem_filter.mpr ⟨List.mem_filter.mpr ⟨he, ?_⟩, h.stored id hid⟩, rfl⟩
    simp [h.new id hid]
  have hlen := (List.subperm_of_subset h.distinct hnew).length_le
  rw [List.length_map] at hlen
  rw [hkept] at hsplit
  unfold unstored
  omega

theorem unstored_congr {s t : EventStore env room} (h : ∀ id, t.contains id = s.contains id) :
    pop.unstored t = pop.unstored s := by
  unfold unstored
  congr 1
  exact List.filter_congr fun p _ => by rw [h]

end Population

namespace SyncEngine

variable {e f : SyncEngine env sealing room} (sending : Sending env room) (origin : Option PeerId)
  {pop : Population}

theorem fanout_load (hpeers : e.peers.toList.length ≤ pop.peers) (v : ValidatedEvent env room) (cap : Nat) :
    pop.load cap (e.fanout sending origin v) ≤ pop.peers := by
  have hload : pop.load cap (e.fanout sending origin v) ≤ (e.fanout sending origin v).length * 1 := by
    refine Population.load_le fun o ho => ?_
    obtain ⟨peer, -, rfl⟩ := List.mem_map.mp ho
    exact Nat.le_refl 1
  have hlen : (e.fanout sending origin v).length ≤ e.peers.toList.length := by
    rw [fanout, List.length_map]
    exact List.length_filter_le _ _
  omega

theorem landed_load (hpeers : e.peers.toList.length ≤ pop.peers) (cap : Nat)
    (landed : List (ValidatedEvent env room × InsertOutcome)) :
    pop.load cap (landed.flatMap (e.landedOut sending origin)) ≤ pop.peers * (insertedIds landed).length := by
  induction landed with
  | nil => exact Nat.zero_le _
  | cons p landed ih =>
    obtain ⟨v, outcome⟩ := p
    rw [List.flatMap_cons, Population.load_append]
    cases outcome with
    | inserted =>
      have hone := fanout_load sending origin hpeers v cap
      show pop.load cap (e.fanout sending origin v) + _ ≤ pop.peers * ((insertedIds landed).length + 1)
      rw [Nat.mul_add, Nat.mul_one]
      omega
    | duplicate =>
      show pop.load cap [] + _ ≤ pop.peers * (insertedIds landed).length
      simpa using ih

theorem foldl_applyLanded_keeps (landed : List (ValidatedEvent env room × InsertOutcome)) :
    (landed.foldl applyLanded e).store = e.store ∧ (landed.foldl applyLanded e).peers = e.peers := by
  induction landed generalizing e with
  | nil => exact ⟨rfl, rfl⟩
  | cons p landed ih =>
    obtain ⟨v, outcome⟩ := p
    obtain ⟨hstore, hpeers⟩ := ih (e := e.applyLanded (v, outcome))
    cases outcome <;> exact ⟨hstore, hpeers⟩

theorem enqueueStoreRetry_keeps (e : SyncEngine env sealing room) (v : ValidatedEvent env room) :
    (e.enqueueStoreRetry v).store = e.store ∧ (e.enqueueStoreRetry v).peers = e.peers := by
  unfold enqueueStoreRetry
  split_ifs <;> exact ⟨rfl, rfl⟩

theorem foldl_enqueueStoreRetry_keeps (vs : List (ValidatedEvent env room)) :
    (vs.foldl enqueueStoreRetry e).store = e.store ∧ (vs.foldl enqueueStoreRetry e).peers = e.peers := by
  induction vs generalizing e with
  | nil => exact ⟨rfl, rfl⟩
  | cons v vs ih =>
    obtain ⟨hstore, hpeers⟩ := ih (e := e.enqueueStoreRetry v)
    obtain ⟨hstore', hpeers'⟩ := e.enqueueStoreRetry_keeps v
    exact ⟨hstore.trans hstore', hpeers.trans hpeers'⟩

/-- A write pays for the pushes of the rows it adds. -/
theorem flush_spends (hpeers : e.peers.toList.length ≤ pop.peers)
    (hknown : ∀ v ∈ e.pendingBatch, pop.Occurs v.eventId v.event) (cap : Nat) :
    pop.load cap (e.flushSent sending origin).out + pop.peers * pop.unstored e.flushStoreBatch.store ≤
      pop.peers * pop.unstored e.store ∧ e.flushStoreBatch.peers = e.peers := by
  unfold flushSent flushStoreBatch
  split_ifs
  · exact ⟨by show 0 + _ ≤ _; omega, rfl⟩
  · dsimp only
    cases hout : (e.store.insertAllOutcomes e.pendingBatch).2 with
    | some outcomes =>
      have hgains := EventStore.insertAllOutcomes_gains hout
      have hlanded : ∀ id ∈ insertedIds (e.pendingBatch.zip outcomes), ∃ event, (id, event) ∈ pop.events := by
        intro id hid
        obtain ⟨p, hp, hid⟩ := List.mem_filterMap.mp hid
        have hv := hknown p.1 (List.of_mem_zip hp).1
        cases houtcome : p.2 with
        | inserted =>
          rw [houtcome] at hid
          obtain rfl := Option.some.inj hid
          exact ⟨_, hv⟩
        | duplicate =>
          rw [houtcome] at hid
          cases hid
      have hfewer := Population.unstored_gains hgains hlanded
      have hload := landed_load sending origin hpeers cap (e.pendingBatch.zip outcomes)
      have hmul := Nat.mul_le_mul_left pop.peers hfewer
      rw [Nat.mul_add] at hmul
      refine ⟨?_, foldl_applyLanded_keeps _ |>.2⟩
      dsimp only
      rw [(foldl_applyLanded_keeps _).1]
      dsimp only
      omega
    | none =>
      refine ⟨?_, foldl_enqueueStoreRetry_keeps _ |>.2⟩
      dsimp only
      rw [(foldl_enqueueStoreRetry_keeps _).1, Population.unstored_congr (EventStore.insertAllOutcomes_failed hout)]
      show 0 + _ ≤ _
      omega

theorem store_spends (hpeers : e.peers.toList.length ≤ pop.peers) {v : ValidatedEvent env room}
    (hknown : pop.Occurs v.eventId v.event) (cap : Nat) :
    pop.load cap (e.storeSent sending origin v).out + pop.peers * pop.unstored (e.storeAndFanout v).store ≤
      pop.peers * pop.unstored e.store ∧ (e.storeAndFanout v).peers = e.peers := by
  unfold storeSent storeAndFanout
  dsimp only
  cases hout : (e.store.insert v).2 with
  | some outcome =>
    have hgains := EventStore.insert_gains hout
    have hlanded : ∀ id ∈ insertedIds [(v, outcome)], ∃ event, (id, event) ∈ pop.events := by
      intro id hid
      cases outcome with
      | inserted =>
        rw [List.mem_singleton.mp hid]
        exact ⟨v.event, hknown⟩
      | duplicate => cases hid
    have hfewer := Population.unstored_gains hgains hlanded
    have hload := landed_load sending origin hpeers cap [(v, outcome)]
    rw [List.flatMap_singleton] at hload
    have hmul := Nat.mul_le_mul_left pop.peers hfewer
    rw [Nat.mul_add] at hmul
    have hkeeps := foldl_applyLanded_keeps
      (e := ({ e with store := (e.store.insert v).1 } : SyncEngine env sealing room)) [(v, outcome)]
    have hstore : (applyLanded ({ e with store := (e.store.insert v).1 } : SyncEngine env sealing room)
        (v, outcome)).store = (e.store.insert v).1 := hkeeps.1
    refine ⟨?_, hkeeps.2⟩
    dsimp only
    rw [hstore]
    omega
  | none =>
    have hkeeps := enqueueStoreRetry_keeps ({ e with store := (e.store.insert v).1 } : SyncEngine env sealing room) v
    refine ⟨?_, hkeeps.2⟩
    dsimp only
    rw [hkeeps.1, Population.unstored_congr (EventStore.insert_failed hout)]
    show 0 + _ ≤ _
    omega

/-! ### Chasing -/

theorem sum_push (chunks : Array (List EventId)) (chunk : Array EventId) :
    ((chunks.push chunk.toList).toList.map fun c => 2 + c.length).sum =
      (chunks.toList.map fun c => 2 + c.length).sum + (2 + chunk.size) := by
  rw [Array.toList_push, List.map_append, List.sum_append]
  simp

/-- The chunks still to come, each counted as its items and two more. -/
theorem sum_go_le (n : Nat) (xs : List EventId) (chunk : Array EventId) (chunks : Array (List EventId)) :
    ((List.toChunks.go n xs chunk chunks).map fun c => 2 + c.length).sum ≤
      (chunks.toList.map fun c => 2 + c.length).sum + (2 + chunk.size) + 3 * xs.length := by
  induction xs generalizing chunk chunks with
  | nil => exact (sum_push chunks chunk).le
  | cons x xs ih =>
    have hstep : List.toChunks.go n (x :: xs) chunk chunks =
        if chunk.size == n then List.toChunks.go n xs ((Array.mkEmpty n).push x) (chunks.push chunk.toList)
        else List.toChunks.go n xs (chunk.push x) chunks := rfl
    rw [hstep, List.length_cons]
    split_ifs
    · have hone : ((Array.mkEmpty n : Array EventId).push x).size = 1 := rfl
      have hrest := ih ((Array.mkEmpty n).push x) (chunks.push chunk.toList)
      rw [sum_push, hone] at hrest
      omega
    · have hrest := ih (chunk.push x) chunks
      rw [Array.size_push] at hrest
      omega

theorem sum_toChunks_le (n : Nat) (ids : List EventId) :
    ((ids.toChunks n).map fun c => 2 + c.length).sum ≤ 3 * ids.length := by
  cases ids with
  | nil => exact Nat.zero_le _
  | cons x xs =>
    cases n with
    | zero =>
      show 2 + (xs.length + 1) + 0 ≤ 3 * (xs.length + 1)
      omega
    | succ n =>
      have hgo := sum_go_le (n + 1) xs #[x] #[]
      refine hgo.trans ?_
      show 0 + (2 + 1) + 3 * xs.length ≤ 3 * (xs.length + 1)
      omega

theorem requests_load {targets : List PeerId} (htargets : targets.length ≤ pop.peers) (ids : List EventId) (cap : Nat) :
    pop.load cap (requests sending targets ids) ≤ pop.peers * (3 * ids.length) := by
  have hchunks : ∀ chunks : List (List EventId), pop.load cap (chunks.flatMap fun chunk =>
      targets.map fun peer => toPeer room peer (.wantEvents chunk)) ≤
        pop.peers * (chunks.map fun c => 2 + c.length).sum := by
    intro chunks
    induction chunks with
    | nil => exact Nat.zero_le _
    | cons chunk chunks ih =>
      have hone : pop.load cap (targets.map fun peer => toPeer room peer (.wantEvents chunk)) ≤
          pop.peers * (2 + chunk.length) := by
        refine (Population.load_le (w := 2 + chunk.length) fun o ho => ?_).trans ?_
        · obtain ⟨peer, -, rfl⟩ := List.mem_map.mp ho
          exact Nat.le_refl _
        · rw [List.length_map]
          exact Nat.mul_le_mul_right _ htargets
      rw [List.flatMap_cons, Population.load_append, List.map_cons, List.sum_cons, Nat.mul_add]
      omega
  exact (hchunks _).trans (Nat.mul_le_mul_left _ (sum_toChunks_le _ ids))

theorem bucket_takeBackfillToken (e : SyncEngine env sealing room) (author a : IdentityKey) :
    e.config.bucket (e.takeBackfillToken author).1.tokens a =
      if a = author then e.config.bucket e.tokens a - 1 else e.config.bucket e.tokens a := by
  unfold SyncConfig.bucket takeBackfillToken
  dsimp only
  rw [OrdMap.get?_insert]
  split_ifs with ha
  · rw [ha]
    rfl
  · rfl

/-- A token that is granted is gone from the bucket of an author of the room. -/
theorem tokensLeft_take {author : IdentityKey} (hauthor : ∃ p ∈ pop.events, p.2.senderId = author) :
    (if (e.takeBackfillToken author).2 then 1 else 0) +
      pop.tokensLeft e.config (e.takeBackfillToken author).1.tokens ≤ pop.tokensLeft e.config e.tokens := by
  have hle : ∀ p, e.config.bucket (e.takeBackfillToken author).1.tokens p ≤ e.config.bucket e.tokens p := by
    intro p
    rw [bucket_takeBackfillToken]
    split_ifs <;> omega
  obtain ⟨p, hp, rfl⟩ := hauthor
  unfold Population.tokensLeft
  generalize pop.events = events at hp ⊢
  induction events with
  | nil => cases hp
  | cons q events ih =>
    rw [List.map_cons, List.map_cons, List.sum_cons, List.sum_cons]
    have hrest : (events.map fun p' => e.config.bucket (e.takeBackfillToken p.2.senderId).1.tokens p'.2.senderId).sum ≤
        (events.map fun p' => e.config.bucket e.tokens p'.2.senderId).sum :=
      List.sum_le_sum fun p' _ => hle p'.2.senderId
    rcases List.mem_cons.mp hp with rfl | hmem
    · rw [bucket_takeBackfillToken, if_pos rfl]
      split_ifs with hleft
      · have hpos : 0 < e.config.bucket e.tokens p.2.senderId := of_decide_eq_true hleft
        omega
      · omega
    · have htail := ih hmem
      have hq := hle q.2.senderId
      omega

/-- A token pays for the requests it is spent on. -/
theorem chase_spends {targets : List PeerId} (htargets : targets.length ≤ pop.peers) {author : IdentityKey}
    (hauthor : ∃ p ∈ pop.events, p.2.senderId = author) {missing : List EventId}
    (hmissing : missing.length ≤ maxPrevEvents) (depth cap : Nat) :
    pop.load cap (e.chaseOut sending targets author missing) + pop.reserve (e.chase author depth missing) ≤
      pop.reserve e := by
  have hfetch : (missing.filter e.worthBackfilling).length ≤ maxPrevEvents :=
    (List.length_filter_le _ _).trans hmissing
  have hpaid := tokensLeft_take (e := e) hauthor
  unfold chaseOut chase Population.reserve
  dsimp only
  split_ifs with hnone htaken
  · simp
  · rw [htaken, if_pos rfl] at hpaid
    have hload := requests_load sending htargets (missing.filter e.worthBackfilling) cap
    have hcost : pop.peers * (3 * (missing.filter e.worthBackfilling).length) ≤ pop.grantCost :=
      Nat.mul_le_mul_left _ (Nat.mul_le_mul_left _ hfetch)
    have hmul := Nat.mul_le_mul_left pop.grantCost hpaid
    rw [Nat.mul_add, Nat.mul_one] at hmul
    show _ + (pop.peers * pop.unstored e.store +
      pop.grantCost * pop.tokensLeft e.config (e.takeBackfillToken author).1.tokens) ≤ _
    omega
  · have hmul := Nat.mul_le_mul_left pop.grantCost ((Nat.le_add_left _ _).trans hpaid)
    show 0 + (pop.peers * pop.unstored e.store +
      pop.grantCost * pop.tokensLeft e.config (e.takeBackfillToken author).1.tokens) ≤ _
    omega

end SyncEngine

/-! ### Calls -/

theorem RoomMembership.outcome_buffered_few {m : RoomMembership env room} {id id' : EventId}
    {missing : List EventId} (hout : m.outcome id = .buffered id' missing) : missing.length ≤ maxPrevEvents := by
  unfold RoomMembership.outcome at hout
  split at hout
  · cases hout
    exact Nat.zero_le _
  · rename_i n hn
    split at hout
    · cases hout
    · cases hout
    · obtain ⟨-, rfl⟩ := Ingest.buffered.inj hout
      have hcausal := (checkDecoded_ok n.event.checked).2.2.2
      refine (List.length_filter_le _ _).trans (Nat.le_of_not_lt fun hmany => ?_)
      rw [checkCausal, if_pos hmany] at hcausal
      cases hcausal

theorem OrdSet.length_ofList_le (ids : List EventId) : (OrdSet.ofList ids).toList.length ≤ ids.length := by
  have hlen := OrdSet.length_extend_le OrdMap.empty ids
  have hempty : OrdSet.toList (OrdMap.empty : OrdSet EventId) = [] := rfl
  rw [hempty, List.length_nil] at hlen
  show (OrdSet.extend OrdMap.empty ids).toList.length ≤ ids.length
  omega

/-- At most as many parents are missing as a valid event may name. -/
def Scope.few (occurs : EventId → SignedEvent → Prop) : Scope (EngineInvariant.occurring occurs env room) where
  Missing ids := ids.length ≤ maxPrevEvents
  buffered _ hout := RoomMembership.outcome_buffered_few hout
  sorted h := (OrdSet.length_ofList_le _).trans h
  known h := h

namespace SyncEngine

variable {e f g : SyncEngine env sealing room} {sending : Sending env room} {pop : Population} {cap : Nat}
  {outs outs' : List Outgoing}

/-- The parked frames are of events of the room, filed under their senders, with few missing parents. -/
def Tame (pop : Population) (e : SyncEngine env sealing room) : Prop :=
  ∀ id p, e.park.get? id = some p →
    (Scope.few pop.Occurs : Scope (EngineInvariant.occurring pop.Occurs env room)).Parks p

/-- What is sent is paid for, and the next call may go on. -/
structure Pays (pop : Population) (cap : Nat) (e : SyncEngine env sealing room) (outs : List Outgoing)
    (f : SyncEngine env sealing room) : Prop where
  reserve : pop.load cap outs + pop.reserve f ≤ pop.reserve e
  peers : f.peers = e.peers
  tame : f.Tame pop

theorem Pays.trans (h : Pays pop cap e outs f) (h' : Pays pop cap f outs' g) : Pays pop cap e (outs ++ outs') g := by
  refine ⟨?_, h'.peers.trans h.peers, h'.tame⟩
  have hfirst := h.reserve
  have hsecond := h'.reserve
  rw [Population.load_append]
  omega

theorem Pays.of_calm (h : (Scope.few pop.Occurs).Calm e f) (htame : e.Tame pop) : Pays pop cap e [] f := by
  refine ⟨?_, h.peers, fun id p hp => (h.park id p hp).elim (htame id p) fun hnew => hnew⟩
  rw [Population.reserve, h.store, h.config, h.tokens]
  show 0 + _ ≤ _
  rw [Nat.zero_add]
  rfl

theorem Pays.of_aside (h : Aside e f) (hpeers : f.peers = e.peers) (htame : e.Tame pop)
    (hstore : pop.load cap outs + pop.peers * pop.unstored f.store ≤ pop.peers * pop.unstored e.store) :
    Pays pop cap e outs f := by
  refine ⟨?_, hpeers, fun id p hp => htame id p (h.park ▸ hp)⟩
  unfold Population.reserve
  rw [h.config, h.tokens]
  omega

theorem chase_peers (author : IdentityKey) (depth : Nat) (missing : List EventId) :
    (e.chase author depth missing).peers = e.peers := by
  unfold chase takeBackfillToken
  dsimp only
  split_ifs <;> rfl

end SyncEngine

namespace Scope

variable {e f : SyncEngine env sealing room} {sending : Sending env room} {pop : Population} {outs : List Outgoing}

theorem Talk.pays (h : (few pop.Occurs).Talk sending e outs f) (htame : e.Tame pop)
    (hpeers : e.peers.toList.length ≤ pop.peers) (cap : Nat) : e.Pays pop cap outs f := by
  cases h with
  | calm hcalm => exact .of_calm hcalm htame
  | flush origin hpending =>
    obtain ⟨hstore, hsame⟩ := SyncEngine.flush_spends sending origin hpeers hpending cap
    exact .of_aside SyncEngine.flushStoreBatch_aside hsame htame hstore
  | store origin hv =>
    obtain ⟨hstore, hsame⟩ := SyncEngine.store_spends sending origin hpeers hv cap
    exact .of_aside (SyncEngine.storeAndFanout_aside _) hsame htame hstore
  | @chase targets id p depth missing htargets hp hmissing =>
    have hparks := htame id p hp
    refine ⟨SyncEngine.chase_spends sending ?_ ?_ ?_ depth cap, SyncEngine.chase_peers _ _ _, fun id' q hq => ?_⟩
    · exact htargets.length_le.trans hpeers
    · exact ⟨(p.event.eventId, p.event.event), hparks.known, hparks.author.symm⟩
    · rcases hmissing with hfew | rfl
      · exact hfew
      · exact hparks.missing
    · rw [chase_park] at hq
      exact htame id' q hq

theorem Tells.pays (h : (few pop.Occurs).Tells sending e outs f) (htame : e.Tame pop)
    (hpeers : e.peers.toList.length ≤ pop.peers) (cap : Nat) : e.Pays pop cap outs f := by
  induction h with
  | refl => exact .of_calm (.refl e) htame
  | tail _ hmove ih =>
    refine ih.trans (hmove.pays ih.tame ?_ cap)
    rw [ih.peers]
    exact hpeers

end Scope

namespace SyncEngine

variable {e : SyncEngine env sealing room} {sending : Sending env room} {pop : Population}

/-! ### Answers -/

theorem length_batchFrames (frames batch : List Frame) (cost : Nat) :
    (batchFrames frames batch cost).length ≤ frames.length + (if batch.isEmpty then 0 else 1) := by
  induction frames generalizing batch cost with
  | nil =>
    unfold batchFrames
    split_ifs <;> simp
  | cons f frames ih =>
    unfold batchFrames
    dsimp only
    split_ifs with hcut hempty hempty
    · simp [hempty] at hcut
    · have hrest := ih [f] (f.frameLen + eventsPerFrameOverhead)
      simp only [List.isEmpty_cons, Bool.false_eq_true, if_false] at hrest
      rw [List.length_cons, List.length_cons]
      omega
    · have hrest := ih (batch ++ [f]) (cost + (f.frameLen + eventsPerFrameOverhead))
      rw [if_neg (by simp)] at hrest
      rw [List.length_cons]
      omega
    · have hrest := ih (batch ++ [f]) (cost + (f.frameLen + eventsPerFrameOverhead))
      rw [if_neg (by simp)] at hrest
      rw [List.length_cons]
      omega

theorem emitEvents_load (peer : PeerId) (frames : List Frame) (cap : Nat) :
    pop.load cap (emitEvents room peer frames) ≤ frames.length := by
  have hlen : (batchFrames frames [] 0).length ≤ frames.length := by simpa using length_batchFrames frames [] 0
  have hcount : (emitEvents room peer frames).length = (batchFrames frames [] 0).length := List.length_map _
  have hload : pop.load cap (emitEvents room peer frames) ≤ (emitEvents room peer frames).length * 1 := by
    refine Population.load_le fun o ho => ?_
    obtain ⟨batch, -, rfl⟩ := List.mem_map.mp ho
    exact Nat.le_refl 1
  omega

theorem length_collectWanted (ids : List EventId) (got : List Frame × List EventId) :
    (e.collectWanted sending.toServing ids got).1.length ≤ got.1.length + ids.length := by
  induction ids generalizing got with
  | nil => exact Nat.le_refl _
  | cons id ids ih =>
    unfold collectWanted
    rw [List.length_cons]
    split_ifs
    · omega
    · split
      · refine (ih _).trans ?_
        rw [List.length_append, List.length_singleton]
        omega
      · refine (ih _).trans ?_
        dsimp only
        omega

theorem length_framesFromStored (rows : List (Row env room)) :
    (sending.framesFromStored rows).length ≤ sending.responseMaxFrames := List.length_take_le _ _

theorem pulled_load (sender : PeerId) (body : MessageBody) :
    1 + pop.load sending.responseMaxFrames (e.pulled sending.toServing sender body) ≤
      pop.weight sending.responseMaxFrames body := by
  have hstored : ∀ rows : List (Row env room),
      pop.load sending.responseMaxFrames (emitEvents room sender (sending.framesFromStored rows)) ≤
        sending.responseMaxFrames :=
    fun rows => (emitEvents_load sender _ _).trans (length_framesFromStored rows)
  cases body with
  | wantEvents ids =>
    have hframes : (e.collectWanted sending.toServing ids ([], [])).1.length ≤ 0 + ids.length :=
      length_collectWanted ids _
    have hemit : pop.load sending.responseMaxFrames
        (emitEvents room sender (e.collectWanted sending.toServing ids ([], [])).1) ≤ _ := emitEvents_load sender _ _
    have hlost : pop.load sending.responseMaxFrames
        (if (e.collectWanted sending.toServing ids ([], [])).2 = [] then []
          else [toPeer room sender (.notFound (e.collectWanted sending.toServing ids ([], [])).2)]) ≤ 1 := by
      split_ifs
      · exact Nat.zero_le _
      · exact Nat.le_refl 1
    show 1 + pop.load _ (emitEvents room sender _ ++ _) ≤ 2 + ids.length
    rw [Population.load_append]
    omega
  | wantMembership held =>
    show 1 + pop.load _ (e.serveWantMembership sending.toServing sender held) ≤ 1 + sending.responseMaxFrames
    unfold serveWantMembership
    split
    · exact Nat.add_le_add_left (Nat.zero_le _) 1
    · exact Nat.add_le_add_left (hstored _) 1
  | wantRecentChat window held => exact Nat.add_le_add_left (hstored _) 1
  | adminTip tip => exact Nat.le_add_right 1 _
  | _ => exact Nat.le_refl 1

theorem handleAdminTipOut_load (hpeers : e.peers.toList.length ≤ pop.peers) (claimRotation : Nat)
    (tip : Option (EventId × Nat)) :
    pop.load sending.responseMaxFrames (e.handleAdminTipOut sending claimRotation tip) ≤
      pop.peers * (1 + sending.responseMaxFrames) := by
  unfold handleAdminTipOut
  split
  · split_ifs
    · refine (Population.load_le (w := 1 + sending.responseMaxFrames) fun o ho => ?_).trans ?_
      · obtain ⟨peer, -, rfl⟩ := List.mem_map.mp ho
        exact Nat.le_refl _
      · rw [List.length_map]
        exact Nat.mul_le_mul_right _ hpeers
    · exact Nat.zero_le _
  · exact Nat.zero_le _

theorem dispatched_spends (h : Reachable pop.Occurs e) (htame : e.Tame pop) (hpeers : e.peers.toList.length ≤ pop.peers)
    (claimRotation : Nat) (sender : PeerId) {peer : PeerId} {body : MessageBody}
    (hbody : ProperBody (EngineInvariant.occurring pop.Occurs env room) sending peer body) :
    ∃ paid outs, e.Pays pop sending.responseMaxFrames paid (e.dispatched body.toSync) ∧
      (e.dispatchedSent sending claimRotation sender body).out = outs ++ paid ∧
      1 + pop.load sending.responseMaxFrames outs ≤ pop.weight sending.responseMaxFrames body := by
  have hholds := EngineInvariant.occurring_holds h
  have hsame : e.Pays pop sending.responseMaxFrames [] e := .of_calm (.refl e) htame
  have hpulled : ∀ body' : MessageBody, 1 + pop.load sending.responseMaxFrames
      (e.pulled sending.toServing sender body') ≤ pop.weight sending.responseMaxFrames body' := pulled_load sender
  cases body with
  | adminTip tip =>
    refine ⟨[], _, .of_calm (Scope.calm_handleAdminTip tip) htame, (List.append_nil _).symm, ?_⟩
    exact Nat.add_le_add_left (handleAdminTipOut_load hpeers claimRotation tip) 1
  | events frames =>
    have htells : (Scope.few pop.Occurs).Tells sending e _ _ := Scope.tells_deliverFrames (some sender) frames hholds
      fun f hf => EngineInvariant.occurring_frame (hbody.frames_occur f hf)
    exact ⟨_, [], htells.pays htame hpeers _, rfl, Nat.le_refl 1⟩
  | keyHistory chunks =>
    exact ⟨[], [], .of_calm (Scope.calm_adoptKeyHistory chunks e) htame, rfl, Nat.le_refl 1⟩
  | terminalEvents => exact hbody.elim
  | proveCapability => exact hbody.elim
  | wantKeyHistory => exact hbody.elim
  | heads ids => exact ⟨[], [], hsame, rfl, Nat.le_refl 1⟩
  | eventsConfirmed ids nonce => exact ⟨[], [], hsame, rfl, Nat.le_refl 1⟩
  | notFound ids => exact ⟨[], [], hsame, rfl, Nat.le_refl 1⟩
  | wantEvents ids => exact ⟨[], _, hsame, (List.append_nil _).symm, hpulled (.wantEvents ids)⟩
  | wantMembership held => exact ⟨[], _, hsame, (List.append_nil _).symm, hpulled (.wantMembership held)⟩
  | wantRecentChat window held => exact ⟨[], _, hsame, (List.append_nil _).symm, hpulled (.wantRecentChat window held)⟩

/-- A message of the room that is taken in is worth more than all it sets off. -/
theorem onMessage_spends (h : Reachable pop.Occurs e) (htame : e.Tame pop) (hpeers : e.peers.toList.length ≤ pop.peers)
    (claimRotation : Nat) (sender : PeerId) {peer : PeerId} {msg : RoomMessage}
    (hbody : ProperBody (EngineInvariant.occurring pop.Occurs env room) sending peer msg.body) :
    1 + pop.load sending.responseMaxFrames (e.onMessageOut sending claimRotation sender msg) +
        pop.reserve (e.onMessage msg.roomId msg.body.toSync) ≤
      pop.weight sending.responseMaxFrames msg.body + pop.reserve e ∧
    (e.onMessage msg.roomId msg.body.toSync).peers = e.peers ∧ (e.onMessage msg.roomId msg.body.toSync).Tame pop := by
  have hpos : 1 ≤ pop.weight sending.responseMaxFrames msg.body := by
    have hpulled : 1 + pop.load sending.responseMaxFrames (e.pulled sending.toServing sender msg.body) ≤ _ :=
      pulled_load sender msg.body
    omega
  unfold onMessageOut
  by_cases hroom : msg.roomId ≠ room
  · have hsame : e.onMessage msg.roomId msg.body.toSync = e := if_pos hroom
    rw [if_pos hroom, hsame, Population.load_nil]
    exact ⟨by omega, rfl, htame⟩
  · obtain ⟨paid, outs, hpays, hout, hweight⟩ := dispatched_spends h htame hpeers claimRotation sender hbody
    have hafter : e.onMessage msg.roomId msg.body.toSync = (e.dispatched msg.body.toSync).finalizeDelivery :=
      if_neg hroom
    have hholds := dispatched_holds (EngineInvariant.occurring_holds h)
      fun f hf => EngineInvariant.occurring_frame (hbody.frames_occur f hf)
    have hfinal : (Scope.few pop.Occurs).Tells sending (e.dispatched msg.body.toSync) _ _ :=
      Scope.tells_finalize (some sender) hholds
    have hall := hpays.trans (hfinal.pays hpays.tame (by rw [hpays.peers]; exact hpeers) sending.responseMaxFrames)
    have hreceipt : ∀ f : SyncEngine env sealing room, f.receipt sender msg.body = [] := by
      intro f
      unfold receipt
      split
      · rename_i hterminal
        rw [hterminal] at hbody
        exact hbody.elim
      · rfl
    rw [if_neg hroom, hreceipt, List.append_nil, Sent.append_out, hout, List.append_assoc, Population.load_append,
      hafter]
    refine ⟨?_, hall.peers, hall.tame⟩
    have hreserve := hall.reserve
    omega

end SyncEngine

end IrohRooms
