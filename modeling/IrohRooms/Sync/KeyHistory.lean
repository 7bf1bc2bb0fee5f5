import IrohRooms.Sync.Frame
import IrohRooms.Sync.KeyConvergence

/-!
# Key history

A key-history chunk is adopted as a distribution would be, with nothing that ties it to an event. It may therefore
name any event id, any epoch and any commitment, and displace a key, poison an epoch or outdate the distributions to
come. `Harmless` is when it does none of this, and `keyHistory_keeps_keys` compares the run after a message of
such chunks with the run without it.
-/

namespace IrohRooms

namespace EpochSlot

/-- Two slots of which the second holds every key that the first one holds, whatever both are offered later. -/
structure Covers (s t : EpochSlot) : Prop where
  tidy : s.Tidy
  tidy' : t.Tidy
  best : t.best = s.best
  commitment : t.commitment = s.commitment
  poisoned : t.state = some .poisoned → s.state = some .poisoned ∨ s.best = none

namespace Covers

variable {s t : EpochSlot}

theorem refl (h : s.Tidy) : Covers s s := ⟨h, h, rfl, rfl, Or.inl⟩

theorem held (h : Covers s t) {k : RoomKey} {source : EventId} (hs : s.state = some (.key k source)) :
    t.state = some (.key k source) := by
  have hbest := best_of_held hs
  have hfree : t.state ≠ some .poisoned := by
    intro hpoisoned
    rcases h.poisoned hpoisoned with hstate | hnone
    · rw [hs] at hstate
      cases hstate
    · rw [hbest] at hnone
      cases hnone
  rw [state_of_unpoisoned hfree, h.best, hbest]
  rfl

theorem conflicts (h : Covers s t) (o : KeyOffer) : t.conflicts o = s.conflicts o := by
  rw [EpochSlot.conflicts, EpochSlot.conflicts, h.commitment]

/-- The same offer on both sides. -/
theorem adopt (h : Covers s t) (o : KeyOffer) : Covers (s.adopt o) (t.adopt o) := by
  obtain ⟨htidy, hbest, hpoisoned⟩ := adopt_spec h.tidy o
  obtain ⟨htidy', hbest', hpoisoned'⟩ := adopt_spec h.tidy' o
  refine ⟨htidy, htidy', ?_, ?_, ?_⟩
  · rw [hbest, hbest', h.best]
  · rw [commitment_adopt, commitment_adopt, h.commitment]
  · intro hbad
    obtain ⟨hkey, hcause⟩ := hpoisoned'.mp hbad
    rw [h.conflicts] at hcause
    rcases hcause with hconflict | hstate
    · exact Or.inl (hpoisoned.mpr ⟨hkey, Or.inl hconflict⟩)
    · rcases h.poisoned hstate with hstate | hnone
      · exact Or.inl (hpoisoned.mpr ⟨hkey, Or.inr hstate⟩)
      · refine Or.inr ?_
        rw [hbest, hkey]
        exact hnone

/-- An offer to the second slot alone. A key may only come second to a known one, and a commitment without a key may
conflict only where no key is held. -/
theorem adopt_right (h : Covers s t) {o : KeyOffer} (hfirst : t.commitment ≠ none)
    (hoffer : match o.key with
      | none => t.conflicts o = false ∨ ∀ k source, t.state ≠ some (.key k source)
      | some _ => ∃ w, t.best = some w ∧ w.1 ≤ o.eventId) : Covers s (t.adopt o) := by
  obtain ⟨htidy', hbest', hpoisoned'⟩ := adopt_spec h.tidy' o
  obtain ⟨first, hfirst⟩ := Option.ne_none_iff_exists'.mp hfirst
  have hcommitment : (t.adopt o).commitment = s.commitment := by
    rw [commitment_adopt, ← h.commitment, hfirst]
    rfl
  cases hkey : o.key with
  | none =>
    rw [hkey] at hoffer hbest'
    refine ⟨h.tidy, htidy', hbest'.trans h.best, hcommitment, ?_⟩
    intro hbad
    by_cases hstate : t.state = some .poisoned
    · exact h.poisoned hstate
    · -- a conflict is new here, so the slot holds no key and knows none
      have hconflict : t.conflicts o = true := (hpoisoned'.mp hbad).2.resolve_right hstate
      have hnokey : ∀ k source, t.state ≠ some (.key k source) := by
        rcases hoffer with hfree | hnokey
        · rw [hconflict] at hfree
          cases hfree
        · exact hnokey
      refine Or.inr ?_
      rw [← h.best, EpochSlot.best]
      cases hst : t.state with
      | none => rfl
      | some st =>
        cases st with
        | key k source => exact absurd hst (hnokey k source)
        | poisoned => exact absurd hst hstate
  | some k =>
    rw [hkey] at hoffer hbest'
    obtain ⟨w, hw, hle⟩ := hoffer
    have hsame : (t.adopt o).best = s.best := by
      rw [hbest', ← h.best, hw]
      unfold EpochKeyStore.pick
      dsimp only
      rw [if_neg (not_lt.mpr hle)]
    refine ⟨h.tidy, htidy', hsame, hcommitment, ?_⟩
    intro hbad
    rw [(hpoisoned'.mp hbad).1] at hkey
    cases hkey

end Covers

/-- An offer that leaves a held key in place. -/
theorem adopt_held {s : EpochSlot} (h : s.Tidy) {k : RoomKey} {source : EventId}
    (hs : s.state = some (.key k source)) {o : KeyOffer}
    (hoffer : match o.key with
      | none => s.conflicts o = false
      | some k' => k' = k ∨ source ≤ o.eventId) : ∃ source', (s.adopt o).state = some (.key k source') := by
  obtain ⟨-, hbest, hpoisoned⟩ := adopt_spec h o
  have hfree : (s.adopt o).state ≠ some .poisoned := by
    intro hbad
    obtain ⟨hkey, hcause⟩ := hpoisoned.mp hbad
    rw [hkey] at hoffer
    rcases hcause with hconflict | hstate
    · rw [hoffer] at hconflict
      cases hconflict
    · rw [hs] at hstate
      cases hstate
  rw [state_of_unpoisoned hfree, hbest, best_of_held hs]
  cases hkey : o.key with
  | none => exact ⟨source, rfl⟩
  | some k' =>
    rw [hkey] at hoffer
    dsimp only [EpochKeyStore.pick, Option.map_some]
    split_ifs with hlt
    · refine ⟨o.eventId, ?_⟩
      rw [hoffer.resolve_right (not_le.mpr hlt)]
    · exact ⟨source, rfl⟩

end EpochSlot

namespace KeyRing

variable (env : Env) (sealing : Sealing) (room : RoomId) (seed : Option SigningKey)

/-- A distribution that is adopted out of order without harm. It is not of a new epoch. In a past epoch it leaves
the key in place, if that is one of the `given` keys. In the current epoch it is not the first one seen, a
key of it comes second to a known one, and without a key it conflicts only where no key is held. -/
def Harmless (given : Nat → RoomKey → Prop) (ring : KeyRing) (eventId : EventId) (d : MemberKeyDistribution) : Prop :=
  let s := ring.slot d.newEpoch
  let o := offer env sealing room seed eventId d
  d.newEpoch ≤ ring.highestEpochSeen ∧
  (d.newEpoch < ring.highestEpochSeen → ∀ k source, s.state = some (.key k source) → given d.newEpoch k →
    match o.key with
    | none => s.conflicts o = false
    | some k' => k' = k ∨ source ≤ eventId) ∧
  (d.newEpoch = ring.highestEpochSeen → s.commitment ≠ none ∧
    match o.key with
    | none => s.conflicts o = false ∨ ∀ k source, s.state ≠ some (.key k source)
    | some _ => ∃ w, s.best = some w ∧ w.1 ≤ eventId)

/-- Every epoch is tidy. -/
def Tidy (ring : KeyRing) : Prop := ∀ epoch, (ring.slot epoch).Tidy

/-- The second ring holds what the first one does and will do so: in the epochs from `floor` on, and before that for
the `given` keys. -/
structure Shadows (given : Nat → RoomKey → Prop) (floor : Nat) (r r' : KeyRing) : Prop where
  tidy : r'.Tidy
  highest : r'.highestEpochSeen = r.highestEpochSeen
  reached : floor ≤ r.highestEpochSeen
  ahead : ∀ epoch, r.highestEpochSeen ≤ epoch → (r.slot epoch).Covers (r'.slot epoch)
  behind : ∀ epoch, epoch < r.highestEpochSeen → ∀ k, r.roomKeys.get epoch = some k →
    floor ≤ epoch ∨ given epoch k → r'.roomKeys.get epoch = some k

variable {env sealing room seed}

theorem Tidy.adopt {ring : KeyRing} (h : ring.Tidy) (eventId : EventId) (d : MemberKeyDistribution)
    (allowBackward : Bool) : (ring.adoptKeyDistribution env sealing room seed eventId d allowBackward).Tidy := by
  intro epoch
  by_cases htaken : allowBackward = true ∨ ring.highestEpochSeen ≤ d.newEpoch
  · rw [slot_adoptKeyDistribution env sealing room seed ring eventId d htaken epoch]
    split_ifs
    · exact (EpochSlot.adopt_spec (h epoch) _).1
    · exact h epoch
  · obtain ⟨hforward, hlate⟩ := not_or.mp htaken
    rw [Bool.not_eq_true] at hforward
    rw [hforward, adoptKeyDistribution_ignored env sealing room seed ring eventId d (not_le.mp hlate)]
    exact h epoch

theorem Tidy.insert {ring : KeyRing} (h : ring.Tidy) (epoch : Nat) (key : RoomKey) (eventId : EventId) :
    KeyRing.Tidy { ring with roomKeys := (ring.roomKeys.insert epoch key eventId).1 } := by
  intro epoch'
  by_cases hne : epoch' = epoch
  · subst hne
    have htidy : ring.roomKeys.epochs.get? epoch' ≠ some .poisoned → ring.roomKeys.candidates.get? epoch' = none :=
      h epoch'
    unfold EpochSlot.Tidy slot EpochKeyStore.insert
    dsimp only
    cases hstate : ring.roomKeys.epochs.get? epoch' with
    | none => exact fun _ => htidy (by simp [hstate])
    | some st =>
      cases st with
      | key held source =>
        dsimp only
        split_ifs
        · exact fun _ => htidy (by simp [hstate])
        · intro hfree
          exact absurd (OrdMap.get?_insert_self _ _ _) hfree
      | poisoned => exact fun hfree => absurd hstate hfree
  · have hview := EpochKeyStore.view_insert_of_ne ring.roomKeys hne key eventId
    have hslot : ({ ring with roomKeys := (ring.roomKeys.insert epoch key eventId).1 } : KeyRing).slot epoch' =
        ring.slot epoch' := slot_eq_of_view hview rfl
    rw [hslot]
    exact h epoch'

namespace Shadows

variable {given : Nat → RoomKey → Prop} {floor : Nat} {r r' : KeyRing}

theorem refl (h : r.Tidy) : Shadows given r.highestEpochSeen r r :=
  ⟨h, rfl, le_rfl, fun epoch _ => .refl (h epoch), fun _ _ _ hk _ => hk⟩

theorem get (h : Shadows given floor r r') {epoch : Nat} {k : RoomKey} (hk : r.roomKeys.get epoch = some k)
    (hepoch : floor ≤ epoch ∨ given epoch k) : r'.roomKeys.get epoch = some k := by
  rcases Nat.lt_or_ge epoch r.highestEpochSeen with hlt | hge
  · exact h.behind epoch hlt k hk hepoch
  · obtain ⟨source, hstate⟩ := get_eq_some_iff.mp hk
    exact get_eq_some_iff.mpr ⟨source, (h.ahead epoch hge).held hstate⟩

/-- Both rings adopt one event. -/
theorem adoptKeyFromEvent (h : Shadows given floor r r') (eventId : EventId) (content : Content) :
    Shadows given floor (r.adoptKeyFromEvent env sealing room seed eventId content)
      (r'.adoptKeyFromEvent env sealing room seed eventId content) := by
  unfold KeyRing.adoptKeyFromEvent
  cases distributionOf content with
  | none => exact h
  | some d =>
    dsimp only
    by_cases hlate : d.newEpoch < r.highestEpochSeen
    · rw [adoptKeyDistribution_ignored env sealing room seed r eventId d hlate,
        adoptKeyDistribution_ignored env sealing room seed r' eventId d (h.highest ▸ hlate)]
      exact h
    · have hle := not_lt.mp hlate
      have htaken : false = true ∨ r.highestEpochSeen ≤ d.newEpoch := Or.inr hle
      have htaken' : false = true ∨ r'.highestEpochSeen ≤ d.newEpoch := Or.inr (h.highest ▸ hle)
      have hslot := slot_adoptKeyDistribution env sealing room seed r eventId d htaken
      have hslot' := slot_adoptKeyDistribution env sealing room seed r' eventId d htaken'
      have hhighest := highestEpochSeen_adopt env sealing room seed r eventId d htaken
      have hhighest' := highestEpochSeen_adopt env sealing room seed r' eventId d htaken'
      rw [max_eq_right hle] at hhighest
      rw [h.highest, max_eq_right hle] at hhighest'
      have hreached := h.reached
      refine ⟨h.tidy.adopt eventId d false, hhighest'.trans hhighest.symm, by omega, ?_, ?_⟩
      · intro epoch hepoch
        rw [hslot, hslot']
        split_ifs
        · exact (h.ahead epoch (by omega)).adopt _
        · exact h.ahead epoch (by omega)
      · intro epoch hepoch k hk hcovered
        rw [hhighest] at hepoch
        rw [get_eq_some_iff, hslot, if_neg hepoch.ne] at hk
        rw [get_eq_some_iff, hslot', if_neg hepoch.ne]
        exact get_eq_some_iff.mp (h.get (get_eq_some_iff.mpr hk) hcovered)

/-- The second ring alone adopts a harmless distribution, before anything else happened. -/
theorem adopt_harmless (h : Shadows given r.highestEpochSeen r r') {eventId : EventId} {d : MemberKeyDistribution}
    (hd : Harmless env sealing room seed given r' eventId d) :
    Shadows given r.highestEpochSeen r (r'.adoptKeyDistribution env sealing room seed eventId d true) := by
  obtain ⟨hold, hpast, hcurrent⟩ := hd
  have htaken : true = true ∨ r'.highestEpochSeen ≤ d.newEpoch := Or.inl rfl
  have hslot := slot_adoptKeyDistribution env sealing room seed r' eventId d htaken
  have hhighest := highestEpochSeen_adopt env sealing room seed r' eventId d htaken
  rw [max_eq_left hold] at hhighest
  have hsame := h.highest
  refine ⟨h.tidy.adopt eventId d true, hhighest.trans hsame, le_rfl, ?_, ?_⟩
  · intro epoch hepoch
    rw [hslot]
    split_ifs with hd
    · subst hd
      obtain ⟨hfirst, hoffer⟩ := hcurrent (by omega)
      exact (h.ahead d.newEpoch hepoch).adopt_right hfirst hoffer
    · exact h.ahead epoch hepoch
  · intro epoch hepoch k hk hcovered
    have hgiven : given epoch k := hcovered.resolve_left (not_le.mpr hepoch)
    obtain ⟨source, hstate⟩ := get_eq_some_iff.mp (h.behind epoch hepoch k hk hcovered)
    rw [get_eq_some_iff, hslot]
    split_ifs with hd
    · subst hd
      exact EpochSlot.adopt_held (h.tidy d.newEpoch) hstate (hpast (by omega) k source hstate hgiven)
    · exact ⟨source, hstate⟩

end Shadows

end KeyRing

section Engine

variable {env : Env} {sealing : Sealing} {room : RoomId}

def KeyHistoryChunk.distribution (c : KeyHistoryChunk) : MemberKeyDistribution :=
  ⟨c.epoch, c.keyCommitment, c.wrappedKeys⟩

namespace SyncEngine

/-- An accepted event gives this device the key for the epoch. -/
def DistributedKey (e : SyncEngine env sealing room) (epoch : Nat) (k : RoomKey) : Prop :=
  ∃ id v d, e.store.event? id = some v ∧ KeyRing.distributionOf v.event.content = some d ∧ d.newEpoch = epoch ∧
    KeyRing.unwrapLocal env sealing room e.localDeviceSeed d = some k

/-- Every chunk is harmless in the state it finds. -/
def HarmlessHistory (e : SyncEngine env sealing room) : List KeyHistoryChunk → Prop
  | [] => True
  | c :: chunks =>
    KeyRing.Harmless env sealing room e.localDeviceSeed e.DistributedKey e.keyRing c.distributionEventId
      c.distribution ∧ (e.adoptKeyHistoryChunk c).HarmlessHistory chunks

/-- A key history changes the ring alone, and a harmless one leaves a shadow of it. -/
theorem adoptKeyHistory_shadows {e : SyncEngine env sealing room} {chunks : List KeyHistoryChunk} {r : KeyRing}
    (hr : KeyRing.Shadows e.DistributedKey r.highestEpochSeen r e.keyRing) (h : e.HarmlessHistory chunks) :
    ∃ ring, chunks.foldl adoptKeyHistoryChunk e = e.withRing ring ∧
      KeyRing.Shadows e.DistributedKey r.highestEpochSeen r ring := by
  induction chunks generalizing e with
  | nil => exact ⟨e.keyRing, rfl, hr⟩
  | cons c chunks ih => exact ih (hr.adopt_harmless h.1) h.2

/-- Rings that stay shadows. -/
def shadowing (e : SyncEngine env sealing room) : RingRelation env sealing room where
  seed := e.localDeviceSeed
  Rel := KeyRing.Shadows e.DistributedKey e.keyRing.highestEpochSeen
  adopt id content h := h.adoptKeyFromEvent id content

/-- Rings that stay tidy. -/
def tidying (seed : Option SigningKey) : RingRelation env sealing room where
  seed := seed
  Rel r _ := r.Tidy
  adopt {r _} id content h := by
    unfold KeyRing.adoptKeyFromEvent
    split
    · exact h.adopt id _ false
    · exact h

end SyncEngine

theorem KeyRing.tidy_new : KeyRing.new.Tidy := fun _ _ => rfl

/-- Only poisoned epochs keep candidates, in every state a node can be in. -/
theorem Reachable.tidy {occurs : EventId → SignedEvent → Prop} {e : SyncEngine env sealing room}
    (h : Reachable occurs e) : e.keyRing.Tidy := by
  have hrestored : ∀ config seed (s : EventStore env room) tables,
      (SyncEngine.restore config seed s tables : SyncEngine env sealing room).keyRing.Tidy := by
    intro config seed s tables
    refine List.foldlRecOn (motive := fun ks : EpochKeyStore => KeyRing.Tidy { KeyRing.new with roomKeys := ks })
      tables.roomKeys.entries _ KeyRing.tidy_new ?_
    intro ks hks p _
    have htidy : KeyRing.Tidy { KeyRing.new with roomKeys := ks } := hks
    exact htidy.insert p.1 p.2.1 p.2.2
  have hself : ∀ a : SyncEngine env sealing room, a.keyRing.Tidy →
      Kept (SyncEngine.tidying a.localDeviceSeed) a a a := fun _ ha => .refl rfl ha
  induction h with
  | opened _ hopen =>
    rw [SyncEngine.openEngine_ok hopen]
    exact hrestored _ _ _ _
  | reopened _ _ hopen =>
    rw [SyncEngine.openEngine_ok hopen]
    exact hrestored _ _ _ _
  | @step e _ input _ ih =>
    have hquiet : ∀ input : SyncEngine.Input, input.LeavesKeys → (e.step input).keyRing.Tidy :=
      fun _ hinput => ((hself e ih).step hinput).ring
    cases input with
    | onMessage msgRoom msg =>
      cases msg with
      | keyHistory chunks =>
        have hadopted : (chunks.foldl SyncEngine.adoptKeyHistoryChunk e).keyRing.Tidy :=
          List.foldlRecOn (motive := fun e : SyncEngine env sealing room => e.keyRing.Tidy) chunks _ ih
            fun _ he c _ => he.adopt c.distributionEventId c.distribution true
        unfold SyncEngine.step SyncEngine.onMessage
        dsimp only
        split_ifs
        · exact ih
        · exact (hself _ hadopted).finalizeDelivery.ring
      | _ => exact hquiet _ trivial
    | insertRoomKey epoch key => exact ih.insert epoch key ⟨0⟩
    | _ => exact hquiet _ trivial

/-- The keys that are held without a key history are held with it, now and after whatever is delivered later, if all
its chunks are harmless. In the place of the message, the run without it receives an empty one: handling a message
also flushes the batch and wakes the park. -/
theorem keyHistory_keeps_keys {occurs : EventId → SignedEvent → Prop} {e : SyncEngine env sealing room}
    (hreach : Reachable occurs e) {chunks : List KeyHistoryChunk} (hharmless : e.HarmlessHistory chunks) :
    (∀ epoch k, e.keyRing.roomKeys.get epoch = some k → e.DistributedKey epoch k →
      (chunks.foldl SyncEngine.adoptKeyHistoryChunk e).keyRing.roomKeys.get epoch = some k) ∧
    ∀ inputs : List SyncEngine.Input, (∀ input ∈ inputs, input.LeavesKeys) → ∀ epoch k,
      e.keyRing.highestEpochSeen ≤ epoch ∨ e.DistributedKey epoch k →
      (inputs.foldl SyncEngine.step (e.onMessage room (.keyHistory []))).keyRing.roomKeys.get epoch = some k →
      (inputs.foldl SyncEngine.step (e.onMessage room (.keyHistory chunks))).keyRing.roomKeys.get epoch = some k := by
  obtain ⟨ring, heq, hshadow⟩ := SyncEngine.adoptKeyHistory_shadows (.refl hreach.tidy) hharmless
  constructor
  · intro epoch k hk hgiven
    rw [heq]
    exact hshadow.get hk (Or.inr hgiven)
  · intro inputs hinputs epoch k hepoch hk
    have hwith : e.onMessage room (.keyHistory chunks) = (e.withRing ring).finalizeDelivery := by
      rw [← heq, SyncEngine.onMessage, if_neg (not_not.mpr rfl)]
    have hwithout : e.onMessage room (.keyHistory []) = e.finalizeDelivery := by
      rw [SyncEngine.onMessage, if_neg (not_not.mpr rfl)]
      rfl
    rw [hwithout] at hk
    rw [hwith]
    have hpair : Kept e.shadowing e e (e.withRing ring) := .refl rfl hshadow
    exact (hpair.finalizeDelivery.restart.steps hinputs).ring.get hk hepoch

end Engine

/-! ### The worked room -/

namespace Toy

/-- The device of participant 2, on a list of frames. -/
def keyedRun (events : List (Nat × SignedEvent)) : SyncEngine toyEnv plainSealing room :=
  (events.map frame).foldl SyncEngine.ingestFrame
    (.restore .standard (some (devSeed 2)) (.openEmpty []) ⟨.empty, none, .empty, .empty⟩)

/-- The admin's distribution of a room key to the devices of participants 1 and 2. -/
def distribute (epoch key : Nat) (prev : List Nat) : SignedEvent :=
  buildEvent toyEnv (idSeed 1) (devSeed 1) room (.memberKeyDistribution (distribution epoch key [1, 2]))
    (prev.map Bytes32.ofNat) 103

/-- Member 2 joined and was given key 7 for epoch 1 by event 9. -/
def keyedRoom : List (Nat × SignedEvent) :=
  [(1, genesis), (2, invite 2 2 .member none [1]), (3, join 2 2 .member [2]), (9, distribute 1 7 [3])]

/-- A history chunk with a key for the device of participant 2, under a chosen event id. -/
def chunk (epoch key eventId : Nat) : KeyHistoryChunk :=
  ⟨epoch, BitVec.ofNat 256 key, (distribution epoch key [2]).wrappedKeys, Bytes32.ofNat eventId⟩

/-- The next epoch's key. -/
def nextKey : Nat × SignedEvent := (10, distribute 2 6 [9])

theorem reachable_keyedRun (events : List (Nat × SignedEvent)) : Reachable (fun _ _ => True) (keyedRun events) := by
  have hopen : SyncEngine.openEngine .standard (some (devSeed 2)) (.openEmpty []) ⟨.empty, none, .empty, .empty⟩
      = .ok (keyedRun []) := rfl
  refine List.foldlRecOn (motive := Reachable fun _ _ => True) _ _ (.opened (fun _ => trivial) hopen) ?_
  intro e he f _
  exact .step he (.ingestFrame f) fun _ _ => trivial

/-- The stored distribution and the key ring of the room, evaluated in one go. -/
theorem keyedRoom_computed :
    ((keyedRun keyedRoom).store.event? (Bytes32.ofNat 9)).map ValidatedEvent.event = some (distribute 1 7 [3]) ∧
    KeyRing.unwrapLocal toyEnv plainSealing room (keyedRun keyedRoom).localDeviceSeed (distribution 1 7 [1, 2]) = some 7 ∧
    (keyedRun keyedRoom).keyRing.highestEpochSeen = 1 ∧ ((keyedRun keyedRoom).keyRing.slot 1).commitment ≠ none ∧
    (KeyRing.offer toyEnv plainSealing room (keyedRun keyedRoom).localDeviceSeed
      (chunk 1 7 9).distributionEventId (chunk 1 7 9).distribution).key = some 7 ∧
    ((keyedRun keyedRoom).keyRing.slot 1).best = some (Bytes32.ofNat 9, 7) := by
  decide +kernel

/-- The keys after a message of each kind, evaluated in one go. -/
theorem histories_computed :
    ((keyedRun keyedRoom).onMessage room (.keyHistory [])).keyRing.roomKeys.get 1 = some 7 ∧
    (((keyedRun keyedRoom).onMessage room (.keyHistory [])).ingestFrame (frame nextKey)).keyRing.roomKeys.get 2 = some 6 ∧
    (keyedRun keyedRoom).keyRing.roomKeys.get 1 = some 7 ∧
    ((keyedRun keyedRoom).onMessage room (.keyHistory [chunk 1 8 4])).keyRing.roomKeys.get 1 = some 8 ∧
    ((keyedRun keyedRoom).ingestFrame (frame nextKey)).keyRing.roomKeys.get 2 = some 6 ∧
    (((keyedRun keyedRoom).onMessage room (.keyHistory [chunk 5 8 4])).ingestFrame
      (frame nextKey)).keyRing.roomKeys.get 2 = none := by
  decide +kernel

theorem distributedKey_keyedRoom : (keyedRun keyedRoom).DistributedKey 1 7 := by
  obtain ⟨hstored, hunwrapped, -⟩ := keyedRoom_computed
  obtain ⟨v, hv, hevent⟩ := Option.map_eq_some_iff.mp hstored
  refine ⟨_, v, distribution 1 7 [1, 2], hv, ?_, rfl, hunwrapped⟩
  rw [hevent]
  rfl

theorem harmless_replay : (keyedRun keyedRoom).HarmlessHistory [chunk 1 7 9] := by
  obtain ⟨-, -, hhighest, hfirst, hkey, hbest⟩ := keyedRoom_computed
  unfold SyncEngine.HarmlessHistory KeyRing.Harmless
  dsimp only
  rw [hhighest, hkey]
  exact ⟨⟨le_rfl, fun hlt => absurd hlt (lt_irrefl 1), fun _ => ⟨hfirst, _, hbest, le_rfl⟩⟩, trivial⟩

end Toy

/-- The history that repeats the admin's own distribution changes nothing. -/
theorem keyHistory_keeps_keys_replay :
    ((Toy.keyedRun Toy.keyedRoom).onMessage Toy.room (.keyHistory [Toy.chunk 1 7 9])).keyRing.roomKeys.get 1 = some 7 ∧
    (((Toy.keyedRun Toy.keyedRoom).onMessage Toy.room (.keyHistory [Toy.chunk 1 7 9])).ingestFrame
      (Toy.frame Toy.nextKey)).keyRing.roomKeys.get 2 = some 6 := by
  obtain ⟨-, hlater⟩ := keyHistory_keeps_keys (Toy.reachable_keyedRun Toy.keyedRoom) Toy.harmless_replay
  obtain ⟨hheld, hgiven, -⟩ := Toy.histories_computed
  have hepoch : (Toy.keyedRun Toy.keyedRoom).keyRing.highestEpochSeen ≤ 2 := by
    rw [Toy.keyedRoom_computed.2.2.1]
    exact Nat.le_succ 1
  have hnow := hlater [] (by simp) 1 7 (Or.inr Toy.distributedKey_keyedRoom)
  have hnext := hlater [.ingestFrame (Toy.frame Toy.nextKey)]
    (fun input hinput => by rw [List.mem_singleton.mp hinput]; trivial) 2 6 (Or.inl hepoch)
  rw [List.foldl_nil, List.foldl_nil] at hnow
  rw [List.foldl_cons, List.foldl_nil, List.foldl_cons, List.foldl_nil, SyncEngine.step, SyncEngine.step] at hnext
  exact ⟨hnow hheld, hnext hgiven⟩

/-- A chunk under a made-up lower event id replaces the key the admin gave, and a chunk of a made-up epoch outdates
the next key that the admin gives. -/
theorem keyHistory_subverts_keys :
    Reachable (fun _ _ => True) (Toy.keyedRun Toy.keyedRoom) ∧ (Toy.keyedRun Toy.keyedRoom).DistributedKey 1 7 ∧
    (Toy.keyedRun Toy.keyedRoom).keyRing.roomKeys.get 1 = some 7 ∧
    ((Toy.keyedRun Toy.keyedRoom).onMessage Toy.room (.keyHistory [Toy.chunk 1 8 4])).keyRing.roomKeys.get 1 = some 8 ∧
    ((Toy.keyedRun Toy.keyedRoom).ingestFrame (Toy.frame Toy.nextKey)).keyRing.roomKeys.get 2 = some 6 ∧
    (((Toy.keyedRun Toy.keyedRoom).onMessage Toy.room (.keyHistory [Toy.chunk 5 8 4])).ingestFrame
      (Toy.frame Toy.nextKey)).keyRing.roomKeys.get 2 = none :=
  ⟨Toy.reachable_keyedRun _, Toy.distributedKey_keyedRoom, Toy.histories_computed.2.2⟩

end IrohRooms
