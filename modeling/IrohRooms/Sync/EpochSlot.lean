import IrohRooms.Sync.Keys

/-!
# One epoch of the key ring

Key adoption touches one epoch at a time, so a ring is a family of slots. `EpochSlot.adopt` is what a distribution
does to the slot of its epoch, and `slot_adoptKeyDistribution` says that the ring does just that. A slot is then
described by two values: the best key it was offered, and whether a conflict poisons it.
-/

namespace IrohRooms

/-- What a ring holds for one epoch. -/
@[ext] structure EpochSlot where
  state : Option EpochKeyState
  candidates : Option (List ConflictCandidate)
  commitment : Option (EventId × BitVec 256)

/-- What a distribution brings to its epoch on one device. -/
structure KeyOffer where
  eventId : EventId
  commitment : BitVec 256
  key : Option RoomKey

namespace EpochKeyStore

/-- The better of two unwrapped candidates. -/
def pick (best : Option (EventId × RoomKey)) (c : EventId × RoomKey) : EventId × RoomKey :=
  match best with
  | some b => if c.1 < b.1 then c else b
  | none => c

theorem winner_append_key (l : List ConflictCandidate) (id : EventId) (k : RoomKey) :
    winner (l ++ [⟨id, some k⟩]) = some (pick (winner l) (id, k)) := by
  unfold winner
  rw [List.filterMap_append, List.foldl_append]
  simp only [List.filterMap_cons, Option.map_some, List.filterMap_nil, List.foldl_cons, List.foldl_nil]
  cases List.foldl _ none (l.filterMap _) with
  | none => rfl
  | some b =>
    simp only [pick]
    split_ifs <;> rfl

/-- What the store holds for an epoch. -/
def view (ks : EpochKeyStore) (epoch : Nat) : Option EpochKeyState × Option (List ConflictCandidate) :=
  (ks.epochs.get? epoch, ks.candidates.get? epoch)

section Frame

variable (ks : EpochKeyStore) {epoch epoch' : Nat} (hne : epoch' ≠ epoch)
include hne

theorem view_setState_of_ne (st : EpochKeyState) : (ks.setState epoch st).view epoch' = ks.view epoch' := by
  simp [view, setState, OrdMap.get?_insert_of_ne _ _ hne]

theorem view_pushCandidate_of_ne (c : ConflictCandidate) :
    (ks.pushCandidate epoch c).view epoch' = ks.view epoch' := by
  simp [view, pushCandidate, OrdMap.get?_insert_of_ne _ _ hne]

theorem view_addConflictCandidate_of_ne (c : ConflictCandidate) :
    (ks.addConflictCandidate epoch c).view epoch' = ks.view epoch' := by
  unfold addConflictCandidate
  split_ifs
  · exact ks.view_pushCandidate_of_ne hne c
  · rfl

theorem view_insert_of_ne (key : RoomKey) (eventId : EventId) :
    (ks.insert epoch key eventId).1.view epoch' = ks.view epoch' := by
  unfold insert
  split
  · exact ks.view_setState_of_ne hne _
  · split_ifs
    · exact ks.view_setState_of_ne hne _
    · exact (view_pushCandidate_of_ne _ hne _).trans (ks.view_setState_of_ne hne _)
  · rfl

theorem view_resolve_of_ne : (ks.resolve epoch).view epoch' = ks.view epoch' := by
  have herase : ({ ks with candidates := ks.candidates.erase epoch } : EpochKeyStore).view epoch' = ks.view epoch' := by
    simp [view, OrdMap.get?_erase, hne]
  unfold resolve
  split_ifs
  · split
    · rfl
    · dsimp only
      split
      · exact (view_setState_of_ne _ hne _).trans herase
      · exact herase
  · rfl

end Frame

theorem winner_append_none (l : List ConflictCandidate) (id : EventId) : winner (l ++ [⟨id, none⟩]) = winner l := by
  simp [winner, List.filterMap_append]

end EpochKeyStore

namespace EpochSlot

open EpochKeyStore

def empty : EpochSlot := ⟨none, none, none⟩

/-- The offer's commitment differs from the one seen first. -/
def conflicts (s : EpochSlot) (o : KeyOffer) : Bool :=
  match s.commitment with
  | some first => first.2 != o.commitment
  | none => false

/-- The candidate a commitment conflict leaves behind. -/
def displaced (s : EpochSlot) : ConflictCandidate :=
  match s.state, s.commitment with
  | some (.key held source), _ => ⟨source, some held⟩
  | _, some first => ⟨first.1, none⟩
  | _, none => ⟨⟨0⟩, none⟩

/-- Resolve among the listed candidates. -/
def settle (commitment : Option (EventId × BitVec 256)) (l : List ConflictCandidate) : EpochSlot :=
  match winner l with
  | some w => ⟨some (.key w.2 w.1), none, commitment⟩
  | none => ⟨some .poisoned, none, commitment⟩

/-- What an offer does to the slot. -/
def adopt (s : EpochSlot) (o : KeyOffer) : EpochSlot :=
  let commitment := s.commitment.or (some (o.eventId, o.commitment))
  let listed := s.candidates.getD []
  if s.conflicts o then
    match o.key with
    | none => ⟨some .poisoned, some (listed ++ [s.displaced]), commitment⟩
    | some k => settle commitment (listed ++ [s.displaced] ++ [⟨o.eventId, some k⟩])
  else match o.key with
    | none => { s with commitment := commitment }
    | some k =>
      match s.state with
      | none => ⟨some (.key k o.eventId), s.candidates, commitment⟩
      | some (.key held source) =>
        if held = k then ⟨some (.key held (min source o.eventId)), s.candidates, commitment⟩
        else settle commitment (listed ++ [⟨source, some held⟩] ++ [⟨o.eventId, some k⟩])
      | some .poisoned => settle commitment (listed ++ [⟨o.eventId, some k⟩])

/-! ### The two values of a slot -/

/-- Only a poisoned epoch keeps candidates. -/
def Tidy (s : EpochSlot) : Prop := s.state ≠ some .poisoned → s.candidates = none

/-- The key the epoch holds or would resolve to. -/
def best (s : EpochSlot) : Option (EventId × RoomKey) :=
  match s.state with
  | none => none
  | some (.key k source) => some (source, k)
  | some .poisoned => winner (s.candidates.getD [])

theorem settle_key (commitment : Option (EventId × BitVec 256)) (l : List ConflictCandidate) (id : EventId)
    (k : RoomKey) : settle commitment (l ++ [⟨id, some k⟩]) =
      ⟨some (.key (pick (winner l) (id, k)).2 (pick (winner l) (id, k)).1), none, commitment⟩ := by
  rw [settle, winner_append_key]

/-- The displaced candidate stands for the best key so far. -/
theorem winner_displaced {s : EpochSlot} (h : s.Tidy) {first : EventId × BitVec 256}
    (hfirst : s.commitment = some first) : winner (s.candidates.getD [] ++ [s.displaced]) = s.best := by
  unfold displaced best
  rw [hfirst]
  cases hstate : s.state with
  | none =>
    have hnone : s.candidates = none := h (by simp [hstate])
    simp [hnone, winner]
  | some st =>
    cases st with
    | key held source =>
      have hnone : s.candidates = none := h (by simp [hstate])
      simp [hnone, winner]
    | poisoned => exact winner_append_none _ _

theorem commitment_of_conflicts {s : EpochSlot} {o : KeyOffer} (h : s.conflicts o = true) :
    ∃ first, s.commitment = some first := by
  unfold conflicts at h
  cases hfirst : s.commitment with
  | none => simp [hfirst] at h
  | some first => exact ⟨first, rfl⟩

/-- An offer, in terms of the two values. A key always takes part, and always ends a conflict. -/
theorem adopt_spec {s : EpochSlot} (h : s.Tidy) (o : KeyOffer) :
    (s.adopt o).Tidy ∧
    (s.adopt o).best = (match o.key with
      | none => s.best
      | some k => some (pick s.best (o.eventId, k))) ∧
    ((s.adopt o).state = some .poisoned ↔ o.key = none ∧ (s.conflicts o = true ∨ s.state = some .poisoned)) := by
  unfold adopt
  by_cases hconflict : s.conflicts o = true
  · obtain ⟨first, hfirst⟩ := commitment_of_conflicts hconflict
    have hbest := winner_displaced h hfirst
    rw [if_pos hconflict]
    cases hkey : o.key with
    | none =>
      refine ⟨fun hne => absurd rfl hne, hbest, ?_⟩
      simp [hconflict]
    | some k =>
      dsimp only
      rw [settle_key, hbest]
      exact ⟨fun _ => rfl, rfl, by simp⟩
  · rw [if_neg hconflict]
    cases hkey : o.key with
    | none => exact ⟨h, rfl, by simp [hconflict]⟩
    | some k =>
      cases hstate : s.state with
      | none =>
        refine ⟨fun _ => h (by simp [hstate]), ?_, by simp⟩
        simp [best, hstate, pick]
      | some st =>
        cases st with
        | key held source =>
          have hnone : s.candidates = none := h (by simp [hstate])
          have hbest : s.best = some (source, held) := by rw [best, hstate]
          dsimp only
          split_ifs with hsame
          · refine ⟨fun _ => hnone, ?_, by simp⟩
            rw [hbest, best, pick, hsame]
            dsimp only
            split_ifs with hlt
            · rw [min_eq_right hlt.le]
            · rw [min_eq_left (not_lt.mp hlt)]
          · rw [settle_key, hbest, hnone]
            exact ⟨fun _ => rfl, rfl, by simp⟩
        | poisoned =>
          have hbest : s.best = winner (s.candidates.getD []) := by rw [best, hstate]
          dsimp only
          rw [settle_key, hbest]
          exact ⟨fun _ => rfl, rfl, by simp⟩

theorem commitment_adopt (s : EpochSlot) (o : KeyOffer) :
    (s.adopt o).commitment = s.commitment.or (some (o.eventId, o.commitment)) := by
  have hsettle : ∀ (c : Option (EventId × BitVec 256)) (l : List ConflictCandidate), (settle c l).commitment = c := by
    intro c l
    unfold settle
    split <;> rfl
  unfold adopt
  dsimp only
  split_ifs
  all_goals split
  all_goals try split
  all_goals try split_ifs
  all_goals first | rfl | exact hsettle _ _

/-- A held key is the best one. -/
theorem best_of_held {s : EpochSlot} {k : RoomKey} {source : EventId} (h : s.state = some (.key k source)) :
    s.best = some (source, k) := by rw [best, h]

/-- An epoch that is not poisoned holds its best key. -/
theorem state_of_unpoisoned {s : EpochSlot} (h : s.state ≠ some .poisoned) :
    s.state = s.best.map fun w => .key w.2 w.1 := by
  unfold best
  cases hstate : s.state with
  | none => rfl
  | some st =>
    cases st with
    | key k source => rfl
    | poisoned => exact absurd hstate h

/-- The state is the two values. -/
theorem state_eq {s t : EpochSlot} (hbest : s.best = t.best)
    (hpoisoned : s.state = some .poisoned ↔ t.state = some .poisoned) : s.state = t.state := by
  by_cases hs : s.state = some .poisoned
  · rw [hs, hpoisoned.mp hs]
  · rw [state_of_unpoisoned hs, state_of_unpoisoned (mt hpoisoned.mpr hs), hbest]

end EpochSlot

namespace KeyRing

variable (env : Env) (sealing : Sealing) (room : RoomId) (seed : Option SigningKey)

def slot (ring : KeyRing) (epoch : Nat) : EpochSlot :=
  ⟨ring.roomKeys.epochs.get? epoch, ring.roomKeys.candidates.get? epoch, ring.epochCommitments.get? epoch⟩

theorem get_eq_some_iff {ring : KeyRing} {epoch : Nat} {k : RoomKey} :
    ring.roomKeys.get epoch = some k ↔ ∃ source, (ring.slot epoch).state = some (.key k source) := by
  unfold EpochKeyStore.get EpochKeyStore.getWithSource slot
  dsimp only
  split
  · rename_i held source hstate
    simp [hstate]
  · rename_i hnone
    constructor
    · intro h
      cases h
    · intro ⟨source, hstate⟩
      exact absurd hstate (hnone k source)

/-- What a distribution offers to the local device. -/
def offer (eventId : EventId) (d : MemberKeyDistribution) : KeyOffer :=
  ⟨eventId, d.keyCommitment, unwrapLocal env sealing room seed d⟩

theorem slot_resolve (ks : EpochKeyStore) (epoch : Nat) (commitments : OrdMap Nat (EventId × BitVec 256))
    (highest : Nat) (hpoisoned : ks.epochs.get? epoch = some .poisoned) {l : List ConflictCandidate}
    (hlisted : ks.candidates.get? epoch = some l) :
    (⟨ks.resolve epoch, commitments, highest⟩ : KeyRing).slot epoch = .settle (commitments.get? epoch) l := by
  have hflag : ks.isPoisoned epoch = true := by simp [EpochKeyStore.isPoisoned, hpoisoned]
  unfold EpochKeyStore.resolve slot EpochSlot.settle
  rw [if_pos hflag, hlisted]
  dsimp only
  cases hwinner : EpochKeyStore.winner l with
  | none => simp [OrdMap.get?_erase, hpoisoned]
  | some w => simp [EpochKeyStore.setState, OrdMap.get?_erase]

theorem slot_trackCommitment (ring : KeyRing) (eventId : EventId) (d : MemberKeyDistribution) :
    (ring.trackCommitment eventId d).2 = (ring.slot d.newEpoch).conflicts (offer env sealing room seed eventId d) ∧
    (ring.trackCommitment eventId d).1.slot d.newEpoch =
      ((ring.slot d.newEpoch).adopt ⟨eventId, d.keyCommitment, none⟩) := by
  unfold trackCommitment EpochSlot.adopt EpochSlot.conflicts EpochSlot.displaced slot offer
  dsimp only
  cases hfirst : ring.epochCommitments.get? d.newEpoch with
  | none => simp
  | some first =>
    dsimp only
    by_cases hsame : first.2 = d.keyCommitment
    · simp [hsame, hfirst]
    · rw [if_neg hsame, if_pos (by simpa using hsame)]
      refine ⟨by simpa using hsame, ?_⟩
      unfold EpochKeyStore.getWithSource EpochKeyStore.addConflictCandidate EpochKeyStore.pushCandidate
        EpochKeyStore.poison EpochKeyStore.setState EpochKeyStore.isPoisoned
      cases hstate : ring.roomKeys.epochs.get? d.newEpoch with
      | none => simp [hfirst]
      | some st => cases st <;> simp [hfirst]

theorem slot_eq_of_view {ring ring' : KeyRing} {epoch : Nat}
    (hview : ring'.roomKeys.view epoch = ring.roomKeys.view epoch)
    (hcommit : ring'.epochCommitments.get? epoch = ring.epochCommitments.get? epoch) :
    ring'.slot epoch = ring.slot epoch := by
  simp only [EpochKeyStore.view, Prod.mk.injEq] at hview
  simp [slot, hview.1, hview.2, hcommit]

theorem slot_trackCommitment_of_ne (ring : KeyRing) (eventId : EventId) (d : MemberKeyDistribution) {epoch : Nat}
    (hne : epoch ≠ d.newEpoch) : (ring.trackCommitment eventId d).1.slot epoch = ring.slot epoch := by
  unfold trackCommitment
  split
  · exact slot_eq_of_view rfl (OrdMap.get?_insert_of_ne _ _ hne)
  · split_ifs
    · rfl
    · refine slot_eq_of_view ?_ rfl
      exact (EpochKeyStore.view_addConflictCandidate_of_ne _ hne _).trans
        (EpochKeyStore.view_setState_of_ne _ hne _)

/-- Adoption of a distribution that is not ignored, by whether its key opens and its commitment conflicts. -/
theorem adoptKeyDistribution_eq (ring : KeyRing) (eventId : EventId) (d : MemberKeyDistribution)
    {allowBackward : Bool} (htaken : allowBackward = true ∨ ring.highestEpochSeen ≤ d.newEpoch) :
    ∃ raised : KeyRing, raised.highestEpochSeen = max ring.highestEpochSeen d.newEpoch ∧
      (∀ epoch, raised.slot epoch = ring.slot epoch) ∧
      ring.adoptKeyDistribution env sealing room seed eventId d allowBackward =
        let tracked := raised.trackCommitment eventId d
        match unwrapLocal env sealing room seed d with
        | none => tracked.1
        | some key =>
          let add := fun keys : EpochKeyStore => { tracked.1 with
            roomKeys := (keys.addConflictCandidate d.newEpoch ⟨eventId, some key⟩).resolve d.newEpoch }
          let offered := tracked.1.roomKeys.insert d.newEpoch key eventId
          if tracked.2 then add tracked.1.roomKeys
          else if offered.2 then { tracked.1 with roomKeys := offered.1 } else add offered.1 := by
  have hnotignored : ¬ (!allowBackward && decide (d.newEpoch < ring.highestEpochSeen)) = true := by
    rcases htaken with hallow | hle
    · simp [hallow]
    · simp [hle]
  refine ⟨{ ring with highestEpochSeen := max ring.highestEpochSeen d.newEpoch }, rfl, fun _ => rfl, ?_⟩
  unfold adoptKeyDistribution
  rw [if_neg hnotignored]
  cases hkey : unwrapLocal env sealing room seed d with
  | none => rfl
  | some key =>
    dsimp only
    generalize trackCommitment _ eventId d = tracked
    cases hconflict : tracked.2 with
    | true => rfl
    | false => rfl

theorem adoptKeyDistribution_ignored (ring : KeyRing) (eventId : EventId) (d : MemberKeyDistribution)
    (hlate : d.newEpoch < ring.highestEpochSeen) :
    ring.adoptKeyDistribution env sealing room seed eventId d false = ring := by
  rw [adoptKeyDistribution, if_pos (by simpa using hlate)]

theorem highestEpochSeen_adopt (ring : KeyRing) (eventId : EventId) (d : MemberKeyDistribution)
    {allowBackward : Bool} (htaken : allowBackward = true ∨ ring.highestEpochSeen ≤ d.newEpoch) :
    (ring.adoptKeyDistribution env sealing room seed eventId d allowBackward).highestEpochSeen =
      max ring.highestEpochSeen d.newEpoch := by
  obtain ⟨raised, hhighest, -, heq⟩ := adoptKeyDistribution_eq env sealing room seed ring eventId d htaken
  have htrack : (raised.trackCommitment eventId d).1.highestEpochSeen = raised.highestEpochSeen := by
    unfold trackCommitment
    split
    · rfl
    · split_ifs <;> rfl
  rw [heq, ← hhighest, ← htrack]
  dsimp only
  split
  · rfl
  · split_ifs <;> rfl

theorem slot_adopt_of_ne (ring : KeyRing) (eventId : EventId) (d : MemberKeyDistribution) {allowBackward : Bool}
    (htaken : allowBackward = true ∨ ring.highestEpochSeen ≤ d.newEpoch) {epoch : Nat} (hne : epoch ≠ d.newEpoch) :
    (ring.adoptKeyDistribution env sealing room seed eventId d allowBackward).slot epoch = ring.slot epoch := by
  obtain ⟨raised, -, hraised, heq⟩ :=
    adoptKeyDistribution_eq env sealing room seed ring eventId d htaken
  have htracked := slot_trackCommitment_of_ne raised eventId d hne
  rw [hraised] at htracked
  rw [heq, ← htracked]
  dsimp only
  split
  · rfl
  · split_ifs
    all_goals refine slot_eq_of_view ?_ rfl
    · exact (EpochKeyStore.view_resolve_of_ne _ hne).trans (EpochKeyStore.view_addConflictCandidate_of_ne _ hne _)
    · exact EpochKeyStore.view_insert_of_ne _ hne _ _
    · exact ((EpochKeyStore.view_resolve_of_ne _ hne).trans
        (EpochKeyStore.view_addConflictCandidate_of_ne _ hne _)).trans (EpochKeyStore.view_insert_of_ne _ hne _ _)

theorem slot_addConflictCandidate_resolve (ring : KeyRing) (epoch : Nat) (c : ConflictCandidate)
    (hpoisoned : (ring.slot epoch).state = some .poisoned) :
    ({ ring with roomKeys := (ring.roomKeys.addConflictCandidate epoch c).resolve epoch } : KeyRing).slot epoch =
      .settle (ring.slot epoch).commitment ((ring.slot epoch).candidates.getD [] ++ [c]) := by
  have hstate : ring.roomKeys.epochs.get? epoch = some .poisoned := hpoisoned
  have hflag : ring.roomKeys.isPoisoned epoch = true := by simp [EpochKeyStore.isPoisoned, hstate]
  have hpushed : ring.roomKeys.addConflictCandidate epoch c = ring.roomKeys.pushCandidate epoch c := by
    rw [EpochKeyStore.addConflictCandidate, if_pos hflag]
  rw [hpushed]
  exact slot_resolve (ring.roomKeys.pushCandidate epoch c) epoch _ _ hstate (OrdMap.get?_insert_self _ _ _)

/-- Offering a key without a commitment conflict. -/
theorem slot_insert (ring : KeyRing) (eventId : EventId) (epoch : Nat) (key : RoomKey) :
    (if (ring.roomKeys.insert epoch key eventId).2 then
        { ring with roomKeys := (ring.roomKeys.insert epoch key eventId).1 }
      else { ring with
        roomKeys := ((ring.roomKeys.insert epoch key eventId).1.addConflictCandidate epoch
          ⟨eventId, some key⟩).resolve epoch }).slot epoch =
      match (ring.slot epoch).state with
      | none => { ring.slot epoch with state := some (.key key eventId) }
      | some (.key held source) =>
        if held = key then { ring.slot epoch with state := some (.key held (min source eventId)) }
        else .settle (ring.slot epoch).commitment
          ((ring.slot epoch).candidates.getD [] ++ [⟨source, some held⟩] ++ [⟨eventId, some key⟩])
      | some .poisoned =>
        .settle (ring.slot epoch).commitment ((ring.slot epoch).candidates.getD [] ++ [⟨eventId, some key⟩]) := by
  have hstate : (ring.slot epoch).state = ring.roomKeys.epochs.get? epoch := rfl
  rw [hstate]
  generalize hresult : ring.roomKeys.insert epoch key eventId = result
  unfold EpochKeyStore.insert at hresult
  cases hst : ring.roomKeys.epochs.get? epoch with
  | none =>
    rw [hst] at hresult
    subst hresult
    simp [slot, EpochKeyStore.setState]
  | some st =>
    rw [hst] at hresult
    cases st with
    | key held source =>
      dsimp only at hresult ⊢
      by_cases hsame : held = key
      · rw [if_pos hsame] at hresult ⊢
        subst hresult
        simp [slot, EpochKeyStore.setState]
      · rw [if_neg hsame] at hresult ⊢
        subst hresult
        let poisonedRing : KeyRing :=
          { ring with roomKeys := (ring.roomKeys.setState epoch .poisoned).pushCandidate epoch ⟨source, some held⟩ }
        have hslot : poisonedRing.slot epoch = ⟨some .poisoned,
            some ((ring.slot epoch).candidates.getD [] ++ [⟨source, some held⟩]), (ring.slot epoch).commitment⟩ := by
          simp [poisonedRing, slot, EpochKeyStore.setState, EpochKeyStore.pushCandidate]
        exact (slot_addConflictCandidate_resolve poisonedRing epoch _ (by rw [hslot])).trans (by rw [hslot]; rfl)
    | poisoned =>
      subst hresult
      exact slot_addConflictCandidate_resolve ring epoch _ hst

/-- Adoption acts on the slot of the epoch alone, unless the epoch is behind the highest one seen. -/
theorem slot_adoptKeyDistribution (ring : KeyRing) (eventId : EventId) (d : MemberKeyDistribution)
    {allowBackward : Bool} (htaken : allowBackward = true ∨ ring.highestEpochSeen ≤ d.newEpoch) (epoch : Nat) :
    (ring.adoptKeyDistribution env sealing room seed eventId d allowBackward).slot epoch =
      if epoch = d.newEpoch then (ring.slot epoch).adopt (offer env sealing room seed eventId d)
      else ring.slot epoch := by
  split_ifs with hepoch
  swap
  · exact slot_adopt_of_ne env sealing room seed ring eventId d htaken hepoch
  subst hepoch
  obtain ⟨raised, -, hraised, heq⟩ :=
    adoptKeyDistribution_eq env sealing room seed ring eventId d htaken
  obtain ⟨hflag, htracked⟩ :=
    slot_trackCommitment env sealing room seed raised eventId d
  rw [hraised] at hflag htracked
  rw [heq]
  dsimp only
  cases hkey : unwrapLocal env sealing room seed d with
  | none =>
    refine htracked.trans ?_
    rw [offer, hkey]
  | some key =>
    rw [offer, hkey] at hflag ⊢
    dsimp only
    generalize raised.trackCommitment eventId d = tracked at hflag htracked ⊢
    cases hconflict : (ring.slot d.newEpoch).conflicts ⟨eventId, d.keyCommitment, some key⟩ with
    | true =>
      rw [hconflict] at hflag
      rw [if_pos hflag]
      have hconflict' : (ring.slot d.newEpoch).conflicts ⟨eventId, d.keyCommitment, none⟩ = true := hconflict
      rw [EpochSlot.adopt, hconflict', if_pos rfl] at htracked
      rw [slot_addConflictCandidate_resolve _ _ _ (by rw [htracked]), htracked, EpochSlot.adopt, hconflict,
        if_pos rfl]
      rfl
    | false =>
      rw [hconflict] at hflag
      rw [if_neg (by simp [hflag])]
      have hconflict' : (ring.slot d.newEpoch).conflicts ⟨eventId, d.keyCommitment, none⟩ = false := hconflict
      rw [EpochSlot.adopt, hconflict', if_neg Bool.false_ne_true] at htracked
      dsimp only at htracked
      rw [EpochSlot.adopt, hconflict, if_neg Bool.false_ne_true]
      refine (slot_insert tracked.1 eventId d.newEpoch key).trans ?_
      rw [htracked]

end KeyRing

end IrohRooms
