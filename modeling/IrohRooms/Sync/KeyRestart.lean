import Mathlib.Data.List.TakeWhile
import IrohRooms.Sync.KeyHistory
import IrohRooms.Sync.Restart

/-!
# Epoch keys across a restart

Of the key ring only the held keys are written down, one row an epoch in `room_keys`. The rows do not say which
commitment was seen first, which epoch is the highest, or that an epoch is poisoned, and a row stays when its epoch is
poisoned. Reopening therefore keeps the lookups when no poisoned epoch has a row and every held key has one, and keeps
what later distributions lead to only if none was adopted since the engine was opened (`reopened_keys`).
-/

namespace IrohRooms

/-- What is done to the keys: a distribution is adopted, or a key is offered locally. -/
inductive KeyOp
  | adopt (eventId : EventId) (d : MemberKeyDistribution) (allowBackward : Bool)
  | offer (epoch : Nat) (key : RoomKey)

/-- The rows of `room_keys`: the key of an epoch and the event it is attributed to. -/
abbrev KeyRows := OrdMap Nat (RoomKey × EventId)

/-- Upsert a row; an epoch beyond the range of an SQL integer is refused, and the refusal only logged. -/
def saveRoomKey (rows : KeyRows) (epoch : Nat) (key : RoomKey) (source : EventId) : KeyRows :=
  if epoch ≤ i64Max then rows.insert epoch (key, source) else rows

/-- Write the winner of a resolution, read back from the ring. -/
def persistResolvedRoomKey (rows : KeyRows) (ks : EpochKeyStore) (epoch : Nat) : KeyRows :=
  match ks.getWithSource epoch with
  | some w => saveRoomKey rows epoch w.1 w.2
  | none => rows

/-- The ring of an engine next to its rows. -/
structure KeyTable where
  ring : KeyRing
  rows : KeyRows

namespace KeyTable

variable (env : Env) (sealing : Sealing) (room : RoomId) (seed : Option SigningKey)

/-- The ring a row table is loaded into. -/
def restored (rows : KeyRows) : KeyRing :=
  { KeyRing.new with roomKeys := rows.entries.foldl (fun ks p => (ks.insert p.1 p.2.1 p.2.2).1) .empty }

/-- The rows after an adoption: a key that is taken is written under the event that offered it, and after a conflict
the winner is. A distribution that this device cannot unwrap writes nothing. -/
def persistAdoption (t : KeyTable) (eventId : EventId) (d : MemberKeyDistribution) (allowBackward : Bool) : KeyRows :=
  if !allowBackward && decide (d.newEpoch < t.ring.highestEpochSeen) then t.rows
  else
    let tracked := KeyRing.trackCommitment
      { t.ring with highestEpochSeen := max t.ring.highestEpochSeen d.newEpoch } eventId d
    match KeyRing.unwrapLocal env sealing room seed d with
    | none => t.rows
    | some key =>
      if !tracked.2 && (tracked.1.roomKeys.insert d.newEpoch key eventId).2 then
        saveRoomKey t.rows d.newEpoch key eventId
      else
        persistResolvedRoomKey t.rows
          (t.ring.adoptKeyDistribution env sealing room seed eventId d allowBackward).roomKeys d.newEpoch

/-- A local offer is attributed to the zero id, and written if it is taken. -/
def offerLocal (t : KeyTable) (epoch : Nat) (key : RoomKey) : KeyTable :=
  let offered := t.ring.roomKeys.insert epoch key ⟨0⟩
  ⟨{ t.ring with roomKeys := offered.1 }, if offered.2 then saveRoomKey t.rows epoch key ⟨0⟩ else t.rows⟩

def apply (t : KeyTable) : KeyOp → KeyTable
  | .adopt eventId d allowBackward =>
    ⟨t.ring.adoptKeyDistribution env sealing room seed eventId d allowBackward,
      t.persistAdoption env sealing room seed eventId d allowBackward⟩
  | .offer epoch key => t.offerLocal epoch key

def run (t : KeyTable) (ops : List KeyOp) : KeyTable := ops.foldl (apply env sealing room seed) t

/-! ### Loading the rows -/

theorem foldl_insert_absent {l : List (Nat × RoomKey × EventId)} (hl : l.Pairwise fun a b => a.1 < b.1)
    {ks : EpochKeyStore} (hks : ∀ p ∈ l, ks.epochs.get? p.1 = none) :
    let loaded := l.foldl (fun ks p => (ks.insert p.1 p.2.1 p.2.2).1) ks
    loaded.candidates = ks.candidates ∧
    ∀ epoch, loaded.epochs.get? epoch =
      ((l.lookup epoch).map fun row => .key row.1 row.2).or (ks.epochs.get? epoch) := by
  induction l generalizing ks with
  | nil => exact ⟨rfl, fun _ => rfl⟩
  | cons p l ih =>
    obtain ⟨hp, hrest⟩ := List.pairwise_cons.mp hl
    have habsent : ks.epochs.get? p.1 = none := hks p (by simp)
    have hinsert : (ks.insert p.1 p.2.1 p.2.2).1 = ks.setState p.1 (.key p.2.1 p.2.2) := by
      rw [EpochKeyStore.insert, habsent]
    have hlater : ∀ q ∈ l, (ks.setState p.1 (.key p.2.1 p.2.2)).epochs.get? q.1 = none := by
      intro q hq
      rw [EpochKeyStore.setState, OrdMap.get?_insert_of_ne _ _ (hp q hq).ne']
      exact hks q (by simp [hq])
    obtain ⟨hcandidates, hget⟩ := ih hrest hlater
    rw [List.foldl_cons, hinsert]
    refine ⟨hcandidates, fun epoch => ?_⟩
    rw [hget, EpochKeyStore.setState, OrdMap.get?_insert, OrdMap.lookup_cons_eq]
    by_cases hepoch : epoch = p.1
    · subst hepoch
      have hnone : l.lookup p.1 = none := by
        rw [List.lookup_eq_none_iff]
        intro q hq
        simpa using (hp q hq).ne
      simp [hnone]
    · simp [hepoch]

/-- A loaded ring holds the key of every row and nothing else. -/
theorem slot_restored (rows : KeyRows) (epoch : Nat) :
    (restored rows).slot epoch = ⟨(rows.get? epoch).map fun row => .key row.1 row.2, none, none⟩ := by
  obtain ⟨hcandidates, hget⟩ := @foldl_insert_absent _ rows.sorted .empty fun _ _ => rfl
  unfold restored KeyRing.slot
  dsimp only
  rw [hget, hcandidates]
  cases h : rows.entries.lookup epoch <;> simp [OrdMap.get?, h, EpochKeyStore.empty, KeyRing.new, OrdMap.empty]

/-! ### What holds along a run -/

theorem get?_saveRoomKey (rows : KeyRows) (epoch epoch' : Nat) (key : RoomKey) (source : EventId) :
    (saveRoomKey rows epoch key source).get? epoch' =
      if epoch' = epoch ∧ epoch ≤ i64Max then some (key, source) else rows.get? epoch' := by
  unfold saveRoomKey
  by_cases hfits : epoch ≤ i64Max
  · rw [if_pos hfits, OrdMap.get?_insert]
    simp [hfits]
  · rw [if_neg hfits, if_neg (fun h => hfits h.2)]

end KeyTable

theorem EpochKeyStore.insert_taken {ks : EpochKeyStore} {epoch : Nat} {key : RoomKey} {eventId : EventId}
    (h : (ks.insert epoch key eventId).2 = true) :
    ks.epochs.get? epoch = none ∨ ∃ source, ks.epochs.get? epoch = some (.key key source) := by
  unfold EpochKeyStore.insert at h
  split at h
  · exact Or.inl ‹_›
  · rename_i held source hstate
    split_ifs at h with hsame
    rw [hsame] at hstate
    exact Or.inr ⟨source, hstate⟩
  · cases h

namespace EpochSlot

/-- The key lookup. -/
def held (s : EpochSlot) : Option RoomKey :=
  match s.state with
  | some (.key k _) => some k
  | _ => none

theorem held_eq_some {s : EpochSlot} {k : RoomKey} : s.held = some k ↔ ∃ source, s.state = some (.key k source) := by
  unfold held
  split
  · rename_i k' source hstate
    simp [hstate]
  · rename_i hnone
    constructor
    · intro h
      cases h
    · intro ⟨source, hstate⟩
      exact absurd hstate (hnone k source)

theorem held_of_poisoned {s : EpochSlot} (h : s.state = some .poisoned) : s.held = none := by rw [held, h]

/-- A slot that holds a key is not poisoned and has it as its best one. -/
theorem held_of_best {s : EpochSlot} {w : EventId × RoomKey} (hbest : s.best = some w)
    (hfree : s.state ≠ some .poisoned) : s.held = some w.2 := by
  rw [held_eq_some]
  refine ⟨w.1, ?_⟩
  rw [state_of_unpoisoned hfree, hbest]
  rfl

/-- An offer without a key poisons the slot or leaves its state. -/
theorem adopt_locked {s : EpochSlot} (h : s.Tidy) {o : KeyOffer} (hkey : o.key = none) :
    (s.adopt o).state = some .poisoned ∨ (s.adopt o).state = s.state := by
  obtain ⟨-, hbest, hpoisoned⟩ := adopt_spec h o
  by_cases hbad : (s.adopt o).state = some .poisoned
  · exact Or.inl hbad
  · have hfree : s.state ≠ some .poisoned := fun hs => hbad (hpoisoned.mpr ⟨hkey, Or.inr hs⟩)
    rw [hkey] at hbest
    refine Or.inr ?_
    rw [state_of_unpoisoned hbad, state_of_unpoisoned hfree, hbest]

/-- An offer without a key that conflicts takes the key away. -/
theorem held_adopt_conflict {s : EpochSlot} (h : s.Tidy) {o : KeyOffer} (hkey : o.key = none)
    (hconflict : s.conflicts o = true) : (s.adopt o).held = none :=
  held_of_poisoned ((adopt_spec h o).2.2.mpr ⟨hkey, Or.inl hconflict⟩)

/-- Without a conflict it does not. -/
theorem held_adopt_agree {s : EpochSlot} (h : s.Tidy) {o : KeyOffer} (hkey : o.key = none)
    (hagree : s.conflicts o = false) {k : RoomKey} (hheld : s.held = some k) : (s.adopt o).held = some k := by
  obtain ⟨source, hstate⟩ := held_eq_some.mp hheld
  have hfree : (s.adopt o).state ≠ some .poisoned := by
    intro hbad
    rcases ((adopt_spec h o).2.2.mp hbad).2 with hconflict | hpoisoned
    · rw [hagree] at hconflict
      cases hconflict
    · rw [hstate] at hpoisoned
      cases hpoisoned
  have hsame := (adopt_locked h hkey).resolve_left hfree
  exact held_eq_some.mpr ⟨source, hsame.trans hstate⟩

/-- An offer with a key always leaves one. -/
theorem held_adopt_key {s : EpochSlot} (h : s.Tidy) {o : KeyOffer} {k : RoomKey} (hkey : o.key = some k) :
    (s.adopt o).held = some (EpochKeyStore.pick s.best (o.eventId, k)).2 := by
  obtain ⟨-, hbest, hpoisoned⟩ := adopt_spec h o
  rw [hkey] at hbest
  apply held_of_best hbest
  intro hbad
  rw [(hpoisoned.mp hbad).1] at hkey
  cases hkey

end EpochSlot

namespace KeyRing

theorem get_eq_held (ring : KeyRing) (epoch : Nat) : ring.roomKeys.get epoch = (ring.slot epoch).held := by
  apply Option.ext
  intro k
  rw [get_eq_some_iff, EpochSlot.held_eq_some]

theorem getWithSource_of_state {ring : KeyRing} {epoch : Nat} {k : RoomKey} {source : EventId}
    (h : (ring.slot epoch).state = some (.key k source)) : ring.roomKeys.getWithSource epoch = some (k, source) := by
  have hstate : ring.roomKeys.epochs.get? epoch = some (.key k source) := h
  rw [EpochKeyStore.getWithSource, hstate]

/-- A key that is taken after its commitment was noted meets an empty epoch, or itself. -/
theorem state_of_taken (env : Env) (sealing : Sealing) (room : RoomId) (seed : Option SigningKey) (ring : KeyRing)
    {eventId : EventId} {d : MemberKeyDistribution} {key : RoomKey} (htidy : (ring.slot d.newEpoch).Tidy)
    (h : ((ring.trackCommitment eventId d).1.roomKeys.insert d.newEpoch key eventId).2 = true) :
    (ring.slot d.newEpoch).state = none ∨ ∃ source, (ring.slot d.newEpoch).state = some (.key key source) := by
  have htracked := (slot_trackCommitment env sealing room seed ring eventId d).2
  have hstate : ((ring.trackCommitment eventId d).1.slot d.newEpoch).state = none ∨
      ∃ source, ((ring.trackCommitment eventId d).1.slot d.newEpoch).state = some (.key key source) :=
    EpochKeyStore.insert_taken h
  rw [htracked] at hstate
  rcases EpochSlot.adopt_locked htidy (o := ⟨eventId, d.keyCommitment, none⟩) rfl with hpoisoned | hsame
  · rw [hpoisoned] at hstate
    simp at hstate
  · rwa [hsame] at hstate

/-- No distribution was adopted since the ring was loaded. -/
def Fresh (ring : KeyRing) : Prop := ∀ epoch, (ring.slot epoch).commitment = none

end KeyRing

namespace KeyTable

variable {env : Env} {sealing : Sealing} {room : RoomId} {seed : Option SigningKey} {t : KeyTable}

/-- The tables an engine can have. A row is of an epoch in range that has been given its key. While no distribution is
adopted a row is what the ring holds, and a poisoned epoch still knows a key. -/
structure Sound (t : KeyTable) : Prop where
  tidy : t.ring.Tidy
  fits : ∀ epoch row, t.rows.get? epoch = some row → epoch ≤ i64Max
  recorded : ∀ epoch row, t.rows.get? epoch = some row →
    (t.ring.slot epoch).state = some .poisoned ∨ (t.ring.slot epoch).held = some row.1
  highest : (t.ring.slot t.ring.highestEpochSeen).commitment ≠ none ∨ t.ring.highestEpochSeen = 0 ∧ t.ring.Fresh
  verbatim : t.ring.Fresh → ∀ epoch row, t.rows.get? epoch = some row →
    (t.ring.slot epoch).state = some .poisoned ∨ (t.ring.slot epoch).state = some (.key row.1 row.2)
  known : t.ring.Fresh → ∀ epoch, (t.ring.slot epoch).state = some .poisoned → (t.ring.slot epoch).best ≠ none

theorem sound_restored {rows : KeyRows} (h : ∀ epoch row, rows.get? epoch = some row → epoch ≤ i64Max) :
    Sound ⟨restored rows, rows⟩ := by
  have hslot := slot_restored rows
  refine ⟨fun epoch _ => by rw [hslot], h, ?_, Or.inr ⟨rfl, fun epoch => by rw [hslot]⟩, ?_, ?_⟩
  · intro epoch row hrow
    refine Or.inr (EpochSlot.held_eq_some.mpr ⟨row.2, ?_⟩)
    rw [hslot, hrow]
    rfl
  · intro _ epoch row hrow
    refine Or.inr ?_
    rw [hslot, hrow]
    rfl
  · intro _ epoch hpoisoned
    rw [hslot] at hpoisoned
    cases hrow : rows.get? epoch <;> simp [hrow] at hpoisoned

section Adopt

variable (t) (eventId : EventId) (d : MemberKeyDistribution) {allowBackward : Bool}

/-- A distribution that does not open writes no row. -/
theorem persistAdoption_locked (hkey : KeyRing.unwrapLocal env sealing room seed d = none) :
    t.persistAdoption env sealing room seed eventId d allowBackward = t.rows := by
  unfold persistAdoption
  rw [hkey]
  split_ifs <;> rfl

/-- One that opens writes the key that the epoch then holds. -/
theorem persistAdoption_opened (htidy : t.ring.Tidy)
    (htaken : allowBackward = true ∨ t.ring.highestEpochSeen ≤ d.newEpoch) {key : RoomKey}
    (hkey : KeyRing.unwrapLocal env sealing room seed d = some key) : ∃ k source,
      ((t.ring.adoptKeyDistribution env sealing room seed eventId d allowBackward).slot d.newEpoch).held = some k ∧
      t.persistAdoption env sealing room seed eventId d allowBackward = saveRoomKey t.rows d.newEpoch k source := by
  have hnotignored : ¬ (!allowBackward && decide (d.newEpoch < t.ring.highestEpochSeen)) = true := by
    rcases htaken with hallow | hle
    · simp [hallow]
    · simp [hle]
  have hslot := KeyRing.slot_adoptKeyDistribution env sealing room seed t.ring eventId d htaken d.newEpoch
  rw [if_pos rfl] at hslot
  have hoffer : (KeyRing.offer env sealing room seed eventId d).key = some key := hkey
  have hheld := EpochSlot.held_adopt_key (htidy d.newEpoch) hoffer
  rw [← hslot] at hheld
  unfold persistAdoption
  rw [if_neg hnotignored, hkey]
  dsimp only
  split_ifs with hfree
  · -- the key was taken as it is, so the epoch had none or this one
    obtain ⟨-, hinsert⟩ := Bool.and_eq_true_iff.mp hfree
    have hpick : (EpochKeyStore.pick (t.ring.slot d.newEpoch).best (eventId, key)).2 = key := by
      have hstate : (t.ring.slot d.newEpoch).state = none ∨
          ∃ source, (t.ring.slot d.newEpoch).state = some (.key key source) :=
        KeyRing.state_of_taken env sealing room seed
          { t.ring with highestEpochSeen := max t.ring.highestEpochSeen d.newEpoch } (htidy d.newEpoch) hinsert
      rcases hstate with hnone | ⟨source, hsame⟩
      · have hbest : (t.ring.slot d.newEpoch).best = none := by rw [EpochSlot.best, hnone]
        rw [hbest, EpochKeyStore.pick]
      · rw [EpochSlot.best_of_held hsame]
        dsimp only [EpochKeyStore.pick]
        split_ifs <;> rfl
    exact ⟨key, eventId, hpick ▸ hheld, rfl⟩
  · obtain ⟨source, hstate⟩ := EpochSlot.held_eq_some.mp hheld
    refine ⟨_, source, hheld, ?_⟩
    have hresolved : EpochKeyStore.getWithSource _ _ = _ := KeyRing.getWithSource_of_state hstate
    rw [persistResolvedRoomKey, hresolved]

end Adopt

theorem Sound.adopt (h : Sound t) (eventId : EventId) (d : MemberKeyDistribution) (allowBackward : Bool) :
    Sound (t.apply env sealing room seed (.adopt eventId d allowBackward)) := by
  by_cases htaken : allowBackward = true ∨ t.ring.highestEpochSeen ≤ d.newEpoch
  swap
  · obtain ⟨hforward, hlate⟩ := not_or.mp htaken
    rw [Bool.not_eq_true] at hforward
    have hring := KeyRing.adoptKeyDistribution_ignored env sealing room seed t.ring eventId d (not_le.mp hlate)
    have hrows : t.persistAdoption env sealing room seed eventId d false = t.rows := by
      rw [persistAdoption, if_pos (by simpa using hlate)]
    rw [apply, hforward, hring, hrows]
    exact h
  have hslot := KeyRing.slot_adoptKeyDistribution env sealing room seed t.ring eventId d htaken
  have hhighest := KeyRing.highestEpochSeen_adopt env sealing room seed t.ring eventId d htaken
  have hnoted : ((t.ring.adoptKeyDistribution env sealing room seed eventId d allowBackward).slot
      d.newEpoch).commitment ≠ none := by
    rw [hslot, if_pos rfl, EpochSlot.commitment_adopt]
    cases (t.ring.slot d.newEpoch).commitment <;> simp
  have hstale : ¬ (t.ring.adoptKeyDistribution env sealing room seed eventId d allowBackward).Fresh :=
    fun hfresh => hnoted (hfresh _)
  refine ⟨h.tidy.adopt eventId d allowBackward, ?_, ?_, ?_, fun hfresh => absurd hfresh hstale,
    fun hfresh => absurd hfresh hstale⟩
  · intro epoch row hrow
    dsimp only [apply] at hrow
    cases hkey : KeyRing.unwrapLocal env sealing room seed d with
    | none =>
      rw [t.persistAdoption_locked eventId d hkey] at hrow
      exact h.fits epoch row hrow
    | some key =>
      obtain ⟨k, source, -, hrows⟩ := t.persistAdoption_opened eventId d h.tidy htaken hkey
      rw [hrows, get?_saveRoomKey] at hrow
      split_ifs at hrow with hthis
      · omega
      · exact h.fits epoch row hrow
  · intro epoch row hrow
    dsimp only [apply] at hrow ⊢
    cases hkey : KeyRing.unwrapLocal env sealing room seed d with
    | none =>
      rw [t.persistAdoption_locked eventId d hkey] at hrow
      rw [hslot]
      split_ifs with hepoch
      · rcases EpochSlot.adopt_locked (h.tidy epoch) (show (KeyRing.offer env sealing room seed eventId d).key = none
          from hkey) with hbad | hsame
        · exact Or.inl hbad
        · rw [EpochSlot.held, hsame]
          exact h.recorded epoch row hrow
      · exact h.recorded epoch row hrow
    | some key =>
      obtain ⟨k, source, hheld, hrows⟩ := t.persistAdoption_opened eventId d h.tidy htaken hkey
      rw [hrows, get?_saveRoomKey] at hrow
      by_cases hepoch : epoch = d.newEpoch
      · subst hepoch
        have hfits : d.newEpoch ≤ i64Max := by
          by_contra hlarge
          rw [if_neg (fun hboth => hlarge hboth.2)] at hrow
          exact hlarge (h.fits _ _ hrow)
        rw [if_pos ⟨rfl, hfits⟩] at hrow
        rw [← Option.some.inj hrow]
        exact Or.inr hheld
      · rw [if_neg (fun hboth => hepoch hboth.1)] at hrow
        rw [hslot, if_neg hepoch]
        exact h.recorded epoch row hrow
  · refine Or.inl ?_
    dsimp only [apply]
    rw [hhighest]
    rcases Nat.lt_or_ge d.newEpoch t.ring.highestEpochSeen with hlt | hge
    · rw [max_eq_left hlt.le, hslot, if_neg hlt.ne']
      exact h.highest.resolve_right fun ⟨hzero, _⟩ => by omega
    · rw [max_eq_right hge]
      exact hnoted

section Offer

variable (t) (epoch : Nat) (key : RoomKey)

theorem slot_offerLocal_of_ne {epoch' : Nat} (hne : epoch' ≠ epoch) :
    (t.offerLocal epoch key).ring.slot epoch' = t.ring.slot epoch' :=
  KeyRing.slot_eq_of_view (EpochKeyStore.view_insert_of_ne t.ring.roomKeys hne key ⟨0⟩) rfl

/-- A local offer is taken and written, or it leaves the epoch poisoned, with a known key if there was one. -/
theorem offerLocal_spec :
    (((t.offerLocal epoch key).ring.slot epoch).state = some (.key key ⟨0⟩) ∧
      (t.offerLocal epoch key).rows = saveRoomKey t.rows epoch key ⟨0⟩) ∨
    (((t.offerLocal epoch key).ring.slot epoch).state = some .poisoned ∧ (t.offerLocal epoch key).rows = t.rows ∧
      (((t.ring.slot epoch).state = some .poisoned → (t.ring.slot epoch).best ≠ none) →
        ((t.offerLocal epoch key).ring.slot epoch).best ≠ none)) := by
  have hzero : ∀ id : EventId, (⟨0#256⟩ : EventId) ≤ id := fun id => Nat.zero_le id.num
  unfold offerLocal
  dsimp only
  generalize hresult : t.ring.roomKeys.insert epoch key ⟨0⟩ = result
  unfold EpochKeyStore.insert at hresult
  cases hstate : t.ring.roomKeys.epochs.get? epoch with
  | none =>
    rw [hstate] at hresult
    subst hresult
    refine Or.inl ⟨?_, rfl⟩
    simp [KeyRing.slot, EpochKeyStore.setState]
  | some st =>
    rw [hstate] at hresult
    cases st with
    | key held source =>
      dsimp only at hresult
      split_ifs at hresult with hsame
      · subst hresult
        refine Or.inl ⟨?_, rfl⟩
        simp [KeyRing.slot, EpochKeyStore.setState, hzero, hsame]
      · subst hresult
        refine Or.inr ⟨?_, rfl, fun _ => ?_⟩
        · simp [KeyRing.slot, EpochKeyStore.setState, EpochKeyStore.pushCandidate]
        · simp [KeyRing.slot, EpochKeyStore.setState, EpochKeyStore.pushCandidate, EpochSlot.best,
            EpochKeyStore.winner_append_key]
    | poisoned =>
      subst hresult
      exact Or.inr ⟨hstate, rfl, fun hknown => hknown hstate⟩

/-- A row after a local offer is an old one, or the one just written. -/
theorem offerLocal_row (h : Sound t) {epoch' : Nat} {row : RoomKey × EventId}
    (hrow : (t.offerLocal epoch key).rows.get? epoch' = some row) :
    (epoch' = epoch ∧ epoch ≤ i64Max ∧ row = (key, ⟨0⟩) ∧
      ((t.offerLocal epoch key).ring.slot epoch').state = some (.key key ⟨0⟩)) ∨
    (t.rows.get? epoch' = some row ∧ (((t.offerLocal epoch key).ring.slot epoch').state = some .poisoned ∨
      (t.offerLocal epoch key).ring.slot epoch' = t.ring.slot epoch')) := by
  by_cases hepoch : epoch' = epoch
  swap
  · have hslot := t.slot_offerLocal_of_ne epoch key hepoch
    rcases t.offerLocal_spec epoch key with ⟨-, hrows⟩ | ⟨-, hrows, -⟩
    · rw [hrows, get?_saveRoomKey, if_neg (fun hboth => hepoch hboth.1)] at hrow
      exact Or.inr ⟨hrow, Or.inr hslot⟩
    · rw [hrows] at hrow
      exact Or.inr ⟨hrow, Or.inr hslot⟩
  subst hepoch
  rcases t.offerLocal_spec epoch' key with ⟨hstate, hrows⟩ | ⟨hstate, hrows, -⟩
  · rw [hrows, get?_saveRoomKey] at hrow
    split_ifs at hrow with hfits
    · exact Or.inl ⟨rfl, hfits.2, (Option.some.inj hrow).symm, hstate⟩
    · exact absurd ⟨rfl, h.fits _ _ hrow⟩ hfits
  · rw [hrows] at hrow
    exact Or.inr ⟨hrow, Or.inl hstate⟩

end Offer

theorem Sound.offerLocal (h : Sound t) (epoch : Nat) (key : RoomKey) : Sound (t.offerLocal epoch key) := by
  have hfresh : (t.offerLocal epoch key).ring.Fresh → t.ring.Fresh := id
  refine ⟨h.tidy.insert epoch key ⟨0⟩, ?_, ?_, h.highest, ?_, ?_⟩
  · intro epoch' row hrow
    rcases t.offerLocal_row epoch key h hrow with ⟨rfl, hfits, -⟩ | ⟨hold, -⟩
    · exact hfits
    · exact h.fits epoch' row hold
  · intro epoch' row hrow
    rcases t.offerLocal_row epoch key h hrow with ⟨-, -, rfl, hstate⟩ | ⟨hold, hstate | hslot⟩
    · exact Or.inr (EpochSlot.held_eq_some.mpr ⟨⟨0⟩, hstate⟩)
    · exact Or.inl hstate
    · rw [hslot]
      exact h.recorded epoch' row hold
  · intro hf epoch' row hrow
    rcases t.offerLocal_row epoch key h hrow with ⟨-, -, rfl, hstate⟩ | ⟨hold, hstate | hslot⟩
    · exact Or.inr hstate
    · exact Or.inl hstate
    · rw [hslot]
      exact h.verbatim (hfresh hf) epoch' row hold
  · intro hf epoch' hpoisoned
    by_cases hepoch : epoch' = epoch
    · subst hepoch
      rcases t.offerLocal_spec epoch' key with ⟨hstate, -⟩ | ⟨-, -, hbest⟩
      · rw [hpoisoned] at hstate
        cases hstate
      · exact hbest (h.known (hfresh hf) epoch')
    · rw [t.slot_offerLocal_of_ne epoch key hepoch] at hpoisoned ⊢
      exact h.known (hfresh hf) epoch' hpoisoned

/-- Every run keeps the table sound. -/
theorem Sound.run (h : Sound t) (ops : List KeyOp) : Sound (t.run env sealing room seed ops) := by
  refine List.foldlRecOn (motive := Sound) ops _ h ?_
  intro t ht op _
  cases op with
  | adopt eventId d allowBackward => exact ht.adopt eventId d allowBackward
  | offer epoch key => exact ht.offerLocal epoch key

/-! ### The keys after loading the rows -/

/-- Every held key has a row, and no poisoned epoch has one. -/
structure Recorded (t : KeyTable) : Prop where
  held : ∀ epoch k, t.ring.roomKeys.get epoch = some k → t.rows.get? epoch ≠ none
  poisoned : ∀ epoch, t.ring.roomKeys.isPoisoned epoch = true → t.rows.get? epoch = none

/-- No distribution was adopted, no epoch is poisoned and every held key has a row. -/
structure Durable (t : KeyTable) : Prop where
  fresh : t.ring.Fresh
  unpoisoned : ∀ epoch, t.ring.roomKeys.isPoisoned epoch = false
  held : ∀ epoch k, t.ring.roomKeys.get epoch = some k → t.rows.get? epoch ≠ none

theorem isPoisoned_iff {ring : KeyRing} {epoch : Nat} :
    ring.roomKeys.isPoisoned epoch = true ↔ (ring.slot epoch).state = some .poisoned := by
  simp [EpochKeyStore.isPoisoned, KeyRing.slot]

theorem get_restored (rows : KeyRows) (epoch : Nat) :
    (restored rows).roomKeys.get epoch = (rows.get? epoch).map Prod.fst := by
  rw [KeyRing.get_eq_held, slot_restored]
  cases rows.get? epoch <;> rfl

/-- The lookups do not change exactly if the rows are in step with the ring. -/
theorem Sound.lookups_iff (h : Sound t) :
    (∀ epoch, (restored t.rows).roomKeys.get epoch = t.ring.roomKeys.get epoch) ↔ Recorded t := by
  constructor
  · intro hsame
    refine ⟨fun epoch k hk hnone => ?_, fun epoch hpoisoned => ?_⟩
    · have := hsame epoch
      rw [get_restored, hnone, hk] at this
      cases this
    · have := hsame epoch
      rw [get_restored, EpochKeyStore.get_eq_none_of_isPoisoned hpoisoned] at this
      exact Option.map_eq_none_iff.mp this
  · intro hrecorded epoch
    rw [get_restored]
    cases hrow : t.rows.get? epoch with
    | none =>
      cases hk : t.ring.roomKeys.get epoch with
      | none => rfl
      | some k => exact absurd hrow (hrecorded.held epoch k hk)
    | some row =>
      rcases h.recorded epoch row hrow with hpoisoned | hheld
      · rw [hrecorded.poisoned epoch (isPoisoned_iff.mpr hpoisoned)] at hrow
        cases hrow
      · rw [KeyRing.get_eq_held, hheld]
        rfl

/-- A durable table is loaded as it was. -/
theorem Durable.slot_eq (hd : Durable t) (h : Sound t) (epoch : Nat) :
    (restored t.rows).slot epoch = t.ring.slot epoch := by
  have hfree : (t.ring.slot epoch).state ≠ some .poisoned := by
    intro hpoisoned
    have := hd.unpoisoned epoch
    rw [isPoisoned_iff.mpr hpoisoned] at this
    cases this
  rw [slot_restored]
  ext1
  · dsimp only
    cases hrow : t.rows.get? epoch with
    | some row => exact ((h.verbatim hd.fresh epoch row hrow).resolve_left hfree).symm
    | none =>
      rw [EpochSlot.state_of_unpoisoned hfree]
      cases hbest : (t.ring.slot epoch).best with
      | none => rfl
      | some w =>
        have hheld := EpochSlot.held_of_best hbest hfree
        rw [← KeyRing.get_eq_held] at hheld
        exact absurd hrow (hd.held epoch w.2 hheld)
  · exact (h.tidy epoch hfree).symm
  · exact (hd.fresh epoch).symm

/-- Whatever distributions follow, a durable table is in the same state with and without loading. -/
theorem Durable.slot_run_eq (hd : Durable t) (h : Sound t) (events : List (EventId × Content)) (epoch : Nat) :
    ((restored t.rows).run env sealing room seed events).slot epoch =
      (t.ring.run env sealing room seed events).slot epoch := by
  have hzero : t.ring.highestEpochSeen = 0 := by
    rcases h.highest with hnoted | ⟨hzero, -⟩
    · exact absurd (hd.fresh _) hnoted
    · exact hzero
  rw [KeyRing.slot_run env sealing room seed (Nat.zero_le epoch), hd.slot_eq h,
    KeyRing.slot_run env sealing room seed (by omega)]

/-! ### What the rows do not keep -/

/-- The events that distribute keys in the given order. -/
def distributed (l : List (EventId × MemberKeyDistribution)) : List (EventId × Content) :=
  l.map fun p => (p.1, .memberKeyDistribution p.2)

theorem slot_run_distributed {ring : KeyRing} {epoch : Nat} (h : ring.highestEpochSeen ≤ epoch)
    {l : List (EventId × MemberKeyDistribution)} (hl : ∀ p ∈ l, p.2.newEpoch = epoch) :
    (ring.run env sealing room seed (distributed l)).slot epoch =
      (l.map fun p => KeyRing.offer env sealing room seed p.1 p.2).foldl .adopt (ring.slot epoch) := by
  have hall : KeyRing.distributions (distributed l) = l := by
    simp [KeyRing.distributions, distributed, List.filterMap_map, KeyRing.distributionOf]
  have htaken : KeyRing.taken epoch (distributed l) = l := by
    rw [KeyRing.taken, hall, List.takeWhile_eq_self_iff.mpr, List.filter_eq_self.mpr]
    · intro p hp
      simpa using hl p hp
    · intro p hp
      simpa using (hl p hp).le
  rw [KeyRing.slot_run env sealing room seed h, htaken]

end KeyTable

/-- What wrapping provides: any key can be wrapped for a device, and a commitment does not stand for all keys. -/
structure Sealing.Wraps (sealing : Sealing) (room : RoomId) (seed : SigningKey) : Prop where
  opens : ∀ epoch key, ∃ entry, sealing.unwrapRoomKey entry seed room epoch = some key
  binds : ∀ epoch, ∃ k k', sealing.roomKeyCommitment k room epoch ≠ sealing.roomKeyCommitment k' room epoch

namespace KeyTable

section Lost

variable {device : SigningKey}

/-- A key other than a given one by its commitment, with a distribution that gives it to the device. -/
theorem exists_opened (env : Env) (hw : sealing.Wraps room device) (epoch : Nat) (commitment : BitVec 256) :
    ∃ k d, d.newEpoch = epoch ∧ d.keyCommitment = sealing.roomKeyCommitment k room epoch ∧
      d.keyCommitment ≠ commitment ∧ KeyRing.unwrapLocal env sealing room (some device) d = some k := by
  obtain ⟨k, k', hne⟩ := hw.binds epoch
  obtain ⟨other, hother⟩ : ∃ other, sealing.roomKeyCommitment other room epoch ≠ commitment := by
    by_cases hk : sealing.roomKeyCommitment k room epoch = commitment
    · exact ⟨k', fun hk' => hne (hk.trans hk'.symm)⟩
    · exact ⟨k, hk⟩
  obtain ⟨entry, hentry⟩ := hw.opens epoch other
  refine ⟨other, ⟨epoch, sealing.roomKeyCommitment other room epoch, [(env.deviceKey device, entry)]⟩, rfl, rfl,
    hother, ?_⟩
  simp [KeyRing.unwrapLocal, hentry]

/-- A distribution to nobody opens for nobody. -/
theorem offer_nobody (eventId : EventId) (epoch : Nat) (commitment : BitVec 256) :
    (KeyRing.offer env sealing room seed eventId ⟨epoch, commitment, []⟩).key = none := by
  cases seed <;> rfl

/-- Once a commitment was noted, some further distributions tell the ring and the loaded one apart. -/
theorem Sound.fresh_of_survives (h : Sound t) (hw : sealing.Wraps room device)
    (hsame : ∀ events epoch, ((restored t.rows).run env sealing room (some device) events).roomKeys.get epoch =
      (t.ring.run env sealing room (some device) events).roomKeys.get epoch) : t.ring.Fresh := by
  rcases h.highest with hnoted | ⟨-, hfresh⟩
  swap
  · exact hfresh
  exfalso
  let epoch := t.ring.highestEpochSeen
  obtain ⟨first, hfirst⟩ := Option.ne_none_iff_exists'.mp hnoted
  have hapart : ∀ l : List (EventId × MemberKeyDistribution), (∀ p ∈ l, p.2.newEpoch = epoch) →
      ((l.map fun p => KeyRing.offer env sealing room (some device) p.1 p.2).foldl .adopt
        ((restored t.rows).slot epoch)).held =
      ((l.map fun p => KeyRing.offer env sealing room (some device) p.1 p.2).foldl .adopt
        (t.ring.slot epoch)).held := by
    intro l hl
    have := hsame (distributed l) epoch
    rwa [KeyRing.get_eq_held, KeyRing.get_eq_held, slot_run_distributed (Nat.zero_le epoch) hl,
      slot_run_distributed le_rfl hl] at this
  have htidy : ((restored t.rows).slot epoch).Tidy := by
    rw [slot_restored]
    exact fun _ => rfl
  have hnow := hapart [] (by simp)
  cases hk : (t.ring.slot epoch).held with
  | some k =>
    -- another commitment without a key poisons the epoch, but is the first one after loading
    let other : MemberKeyDistribution := ⟨epoch, ~~~first.2, []⟩
    have hkey : (KeyRing.offer env sealing room (some device) ⟨0⟩ other).key = none := offer_nobody _ _ _
    have hconflict : (t.ring.slot epoch).conflicts (KeyRing.offer env sealing room (some device) ⟨0⟩ other) = true := by
      rw [EpochSlot.conflicts, hfirst]
      simp [KeyRing.offer, other]
    have hagree : ((restored t.rows).slot epoch).conflicts
        (KeyRing.offer env sealing room (some device) ⟨0⟩ other) = false := by
      rw [slot_restored]
      rfl
    have hlater := hapart [(⟨0⟩, other)] (by simp [other])
    rw [List.map_singleton, List.foldl_cons, List.foldl_nil, List.foldl_cons, List.foldl_nil,
      EpochSlot.held_adopt_conflict (h.tidy epoch) hkey hconflict,
      EpochSlot.held_adopt_agree htidy hkey hagree (hnow.trans hk)] at hlater
    cases hlater
  | none =>
    -- a key that both adopt is attested by its own commitment only after loading
    obtain ⟨k, d, hepoch, -, hdiffers, hopens⟩ := exists_opened env hw epoch first.2
    let again : MemberKeyDistribution := ⟨epoch, d.keyCommitment, []⟩
    have hkey : (KeyRing.offer env sealing room (some device) ⟨0⟩ d).key = some k := hopens
    have hagain : (KeyRing.offer env sealing room (some device) ⟨0⟩ again).key = none := offer_nobody _ _ _
    have hempty : (restored t.rows).slot epoch = .empty := by
      rw [slot_restored] at hnow ⊢
      cases hrow : t.rows.get? epoch with
      | none => rfl
      | some row =>
        rw [hrow] at hnow
        exact absurd (hnow.trans hk) (by simp [EpochSlot.held])
    have hlater := hapart [(⟨0⟩, d), (⟨0⟩, again)] (by simp [again, hepoch])
    simp only [List.map_cons, List.map_nil, List.foldl_cons, List.foldl_nil] at hlater
    rw [EpochSlot.held_adopt_conflict (EpochSlot.adopt_spec (h.tidy epoch) _).1 hagain ?_,
      EpochSlot.held_adopt_agree (EpochSlot.adopt_spec htidy _).1 hagain ?_
        (EpochSlot.held_adopt_key htidy hkey)] at hlater
    · cases hlater
    · rw [hempty, EpochSlot.conflicts, EpochSlot.commitment_adopt]
      simp [EpochSlot.empty, KeyRing.offer, again]
    · rw [EpochSlot.conflicts, EpochSlot.commitment_adopt, hfirst]
      simpa [KeyRing.offer, again] using hdiffers.symm

/-- Only a durable table survives whatever distributions follow. -/
theorem Sound.durable_of_survives (h : Sound t) (hw : sealing.Wraps room device)
    (hsame : ∀ events epoch, ((restored t.rows).run env sealing room (some device) events).roomKeys.get epoch =
      (t.ring.run env sealing room (some device) events).roomKeys.get epoch) : Durable t := by
  have hfresh := h.fresh_of_survives hw hsame
  have hrecorded := h.lookups_iff.mp (hsame [])
  refine ⟨hfresh, fun epoch => ?_, hrecorded.held⟩
  by_contra hpoisoned
  rw [Bool.not_eq_false] at hpoisoned
  have hrow := hrecorded.poisoned epoch hpoisoned
  obtain ⟨w, hw'⟩ := Option.ne_none_iff_exists'.mp (h.known hfresh epoch (isPoisoned_iff.mp hpoisoned))
  -- a new key comes second to the known one, which the rows have lost
  obtain ⟨k, d, hepoch, hcommitment, hdiffers, hopens⟩ :=
    exists_opened env hw epoch (sealing.roomKeyCommitment w.2 room epoch)
  have hkey : (KeyRing.offer env sealing room (some device) w.1 d).key = some k := hopens
  have hzero : t.ring.highestEpochSeen ≤ epoch := by
    rcases h.highest with hnoted | ⟨hzero, -⟩
    · exact absurd (hfresh _) hnoted
    · omega
  have hd : ∀ p ∈ [(w.1, d)], p.2.newEpoch = epoch := by simpa using hepoch
  have hempty : (restored t.rows).slot epoch = .empty := by
    rw [slot_restored, hrow]
    rfl
  have hlater := hsame (distributed [(w.1, d)]) epoch
  rw [KeyRing.get_eq_held, KeyRing.get_eq_held, slot_run_distributed (Nat.zero_le epoch) hd,
    slot_run_distributed hzero hd, List.map_singleton, List.foldl_cons, List.foldl_nil, List.foldl_cons,
    List.foldl_nil, EpochSlot.held_adopt_key (h.tidy epoch) hkey, hempty,
    EpochSlot.held_adopt_key (fun _ => rfl) hkey, hw'] at hlater
  have hsecond : (EpochKeyStore.pick (some w) (w.1, k)).2 = w.2 := by
    rw [EpochKeyStore.pick]
    exact congrArg Prod.snd (if_neg (lt_irrefl w.1))
  have hkw : k = w.2 := (Option.some.inj hlater).trans hsecond
  rw [hcommitment, hkw] at hdiffers
  exact hdiffers rfl

end Lost

end KeyTable

/-! ### The engine -/

section Engine

variable {env : Env} {sealing : Sealing} {room : RoomId}

/-- The key an operation offers locally. -/
def KeyOp.offered : KeyOp → Option (Nat × RoomKey)
  | .offer epoch key => some (epoch, key)
  | .adopt _ _ _ => none

/-- The key a call offers locally. -/
def SyncEngine.Input.offered : SyncEngine.Input → List (Nat × RoomKey)
  | .insertRoomKey epoch key => [(epoch, key)]
  | _ => []

/-- The operations can be those of the call: they make the ring what the call makes it, and what they offer locally
is what the call offers. -/
structure KeyCall (e : SyncEngine env sealing room) (rows : KeyRows) (input : SyncEngine.Input) (ops : List KeyOp) :
    Prop where
  ring : (KeyTable.run env sealing room e.localDeviceSeed ⟨e.keyRing, rows⟩ ops).ring = (e.step input).keyRing
  offered : ops.filterMap KeyOp.offered = input.offered

/-- An engine with the rows it has written by then. -/
inductive Tabled : SyncEngine env sealing room → KeyRows → Prop
  | opened {config : SyncConfig} {seed : Option SigningKey} {store : EventStore env room} {tables : SyncTables env room}
      {e : SyncEngine env sealing room}
      (hfits : ∀ epoch row, tables.roomKeys.get? epoch = some row → epoch ≤ i64Max)
      (hopen : SyncEngine.openEngine config seed store tables = .ok e) : Tabled e tables.roomKeys
  | step {e : SyncEngine env sealing room} {rows : KeyRows} {input : SyncEngine.Input} {ops : List KeyOp}
      (h : Tabled e rows) (hcall : KeyCall e rows input ops) :
      Tabled (e.step input) (KeyTable.run env sealing room e.localDeviceSeed ⟨e.keyRing, rows⟩ ops).rows

namespace SyncEngine

section Grows

variable (env sealing room)

/-- Adoptions make this ring of the table. -/
def Grows (t : KeyTable) (seed : Option SigningKey) (r : KeyRing) : Prop :=
  ∃ ops, ops.filterMap KeyOp.offered = [] ∧ (t.run env sealing room seed ops).ring = r

end Grows

theorem Grows.adopt {t : KeyTable} {seed : Option SigningKey} {r : KeyRing} (h : Grows env sealing room t seed r)
    (id : EventId) (d : MemberKeyDistribution) (allowBackward : Bool) :
    Grows env sealing room t seed (r.adoptKeyDistribution env sealing room seed id d allowBackward) := by
  obtain ⟨ops, hoffered, rfl⟩ := h
  refine ⟨ops ++ [.adopt id d allowBackward], ?_, ?_⟩
  · rw [List.filterMap_append, hoffered]
    rfl
  · rw [KeyTable.run, List.foldl_append]
    rfl

/-- The rings that adoptions make of a table. -/
def adopting (t : KeyTable) (seed : Option SigningKey) : RingRelation env sealing room where
  seed := seed
  Rel r _ := Grows env sealing room t seed r
  adopt id content h := by
    unfold KeyRing.adoptKeyFromEvent
    split
    · exact h.adopt id _ false
    · exact h

theorem adoptKeyHistory_grows {t : KeyTable} {seed : Option SigningKey} (e : SyncEngine env sealing room)
    (chunks : List KeyHistoryChunk) (hseed : e.localDeviceSeed = seed) (h : Grows env sealing room t seed e.keyRing) :
    (chunks.foldl adoptKeyHistoryChunk e).localDeviceSeed = seed ∧
      Grows env sealing room t seed (chunks.foldl adoptKeyHistoryChunk e).keyRing := by
  subst hseed
  refine List.foldlRecOn (motive := fun e' : SyncEngine env sealing room => e'.localDeviceSeed = e.localDeviceSeed ∧
    Grows env sealing room t e.localDeviceSeed e'.keyRing) chunks _ ⟨rfl, h⟩ ?_
  intro e' ⟨hseed, hgrows⟩ c _
  refine ⟨hseed, ?_⟩
  rw [adoptKeyHistoryChunk, hseed]
  exact hgrows.adopt c.distributionEventId _ true

/-- Every call has operations. -/
theorem exists_keyCall (e : SyncEngine env sealing room) (rows : KeyRows) (input : Input) :
    ∃ ops, KeyCall e rows input ops := by
  have hself : Grows env sealing room ⟨e.keyRing, rows⟩ e.localDeviceSeed e.keyRing := ⟨[], rfl, rfl⟩
  have hquiet : input.LeavesKeys → ∃ ops, KeyCall e rows input ops := by
    intro hleaves
    have hkept : Kept (adopting ⟨e.keyRing, rows⟩ e.localDeviceSeed) e e e := .refl rfl hself
    obtain ⟨ops, hoffered, hring⟩ := (hkept.step hleaves).ring
    refine ⟨ops, hring, ?_⟩
    rw [hoffered]
    cases input with
    | insertRoomKey epoch key => exact hleaves.elim
    | _ => rfl
  cases input with
  | onMessage msgRoom msg =>
    cases msg with
    | keyHistory chunks =>
      by_cases hroom : msgRoom = room
      swap
      · refine ⟨[], ?_, rfl⟩
        rw [step, onMessage, if_pos hroom]
        rfl
      have hadopted := e.adoptKeyHistory_grows chunks rfl hself
      have hkept : Kept (adopting ⟨e.keyRing, rows⟩ e.localDeviceSeed) _ _ (chunks.foldl adoptKeyHistoryChunk e) :=
        .refl hadopted.1 hadopted.2
      obtain ⟨ops, hoffered, hring⟩ := hkept.finalizeDelivery.ring
      refine ⟨ops, ?_, hoffered⟩
      rw [hring, step, onMessage, if_neg (not_not.mpr hroom)]
    | _ => exact hquiet trivial
  | insertRoomKey epoch key => exact ⟨[.offer epoch key], rfl, rfl⟩
  | _ => exact hquiet trivial

end SyncEngine

/-- The rows go along with any run. -/
theorem Tabled.steps {e : SyncEngine env sealing room} {rows : KeyRows} (h : Tabled e rows)
    (inputs : List SyncEngine.Input) : ∃ rows', Tabled (inputs.foldl SyncEngine.step e) rows' := by
  induction inputs generalizing e rows with
  | nil => exact ⟨rows, h⟩
  | cons input inputs ih =>
    obtain ⟨ops, hcall⟩ := e.exists_keyCall rows input
    exact ih (h.step hcall)

theorem SyncEngine.keyRing_opened {config : SyncConfig} {seed : Option SigningKey} {store : EventStore env room}
    {tables : SyncTables env room} {e : SyncEngine env sealing room}
    (hopen : SyncEngine.openEngine config seed store tables = .ok e) :
    e.keyRing = KeyTable.restored tables.roomKeys := by
  rw [SyncEngine.openEngine_ok hopen]
  rfl

theorem Tabled.sound {e : SyncEngine env sealing room} {rows : KeyRows} (h : Tabled e rows) :
    KeyTable.Sound ⟨e.keyRing, rows⟩ := by
  induction h with
  | opened hfits hopen =>
    rw [SyncEngine.keyRing_opened hopen]
    exact KeyTable.sound_restored hfits
  | step _ hcall ih =>
    rw [← hcall.ring]
    exact ih.run _

/-- Reopening an engine over its rows. The lookups are the same exactly if every held key has a row and no poisoned
epoch has one. They stay the same after whatever distributions are accepted later if no distribution was adopted before,
no epoch is poisoned and every held key has a row, and only then. -/
theorem reopened_keys {e e' : SyncEngine env sealing room} {rows : KeyRows} (h : Tabled e rows) {device : SigningKey}
    (hseed : e.localDeviceSeed = some device) {config : SyncConfig} {store : EventStore env room}
    {tables : SyncTables env room} (hrows : tables.roomKeys = rows)
    (hopen : SyncEngine.openEngine config (some device) store tables = .ok e') :
    ((∀ epoch, e'.keyRing.roomKeys.get epoch = e.keyRing.roomKeys.get epoch) ↔
      KeyTable.Recorded ⟨e.keyRing, rows⟩) ∧
    (KeyTable.Durable ⟨e.keyRing, rows⟩ → ∀ events epoch,
      (e'.keyRing.run env sealing room e'.localDeviceSeed events).slot epoch =
        (e.keyRing.run env sealing room e.localDeviceSeed events).slot epoch) ∧
    (sealing.Wraps room device → (∀ events epoch,
      (e'.keyRing.run env sealing room e'.localDeviceSeed events).roomKeys.get epoch =
        (e.keyRing.run env sealing room e.localDeviceSeed events).roomKeys.get epoch) →
      KeyTable.Durable ⟨e.keyRing, rows⟩) := by
  have hring := SyncEngine.keyRing_opened hopen
  have hseed' : e'.localDeviceSeed = some device := by
    rw [SyncEngine.openEngine_ok hopen]
    rfl
  rw [hring, hrows, hseed, hseed']
  exact ⟨h.sound.lookups_iff, fun hd events epoch => hd.slot_run_eq h.sound events epoch,
    fun hw hsame => h.sound.durable_of_survives hw hsame⟩

end Engine

/-! ### The worked room -/

theorem KeyRing.eq_of_parts {r r' : KeyRing} (h : r.roomKeys.epochs = r'.roomKeys.epochs ∧
    r.roomKeys.candidates = r'.roomKeys.candidates ∧ r.epochCommitments = r'.epochCommitments ∧
    r.highestEpochSeen = r'.highestEpochSeen) : r = r' := by
  obtain ⟨⟨epochs, candidates⟩, commitments, highest⟩ := r
  simp_all

namespace Toy

/-- The tables of the worked room with these rows of keys. -/
def keyTables (rows : KeyRows) : SyncTables toyEnv room := ⟨.empty, none, .empty, rows⟩

/-- The engine of participant 2 over a store and rows of keys. -/
def keyOpened (store : EventStore toyEnv room) (rows : KeyRows) : SyncEngine toyEnv plainSealing room :=
  .restore .standard (some (devSeed 2)) store (keyTables rows)

theorem openEngine_keyOpened (store : EventStore toyEnv room) (rows : KeyRows) :
    SyncEngine.openEngine .standard (some (devSeed 2)) store (keyTables rows) = .ok (keyOpened store rows) := rfl

theorem tabled_keyOpened : Tabled (keyOpened (.openEmpty []) .empty) .empty :=
  .opened (fun _ _ h => absurd h (by simp [keyTables])) (openEngine_keyOpened (.openEmpty []) .empty)

/-- Key 7 for epoch 1, provisioned locally. -/
def provisioned : SyncEngine toyEnv plainSealing room := (keyOpened (.openEmpty []) .empty).step (.insertRoomKey 1 7)

def provisionedRows : KeyRows := OrdMap.empty.insert 1 (7, ⟨0⟩)

theorem tabled_provisioned : Tabled provisioned provisionedRows := by
  have hcall : KeyCall (keyOpened (.openEmpty []) .empty) .empty (.insertRoomKey 1 7) [.offer 1 7] := ⟨rfl, rfl⟩
  have hrows : (KeyTable.run toyEnv plainSealing room (keyOpened (.openEmpty []) .empty).localDeviceSeed
      ⟨(keyOpened (.openEmpty []) .empty).keyRing, .empty⟩ [.offer 1 7]).rows = provisionedRows := by decide
  exact hrows ▸ tabled_keyOpened.step hcall

theorem durable_provisioned : KeyTable.Durable ⟨provisioned.keyRing, provisionedRows⟩ := by
  have hepochs : provisioned.keyRing.roomKeys.epochs = OrdMap.empty.insert 1 (.key 7 ⟨0⟩) := by decide
  refine ⟨fun _ => rfl, fun epoch => ?_, fun epoch k hk hnone => ?_⟩
  · rw [EpochKeyStore.isPoisoned, hepochs, OrdMap.get?_insert]
    split_ifs <;> rfl
  · rw [provisionedRows, OrdMap.get?_insert] at hnone
    rw [EpochKeyStore.get, EpochKeyStore.getWithSource, hepochs, OrdMap.get?_insert] at hk
    split_ifs at hnone hk
    cases hk

/-- The call that brings the events of the worked room, in which member 2 is given key 7 for epoch 1. -/
def keyedInput : SyncEngine.Input := .onMessage room (.events (keyedRoom.map frame))

/-- The admin gives key 8 for epoch 1 to itself only. -/
def secondKey : Nat × SignedEvent :=
  (10, buildEvent toyEnv (idSeed 1) (devSeed 1) room (.memberKeyDistribution (distribution 1 8 [1]))
    [Bytes32.ofNat 9] 104)

/-- The row of the key that event 9 gave. -/
def keyedRows : KeyRows := OrdMap.empty.insert 1 (7, Bytes32.ofNat 9)

def keyed : SyncEngine toyEnv plainSealing room := (keyOpened (.openEmpty []) .empty).step keyedInput

def poisoned : SyncEngine toyEnv plainSealing room := keyed.step (.ingestFrame (frame secondKey))

theorem tabled_keyed : Tabled keyed keyedRows := by
  have hcall : KeyCall (keyOpened (.openEmpty []) .empty) .empty keyedInput
      [.adopt (Bytes32.ofNat 9) (distribution 1 7 [1, 2]) false] :=
    ⟨KeyRing.eq_of_parts (by decide +kernel), rfl⟩
  have hrows : (KeyTable.run toyEnv plainSealing room (keyOpened (.openEmpty []) .empty).localDeviceSeed
      ⟨(keyOpened (.openEmpty []) .empty).keyRing, .empty⟩
      [.adopt (Bytes32.ofNat 9) (distribution 1 7 [1, 2]) false]).rows = keyedRows := by decide
  exact hrows ▸ tabled_keyOpened.step hcall

theorem tabled_poisoned : Tabled poisoned keyedRows := by
  have hcall : KeyCall keyed keyedRows (.ingestFrame (frame secondKey))
      [.adopt (Bytes32.ofNat 10) (distribution 1 8 [1]) false] :=
    ⟨KeyRing.eq_of_parts (by decide +kernel), rfl⟩
  have hrows : (KeyTable.run toyEnv plainSealing room keyed.localDeviceSeed ⟨keyed.keyRing, keyedRows⟩
      [.adopt (Bytes32.ofNat 10) (distribution 1 8 [1]) false]).rows = keyedRows := by decide +kernel
  exact hrows ▸ tabled_keyed.step hcall

end Toy

/-- A key provisioned locally, reopened: whatever is distributed later, all epochs are in the same state. -/
theorem reopened_keys_provisioned :
    (∀ epoch, (Toy.keyOpened Toy.provisioned.store Toy.provisionedRows).keyRing.roomKeys.get epoch =
      Toy.provisioned.keyRing.roomKeys.get epoch) ∧
    ∀ events epoch, ((Toy.keyOpened Toy.provisioned.store Toy.provisionedRows).keyRing.run toyEnv Toy.plainSealing
        Toy.room (some (Toy.devSeed 2)) events).slot epoch =
      (Toy.provisioned.keyRing.run toyEnv Toy.plainSealing Toy.room (some (Toy.devSeed 2)) events).slot epoch := by
  obtain ⟨hnow, hlater, -⟩ := reopened_keys Toy.tabled_provisioned rfl rfl
    (Toy.openEngine_keyOpened Toy.provisioned.store Toy.provisionedRows)
  have hdurable := Toy.durable_provisioned
  exact ⟨fun epoch => hnow.mpr ⟨hdurable.held, fun epoch h => absurd h (by simp [hdurable.unpoisoned])⟩ epoch,
    hlater hdurable⟩

/-- A poisoned epoch is readable again after a restart, with the key it held before. And a conflict that poisons the
running engine goes unnoticed by the reopened one. -/
theorem poisoned_epoch_reopens :
    Tabled Toy.keyed Toy.keyedRows ∧ Tabled Toy.poisoned Toy.keyedRows ∧
    Toy.keyed.localDeviceSeed = some (Toy.devSeed 2) ∧
    (∀ ok ∈ Toy.poisoned.store.writes, ok = true) ∧
    Toy.poisoned.keyRing.roomKeys.get 1 = none ∧ Toy.poisoned.keyRing.roomKeys.isPoisoned 1 = true ∧
    (Toy.keyOpened Toy.poisoned.store Toy.keyedRows).keyRing.roomKeys.get 1 = some 7 ∧
    (Toy.keyOpened Toy.keyed.store Toy.keyedRows).keyRing.roomKeys.get 1 = Toy.keyed.keyRing.roomKeys.get 1 ∧
    Toy.poisoned.store.contains (Bytes32.ofNat 10) = true ∧
    ((Toy.keyOpened Toy.keyed.store Toy.keyedRows).step
      (.ingestFrame (Toy.frame Toy.secondKey))).store.contains (Bytes32.ofNat 10) = true ∧
    ((Toy.keyOpened Toy.keyed.store Toy.keyedRows).step
      (.ingestFrame (Toy.frame Toy.secondKey))).keyRing.roomKeys.get 1 = some 7 :=
  ⟨Toy.tabled_keyed, Toy.tabled_poisoned, by decide +kernel⟩

end IrohRooms
