import IrohRooms.Membership.Progress
import IrohRooms.Store.Rebuild
import IrohRooms.Sync.Frame

/-!
# The store and the fold keep in step

An accepted event reaches the store through the batch of its call or, when it had to wait, through the park. The fold
keeps a waiting event for good while the park may evict it or refuse it for its depth; if it is accepted later, by the
arrival of a parent, nobody stores it. `Synced` is what holds in the runs in which that does not happen, over a store
whose writes succeed; at the end of every call of such a run the stored ids are the accepted ones.
-/

namespace IrohRooms

variable {env : Env} {sealing : Sealing} {room : RoomId}

/-! ### A store that never fails -/

namespace EventStore

variable {s : EventStore env room}

/-- Every coming write succeeds. -/
def NeverFails (s : EventStore env room) : Prop := ∀ ok ∈ s.writes, ok = true

theorem NeverFails.beginWrite (h : s.NeverFails) :
    s.beginWrite.2 = true ∧ s.beginWrite.1.NeverFails ∧ s.beginWrite.1.rows = s.rows := by
  unfold EventStore.beginWrite
  split
  · exact ⟨rfl, h, rfl⟩
  · rename_i ok rest hw
    have hall : ∀ ok' ∈ ok :: rest, ok' = true := fun ok' hok => h ok' (hw ▸ hok)
    exact ⟨hall ok List.mem_cons_self, fun ok' hok => hall ok' (List.mem_cons_of_mem _ hok), rfl⟩

theorem contains_iff_event? {id : EventId} : s.contains id = true ↔ s.event? id ≠ none := by
  rw [contains_iff, event?, ne_eq, Option.map_eq_none_iff]
  exact Option.ne_none_iff_exists'.symm

theorem insertInTx_contains (s : EventStore env room) (v : ValidatedEvent env room) (id : EventId) :
    (s.insertInTx v).1.contains id = true ↔ s.contains id = true ∨ id = v.eventId := by
  rw [contains_iff_event?, (insertInTx_frame s v).2, contains_iff_event?]
  by_cases hid : id = v.eventId
  · subst hid
    cases hstored : s.contains v.eventId with
    | false => simp
    | true => simpa using contains_iff_event?.mp hstored
  · rw [if_neg fun hboth => hid hboth.2]
    simp [hid]

/-- What a transaction over many events does: every id is stored, and either a row was inserted or nothing changed. -/
theorem insertAllInTx_spec (vs : List (ValidatedEvent env room)) (s : EventStore env room) :
    (insertAllInTx s vs).1.writes = s.writes ∧ (insertAllInTx s vs).2.length = vs.length ∧
      (∀ id, (insertAllInTx s vs).1.contains id = true ↔ s.contains id = true ∨ ∃ v ∈ vs, v.eventId = id) ∧
      (.inserted ∈ (insertAllInTx s vs).2 ∨ (insertAllInTx s vs).1 = s) := by
  induction vs generalizing s with
  | nil => simp [insertAllInTx]
  | cons v vs ih =>
    obtain ⟨hwrites, hlen, hcontains, hchange⟩ := ih (s.insertInTx v).1
    refine ⟨hwrites.trans (insertInTx_frame s v).1, congrArg (· + 1) hlen, fun id => ?_, ?_⟩
    · show (insertAllInTx (s.insertInTx v).1 vs).1.contains id = true ↔ _
      rw [hcontains, insertInTx_contains, List.exists_mem_cons_iff, or_assoc, eq_comm (a := id)]
    · show InsertOutcome.inserted ∈ (s.insertInTx v).2 :: (insertAllInTx (s.insertInTx v).1 vs).2 ∨
        (insertAllInTx (s.insertInTx v).1 vs).1 = s
      by_cases hnew : s.contains v.eventId = true
      · rw [insertInTx_duplicate hnew] at hchange ⊢
        rcases hchange with hins | heq
        · exact Or.inl (List.mem_cons_of_mem _ hins)
        · exact Or.inr heq
      · exact Or.inl (by rw [insertInTx_inserted hnew]; exact List.mem_cons_self)

end EventStore

namespace SyncEngine

variable {e f : SyncEngine env sealing room}

/-! ### The posture -/

/-- The verdict, the suspicion and the fail-closed set are those of the present fold and store. -/
structure Current (e : SyncEngine env sealing room) : Prop where
  suspect : e.stillBehind = false → e.suspectTip = none
  completeness : e.completeness = if e.stillBehind then .adminViewSuspect
    else if (e.snapshot.admin.bind e.fold.adminDivergence).isSome then .adminForkDetected else .complete
  failClosed : e.failClosed = if e.stillBehind then removalSensitive e.snapshot else OrdMap.empty

/-- The three fields of the posture are the same. -/
def SamePosture (e f : SyncEngine env sealing room) : Prop :=
  f.suspectTip = e.suspectTip ∧ f.completeness = e.completeness ∧ f.failClosed = e.failClosed

theorem isAhead_congr (h : f.store.rows = e.store.rows) (id : EventId) (seq : Nat) :
    f.isAhead id seq = e.isAhead id seq := by
  unfold isAhead EventStore.adminChainTip EventStore.contains
  rw [h]

theorem stillBehind_congr (h : f.store.rows = e.store.rows) (hs : f.suspectTip = e.suspectTip) :
    f.stillBehind = e.stillBehind := by
  unfold stillBehind
  rw [hs]
  cases e.suspectTip with
  | none => rfl
  | some t => exact isAhead_congr h t.id t.seq

theorem Current.congr (h : e.Current) (hrows : f.store.rows = e.store.rows) (hsnap : f.snapshot = e.snapshot)
    (hdiv : f.fold.adminDivergence = e.fold.adminDivergence) (hp : SamePosture e f) : f.Current := by
  obtain ⟨hs, hc, hf⟩ := hp
  have hbehind := stillBehind_congr hrows hs
  refine ⟨fun hno => ?_, ?_, ?_⟩
  · rw [hs]
    exact h.suspect (hbehind ▸ hno)
  · rw [hc, hbehind, hsnap, hdiv]
    exact h.completeness
  · rw [hf, hbehind, hsnap]
    exact h.failClosed

theorem recomputeCompleteness_stillBehind (e : SyncEngine env sealing room) :
    e.recomputeCompleteness.stillBehind = e.stillBehind := by
  cases hb : e.stillBehind with
  | true =>
    have hsame : e.recomputeCompleteness.suspectTip = e.suspectTip := by
      unfold recomputeCompleteness
      simp [hb]
    rw [stillBehind_congr (e := e) (f := e.recomputeCompleteness) rfl hsame, hb]
  | false =>
    have hnone : e.recomputeCompleteness.suspectTip = none := by
      unfold recomputeCompleteness
      simp [hb]
    unfold stillBehind
    rw [hnone]

theorem recomputeCompleteness_current (e : SyncEngine env sealing room) : e.recomputeCompleteness.Current := by
  have hbehind := e.recomputeCompleteness_stillBehind
  refine ⟨fun hno => ?_, ?_, ?_⟩
  · rw [hbehind] at hno
    unfold recomputeCompleteness
    simp [hno]
  · rw [hbehind]
    rfl
  · rw [hbehind]
    rfl

/-! ### Landing accepted events -/

/-- The bookkeeping of inserted events: the suspicion is dropped at most when it is spent, and the posture is either
current or as it was. -/
structure Booked (e f : SyncEngine env sealing room) : Prop where
  config : f.config = e.config
  store : f.store = e.store
  fold : f.fold = e.fold
  projection : f.membershipProjection = e.membershipProjection
  park : f.park = e.park
  backfillDepth : f.backfillDepth = e.backfillDepth
  pendingBatch : f.pendingBatch = e.pendingBatch
  retry : e.storeRetry = .empty → f.storeRetry = .empty
  suspect : f.suspectTip = e.suspectTip ∨ (f.suspectTip = none ∧ e.stillBehind = false)
  posture : f.Current ∨ SamePosture e f

theorem Booked.refl (e : SyncEngine env sealing room) : Booked e e :=
  ⟨rfl, rfl, rfl, rfl, rfl, rfl, rfl, id, Or.inl rfl, Or.inr ⟨rfl, rfl, rfl⟩⟩

theorem Booked.trans {g : SyncEngine env sealing room} (h : Booked e f) (h' : Booked f g) : Booked e g := by
  refine ⟨h'.config.trans h.config, h'.store.trans h.store, h'.fold.trans h.fold, h'.projection.trans h.projection,
    h'.park.trans h.park, h'.backfillDepth.trans h.backfillDepth, h'.pendingBatch.trans h.pendingBatch,
    fun hr => h'.retry (h.retry hr), ?_, ?_⟩
  · rcases h.suspect with hs | ⟨hnone, hno⟩
    · rcases h'.suspect with hs' | ⟨hnone', hno'⟩
      · exact Or.inl (hs'.trans hs)
      · rw [stillBehind_congr (congrArg EventStore.rows h.store) hs] at hno'
        exact Or.inr ⟨hnone', hno'⟩
    · rcases h'.suspect with hs' | ⟨hnone', -⟩
      · exact Or.inr ⟨hs'.trans hnone, hno⟩
      · exact Or.inr ⟨hnone', hno⟩
  · rcases h'.posture with hcurrent | hsame
    · exact Or.inl hcurrent
    · rcases h.posture with hcurrent | hsame'
      · refine Or.inl (hcurrent.congr (congrArg EventStore.rows h'.store) ?_ (by rw [h'.fold]) hsame)
        exact congrArg MembershipProjectionCache.snapshot h'.projection
      · exact Or.inr ⟨hsame.1.trans hsame'.1, hsame.2.1.trans hsame'.2.1, hsame.2.2.trans hsame'.2.2⟩

theorem applyInsertOutcome_booked (e : SyncEngine env sealing room) (outcome : InsertOutcome)
    (v : ValidatedEvent env room) : Booked e (e.applyInsertOutcome outcome v) := by
  cases outcome with
  | duplicate => exact ⟨rfl, rfl, rfl, rfl, rfl, rfl, rfl, id, Or.inl rfl, Or.inr ⟨rfl, rfl, rfl⟩⟩
  | inserted =>
    refine ⟨rfl, rfl, rfl, rfl, rfl, rfl, rfl, id, ?_, Or.inl (recomputeCompleteness_current _)⟩
    cases hb : e.stillBehind with
    | true =>
      have hb' := hb
      left
      unfold applyInsertOutcome recomputeCompleteness
      dsimp only
      rw [if_pos (by exact hb')]
    | false =>
      right
      refine ⟨?_, rfl⟩
      unfold applyInsertOutcome recomputeCompleteness
      dsimp only
      rw [if_neg (by rw [Bool.not_eq_true]; exact hb)]

theorem Booked.current (h : Booked e f) (hc : e.Current) : f.Current := by
  rcases h.posture with hcurrent | hsame
  · exact hcurrent
  · exact hc.congr (congrArg EventStore.rows h.store) (congrArg MembershipProjectionCache.snapshot h.projection)
      (by rw [h.fold]) hsame

theorem applyLanded_booked (e : SyncEngine env sealing room) (landed : ValidatedEvent env room × InsertOutcome) :
    Booked e (e.applyLanded landed) ∧ (landed.2 = .inserted → (e.applyLanded landed).Current) := by
  refine ⟨Booked.trans ?_ (applyInsertOutcome_booked _ landed.2 landed.1), fun hins => ?_⟩
  · refine ⟨rfl, rfl, rfl, rfl, rfl, rfl, rfl, fun hr => ?_, Or.inl rfl, Or.inr ⟨rfl, rfl, rfl⟩⟩
    show e.storeRetry.erase landed.1.eventId = .empty
    rw [hr]
    rfl
  · unfold applyLanded
    rw [hins]
    exact recomputeCompleteness_current _

theorem foldl_applyLanded_booked (l : List (ValidatedEvent env room × InsertOutcome)) :
    ∀ e : SyncEngine env sealing room, Booked e (l.foldl applyLanded e) ∧
      ((∃ p ∈ l, p.2 = .inserted) → (l.foldl applyLanded e).Current) := by
  induction l with
  | nil => exact fun e => ⟨.refl e, fun ⟨p, hp, _⟩ => absurd hp List.not_mem_nil⟩
  | cons p l ih =>
    intro e
    obtain ⟨hbooked, hcurrent⟩ := applyLanded_booked e p
    obtain ⟨hrest, hcurrent'⟩ := ih (e.applyLanded p)
    refine ⟨hbooked.trans hrest, fun ⟨q, hq, hins⟩ => ?_⟩
    rcases List.mem_cons.mp hq with rfl | hq
    · exact hrest.current (hcurrent hins)
    · exact hcurrent' ⟨q, hq, hins⟩

/-- The events of a list are stored, and the posture follows if any of them was new. -/
structure Lands (vs : List (ValidatedEvent env room)) (e f : SyncEngine env sealing room) : Prop where
  config : f.config = e.config
  fold : f.fold = e.fold
  projection : f.membershipProjection = e.membershipProjection
  park : f.park = e.park
  backfillDepth : f.backfillDepth = e.backfillDepth
  retry : f.storeRetry = .empty
  writes : f.store.NeverFails
  contains : ∀ id, f.store.contains id = true ↔ e.store.contains id = true ∨ ∃ v ∈ vs, v.eventId = id
  suspect : f.suspectTip = e.suspectTip ∨
    (f.suspectTip = none ∧ ∀ t, e.suspectTip = some t → f.isAhead t.id t.seq = false)
  posture : f.Current ∨ (f.store.rows = e.store.rows ∧ SamePosture e f)

/-- Booking what was inserted lands it. -/
theorem lands_of_booked {vs : List (ValidatedEvent env room)} {mid : SyncEngine env sealing room}
    (hbooked : Booked mid f) (hmid : mid.config = e.config ∧ mid.fold = e.fold ∧ mid.membershipProjection = e.membershipProjection ∧
      mid.park = e.park ∧ mid.backfillDepth = e.backfillDepth ∧ mid.storeRetry = .empty ∧ SamePosture e mid)
    (hwrites : mid.store.NeverFails)
    (hcontains : ∀ id, mid.store.contains id = true ↔ e.store.contains id = true ∨ ∃ v ∈ vs, v.eventId = id)
    (hposture : f.Current ∨ mid.store.rows = e.store.rows) : Lands vs e f := by
  obtain ⟨hconfig, hfold, hproj, hpark, hdepth, hretry, hsame⟩ := hmid
  refine ⟨hbooked.config.trans hconfig, hbooked.fold.trans hfold, hbooked.projection.trans hproj,
    hbooked.park.trans hpark, hbooked.backfillDepth.trans hdepth, hbooked.retry hretry, ?_, ?_, ?_, ?_⟩
  · rw [hbooked.store]
    exact hwrites
  · rw [hbooked.store]
    exact hcontains
  · rcases hbooked.suspect with hs | ⟨hnone, hno⟩
    · exact Or.inl (hs.trans hsame.1)
    · refine Or.inr ⟨hnone, fun t ht => ?_⟩
      rw [isAhead_congr (congrArg EventStore.rows hbooked.store)]
      rw [stillBehind, hsame.1, ht] at hno
      exact hno
  · rcases hposture with hcurrent | hrows
    · exact Or.inl hcurrent
    · rcases hbooked.posture with hcurrent | ⟨hs, hc, hf⟩
      · exact Or.inl hcurrent
      · refine Or.inr ⟨(congrArg EventStore.rows hbooked.store).trans hrows, hs.trans hsame.1, hc.trans hsame.2.1,
          hf.trans hsame.2.2⟩

theorem flushStoreBatch_lands (hw : e.store.NeverFails) (hr : e.storeRetry = .empty) :
    Lands e.pendingBatch e e.flushStoreBatch ∧ e.flushStoreBatch.pendingBatch = [] := by
  unfold flushStoreBatch
  by_cases hnil : e.pendingBatch = []
  · rw [if_pos hnil]
    refine ⟨⟨rfl, rfl, rfl, rfl, rfl, hr, hw, fun id => ?_, Or.inl rfl, Or.inr ⟨rfl, rfl, rfl, rfl⟩⟩, hnil⟩
    rw [hnil]
    simp
  · rw [if_neg hnil]
    obtain ⟨hok, hfuture, hrows⟩ := hw.beginWrite
    obtain ⟨hwrites, hlen, hcontains, hchange⟩ := EventStore.insertAllInTx_spec e.pendingBatch e.store.beginWrite.1
    have hresult : e.store.insertAllOutcomes e.pendingBatch =
        ((EventStore.insertAllInTx e.store.beginWrite.1 e.pendingBatch).1,
          some (EventStore.insertAllInTx e.store.beginWrite.1 e.pendingBatch).2) := by
      unfold EventStore.insertAllOutcomes
      dsimp only
      rw [if_pos hok]
    dsimp only
    rw [hresult]
    dsimp only
    obtain ⟨hbooked, hcurrent⟩ := foldl_applyLanded_booked
      (e.pendingBatch.zip (EventStore.insertAllInTx e.store.beginWrite.1 e.pendingBatch).2)
      ({ e with
        pendingBatch := []
        store := (EventStore.insertAllInTx e.store.beginWrite.1 e.pendingBatch).1 } : SyncEngine env sealing room)
    have hsame : ∀ id, e.store.beginWrite.1.contains id = e.store.contains id := by
      intro id
      unfold EventStore.contains
      rw [hrows]
    refine ⟨lands_of_booked hbooked ⟨rfl, rfl, rfl, rfl, rfl, hr, rfl, rfl, rfl⟩ ?_ ?_ ?_, hbooked.pendingBatch⟩
    · intro ok hmem
      exact hfuture ok (hwrites ▸ hmem)
    · intro id
      rw [← hsame]
      exact hcontains id
    · rcases hchange with hins | heq
      · obtain ⟨i, hi, hget⟩ := List.mem_iff_getElem.mp hins
        refine Or.inl (hcurrent ⟨(e.pendingBatch[i], .inserted), ?_, rfl⟩)
        refine List.mem_iff_getElem.mpr ⟨i, by rw [List.length_zip]; omega, ?_⟩
        rw [List.getElem_zip, hget]
      · refine Or.inr ?_
        dsimp only
        rw [heq, hrows]

theorem storeAndFanout_lands (hw : e.store.NeverFails) (hr : e.storeRetry = .empty) (v : ValidatedEvent env room) :
    Lands [v] e (e.storeAndFanout v) ∧ (e.storeAndFanout v).pendingBatch = e.pendingBatch := by
  obtain ⟨hok, hfuture, hrows⟩ := hw.beginWrite
  have hresult : e.store.insert v = ((e.store.beginWrite.1.insertInTx v).1, some (e.store.beginWrite.1.insertInTx v).2) := by
    unfold EventStore.insert
    dsimp only
    rw [if_pos hok]
  unfold storeAndFanout
  dsimp only
  rw [hresult]
  dsimp only
  obtain ⟨hbooked, hcurrent⟩ := applyLanded_booked
    ({ e with store := (e.store.beginWrite.1.insertInTx v).1 } : SyncEngine env sealing room)
    (v, (e.store.beginWrite.1.insertInTx v).2)
  have hsame : ∀ id, e.store.beginWrite.1.contains id = e.store.contains id := by
    intro id
    unfold EventStore.contains
    rw [hrows]
  refine ⟨lands_of_booked hbooked ⟨rfl, rfl, rfl, rfl, rfl, hr, rfl, rfl, rfl⟩ ?_ ?_ ?_, hbooked.pendingBatch⟩
  · intro ok hmem
    exact hfuture ok ((EventStore.insertInTx_frame _ v).1 ▸ hmem)
  · intro id
    rw [← hsame]
    refine (EventStore.insertInTx_contains e.store.beginWrite.1 v id).trans (or_congr_right ?_)
    constructor
    · exact fun hid => ⟨v, List.mem_singleton_self v, hid.symm⟩
    · rintro ⟨w, hmem, rfl⟩
      rw [List.mem_singleton.mp hmem]
  · by_cases hnew : e.store.beginWrite.1.contains v.eventId = true
    · refine Or.inr ?_
      dsimp only
      rw [EventStore.insertInTx_duplicate hnew]
      exact hrows
    · exact Or.inl (hcurrent (EventStore.insertInTx_inserted hnew))

/-! ### The invariant -/

/-- The store, the batch, the park and the fold keep in step, the ids in `skip` apart; and once every accepted event
is stored the posture is current. -/
structure Synced (skip : EventId → Prop) (e : SyncEngine env sealing room) : Prop where
  settled : e.fold.Settled
  generation : e.membershipProjection.foldGeneration = e.fold.membershipProjectionGeneration
  accurate : e.fold.membershipProjectionGeneration < u64Max → e.snapshot = e.fold.snapshot
  writes : e.store.NeverFails
  retry : e.storeRetry = .empty
  keyed : ∀ id p, e.park.get? id = some p → p.event.eventId = id
  stored : ∀ id, e.store.contains id = true → e.fold.isAccepted id = true
  pending : ∀ v ∈ e.pendingBatch, e.fold.isAccepted v.eventId = true
  accepted : ∀ id, e.fold.isAccepted id = true → ¬ skip id →
    e.store.contains id = true ∨ (∃ v ∈ e.pendingBatch, v.eventId = id) ∨ e.park.contains id = true
  waiting : ∀ id, e.fold.IsWaiting id → ¬ skip id → e.park.contains id = true
  current : (∀ id, e.fold.isAccepted id = true → e.store.contains id = true) → e.Current

variable {skip skip' : EventId → Prop}

/-- An id that is neither accepted nor waiting needs no exemption, nor one that is stored or kept for storing. -/
theorem Synced.narrow (h : Synced skip e) (hacc : ∀ id, skip id → ¬ skip' id → e.fold.isAccepted id = true →
      e.store.contains id = true ∨ (∃ v ∈ e.pendingBatch, v.eventId = id) ∨ e.park.contains id = true)
    (hwait : ∀ id, skip id → ¬ skip' id → e.fold.IsWaiting id → e.park.contains id = true) : Synced skip' e := by
  refine ⟨h.settled, h.generation, h.accurate, h.writes, h.retry, h.keyed, h.stored, h.pending, ?_, ?_, h.current⟩
  · intro id hid hskip
    by_cases hs : skip id
    · exact hacc id hs hskip hid
    · exact h.accepted id hid hs
  · intro id hid hskip
    by_cases hs : skip id
    · exact hwait id hs hskip hid
    · exact h.waiting id hid hs

/-! ### The fold -/

theorem ingestFold_eq (e : SyncEngine env sealing room) (v : ValidatedEvent env room) : e.ingestFold v =
    { e with
      fold := e.fold.ingest v
      membershipProjection :=
        if (e.fold.ingest v).membershipProjectionGeneration = e.membershipProjection.foldGeneration
        then e.membershipProjection
        else ⟨(e.fold.ingest v).snapshot, (e.fold.ingest v).membershipProjectionGeneration⟩ } := by
  unfold ingestFold refreshMembershipProjectionIfNeeded
  dsimp only
  split_ifs <;> rfl

@[simp] theorem ingestFold_fold (e : SyncEngine env sealing room) (v : ValidatedEvent env room) :
    (e.ingestFold v).fold = e.fold.ingest v := by rw [ingestFold_eq]

/-- What was accepted before keeps its event and its verdict. -/
theorem ingest_keeps (hs : e.fold.Settled) (v : ValidatedEvent env room) {id : EventId} (hacc : e.fold.isAccepted id = true) :
    (e.fold.ingest v).event? id = e.fold.event? id ∧ (e.fold.ingest v).result id = e.fold.result id := by
  have hresult := RoomMembership.result_ne_none_of_accepted hacc
  exact ⟨hs.ingest_event?_of_contains v (RoomMembership.contains_of_result hresult), hs.ingest_result v hresult⟩

theorem ingestFold_generation (e : SyncEngine env sealing room) (v : ValidatedEvent env room) :
    (e.ingestFold v).membershipProjection.foldGeneration = (e.ingestFold v).fold.membershipProjectionGeneration := by
  rw [ingestFold_eq]
  dsimp only
  split_ifs with hgen
  · exact hgen.symm
  · rfl

/-- The refresh after an ingest leaves no stale snapshot, as long as the generation is not saturated. -/
theorem ingestFold_accurate (hs : e.fold.Settled)
    (hgen : e.membershipProjection.foldGeneration = e.fold.membershipProjectionGeneration)
    (hacc : e.fold.membershipProjectionGeneration < u64Max → e.snapshot = e.fold.snapshot) (v : ValidatedEvent env room)
    (hlt : (e.ingestFold v).fold.membershipProjectionGeneration < u64Max) :
    (e.ingestFold v).snapshot = (e.ingestFold v).fold.snapshot := by
  have hadv := hs.ingest_advances v
  rw [ingestFold_fold] at hlt ⊢
  have hlt₀ : e.fold.membershipProjectionGeneration < u64Max := by
    by_contra hge
    have := hadv.saturated (by omega)
    omega
  rw [ingestFold_eq]
  show (if _ then _ else _ : MembershipProjectionCache).snapshot = _
  split_ifs with hsame
  · -- the generation did not move, so nothing that affects membership was accepted
    rcases hadv.ahead hlt₀ with hmoved | ⟨-, hnone⟩
    · omega
    · rw [RoomMembership.snapshot_of_no_membership hs.wf (hs.ingest v).wf (fun _ => ingest_keeps hs v) hnone]
      exact hacc hlt₀
  · rfl

theorem Synced.ingestFold (h : Synced skip e) (v : ValidatedEvent env room) :
    Synced (fun id => skip id ∨ id = v.eventId) (e.ingestFold v) := by
  have hadv := h.settled.ingest_advances v
  have hgeneration := e.ingestFold_generation v
  have haccurate := ingestFold_accurate h.settled h.generation h.accurate v
  rw [ingestFold_eq] at hgeneration haccurate ⊢
  refine ⟨h.settled.ingest v, hgeneration, haccurate, h.writes, h.retry, h.keyed, ?_, ?_, ?_, ?_, ?_⟩
  · exact fun id hid => h.settled.ingest_isAccepted v (h.stored id hid)
  · exact fun w hw => h.settled.ingest_isAccepted v (h.pending w hw)
  · intro id hacc hskip
    obtain ⟨hno, hne⟩ := not_or.mp hskip
    rcases RoomMembership.ingest_settles h.settled.wf (RoomMembership.result_ne_none_of_accepted hacc) with
      hold | hid | hwait
    · obtain ⟨s, hs⟩ := RoomMembership.isAccepted_iff.mp hacc
      rw [h.settled.ingest_result v hold] at hs
      exact h.accepted id (RoomMembership.isAccepted_iff.mpr ⟨s, hs⟩) hno
    · exact absurd hid hne
    · exact Or.inr (Or.inr (h.waiting id hwait hno))
  · intro id hwait hskip
    obtain ⟨hno, hne⟩ := not_or.mp hskip
    rcases h.settled.isWaiting_of_ingest hwait with hold | hid
    · exact h.waiting id hold hno
    · exact absurd hid hne
  · intro hall
    dsimp only at hall
    have hnew : ∀ id, (e.fold.ingest v).isAccepted id = true → e.fold.isAccepted id = true :=
      fun id hacc => h.stored id (hall id hacc)
    have hgen : (e.fold.ingest v).membershipProjectionGeneration = e.fold.membershipProjectionGeneration := by
      by_contra hmoved
      obtain ⟨id, hacc, hold⟩ := hadv.moved hmoved
      rw [hnew id hacc] at hold
      cases hold
    obtain ⟨-, hdiv⟩ := RoomMembership.reads_of_no_new h.settled.wf (h.settled.ingest v).wf
      (fun _ => ingest_keeps h.settled v) hnew
    have hcurrent := h.current fun id hacc => hall id (h.settled.ingest_isAccepted v hacc)
    refine hcurrent.congr rfl ?_ hdiv ⟨rfl, rfl, rfl⟩
    show (if _ then _ else _ : MembershipProjectionCache).snapshot = _
    rw [if_pos (hgen.trans h.generation.symm)]
    rfl

/-- Landing accepted events keeps everything in step. -/
theorem Synced.lands (h : Synced skip e) {vs : List (ValidatedEvent env room)} (hl : Lands vs e f)
    (hvs : ∀ v ∈ vs, e.fold.isAccepted v.eventId = true)
    (hpending : ∀ v ∈ f.pendingBatch, v ∈ e.pendingBatch)
    (hlanded : ∀ v ∈ e.pendingBatch, v ∈ f.pendingBatch ∨ v ∈ vs) : Synced skip f := by
  have hsnap : f.snapshot = e.snapshot := congrArg MembershipProjectionCache.snapshot hl.projection
  refine ⟨?_, ?_, ?_, hl.writes, hl.retry, ?_, ?_, ?_, ?_, ?_, ?_⟩
  · rw [hl.fold]
    exact h.settled
  · rw [hl.fold, hl.projection]
    exact h.generation
  · rw [hl.fold, hsnap]
    exact h.accurate
  · rw [hl.park]
    exact h.keyed
  · intro id hid
    rw [hl.fold]
    rcases (hl.contains id).mp hid with hold | ⟨v, hv, rfl⟩
    · exact h.stored id hold
    · exact hvs v hv
  · intro v hv
    rw [hl.fold]
    exact h.pending v (hpending v hv)
  · intro id hacc hskip
    rw [hl.fold] at hacc
    rw [hl.contains, hl.park]
    rcases h.accepted id hacc hskip with hst | ⟨v, hv, hid⟩ | hpark
    · exact Or.inl (Or.inl hst)
    · rcases hlanded v hv with hkept | hin
      · exact Or.inr (Or.inl ⟨v, hkept, hid⟩)
      · exact Or.inl (Or.inr ⟨v, hin, hid⟩)
    · exact Or.inr (Or.inr hpark)
  · rw [hl.fold, hl.park]
    exact h.waiting
  · intro hall
    rcases hl.posture with hcurrent | ⟨hrows, hsame⟩
    · exact hcurrent
    · have hcontains : ∀ id, f.store.contains id = e.store.contains id := by
        intro id
        unfold EventStore.contains
        rw [hrows]
      refine (h.current fun id hacc => ?_).congr hrows hsnap (by rw [hl.fold]) hsame
      rw [← hcontains]
      exact hall id (by rw [hl.fold]; exact hacc)

theorem Synced.flushStoreBatch (h : Synced skip e) :
    Synced skip e.flushStoreBatch ∧ e.flushStoreBatch.pendingBatch = [] := by
  obtain ⟨hl, hnil⟩ := flushStoreBatch_lands h.writes h.retry
  refine ⟨h.lands hl h.pending ?_ fun v hv => Or.inr hv, hnil⟩
  rw [hnil]
  exact fun v hv => absurd hv List.not_mem_nil

theorem Synced.storeAndFanout (h : Synced skip e) {v : ValidatedEvent env room}
    (hv : e.fold.isAccepted v.eventId = true) : Synced skip (e.storeAndFanout v) ∧
      (e.storeAndFanout v).store.contains v.eventId = true := by
  obtain ⟨hl, hsame⟩ := storeAndFanout_lands h.writes h.retry v
  refine ⟨h.lands hl ?_ ?_ ?_, (hl.contains _).mpr (Or.inr ⟨v, List.mem_singleton_self v, rfl⟩)⟩
  · intro w hw
    rw [List.mem_singleton.mp hw]
    exact hv
  · rw [hsame]
    exact fun w hw => hw
  · rw [hsame]
    exact fun w hw => Or.inl hw

/-! ### Waking the park -/

theorem Synced.evictParked (h : Synced skip e) (id : EventId) :
    Synced (fun j => skip j ∨ j = id) (e.evictParked id) := by
  have hpark : ∀ j, j ≠ id → (e.park.erase id).contains j = e.park.contains j := by
    intro j hj
    rw [OrdMap.contains, OrdMap.get?_erase, if_neg hj, OrdMap.contains]
  refine ⟨h.settled, h.generation, h.accurate, h.writes, h.retry, ?_, h.stored, h.pending, ?_, ?_, fun hall => ?_⟩
  · intro j p hp
    rw [SyncEngine.evictParked, OrdMap.get?_erase] at hp
    split_ifs at hp
    exact h.keyed j p hp
  · intro j hj hskip
    obtain ⟨hno, hne⟩ := not_or.mp hskip
    show _ ∨ _ ∨ (e.park.erase id).contains j = true
    rw [hpark j hne]
    exact h.accepted j hj hno
  · intro j hj hskip
    obtain ⟨hno, hne⟩ := not_or.mp hskip
    show (e.park.erase id).contains j = true
    rw [hpark j hne]
    exact h.waiting j hj hno
  · exact (h.current hall).congr rfl rfl rfl ⟨rfl, rfl, rfl⟩

/-- What looking at one parked frame does: it leaves the park, or it has to wait on and nothing is settled. -/
structure Woken (id : EventId) (st r : SyncEngine env sealing room × Bool) : Prop where
  pendingBatch : r.1.pendingBatch = st.1.pendingBatch
  park : (r.2 = true ∧ st.1.park.contains id = true ∧ r.1.park = st.1.park.erase id) ∨
    (r.2 = st.2 ∧ r.1.park = st.1.park ∧ (∀ j, r.1.fold.result j = st.1.fold.result j) ∧
      (st.1.park.contains id = true → r.1.fold.result id = none))

theorem Synced.wakeOne {st : SyncEngine env sealing room × Bool} (h : Synced skip st.1) (id : EventId) :
    Synced skip (SyncEngine.wakeOne st id).1 ∧ Woken id st (SyncEngine.wakeOne st id) := by
  unfold SyncEngine.wakeOne
  split
  · rename_i hnone
    refine ⟨h, rfl, Or.inr ⟨rfl, rfl, fun _ => rfl, fun hin => ?_⟩⟩
    rw [OrdMap.contains, hnone] at hin
    cases hin
  · rename_i p hp
    have hid : p.event.eventId = id := h.keyed id p hp
    have hin : st.1.park.contains id = true := by rw [OrdMap.contains, hp]; rfl
    have hfolded := h.ingestFold p.event
    have hpark : (st.1.ingestFold p.event).park = st.1.park := by rw [ingestFold_eq]
    have hbatch : (st.1.ingestFold p.event).pendingBatch = st.1.pendingBatch := by rw [ingestFold_eq]
    -- of what is set aside for this entry, only the entry itself is new
    have hone : ∀ {j : EventId}, (skip j ∨ j = id) ∨ j = id → ¬ skip j → j = id := by
      rintro j ((hj | hj) | hj) hno
      · exact absurd hj hno
      · exact hj
      · exact hj
    dsimp only
    split
    · rename_i id' flags hout
      have hacc := RoomMembership.outcome_accepted hout
      rw [hid] at hacc hfolded
      have hevicted := hfolded.evictParked id
      have hacc' : ((st.1.ingestFold p.event).evictParked id).fold.isAccepted p.event.eventId = true := by
        rw [hid]
        exact hacc
      obtain ⟨hsynced, hstored⟩ := hevicted.storeAndFanout hacc'
      obtain ⟨hl, hsame⟩ := storeAndFanout_lands hevicted.writes hevicted.retry p.event
      rw [hid] at hstored
      refine ⟨hsynced.narrow (fun j hj hno _ => ?_) (fun j hj hno hwait => ?_), hsame.trans hbatch, Or.inl ⟨rfl, hin, ?_⟩⟩
      · rcases hj with (hj | rfl) | rfl
        · exact absurd hj hno
        · exact Or.inl hstored
        · exact Or.inl hstored
      · rw [hone hj hno] at hwait
        exact absurd hwait (RoomMembership.not_isWaiting_of_accepted (hsynced.stored id hstored))
      · rw [hl.park]
        show (st.1.ingestFold p.event).park.erase id = _
        rw [hpark]
    · rename_i id' reason hout
      obtain ⟨hresult, hrej⟩ := RoomMembership.outcome_rejected hout
      rw [hid] at hresult hrej hfolded
      refine ⟨(hfolded.evictParked id).narrow (fun j hj hno hacc => ?_) (fun j hj hno hwait => ?_), hbatch,
        Or.inl ⟨rfl, hin, ?_⟩⟩
      · rw [hone hj hno, show ((st.1.ingestFold p.event).evictParked id).fold = (st.1.ingestFold p.event).fold from rfl, hrej]
          at hacc
        cases hacc
      · rw [hone hj hno] at hwait
        exact absurd hwait.2 hresult
      · show (st.1.ingestFold p.event).park.erase id = _
        rw [hpark]
    · rename_i id' missing hout
      have hnone := RoomMembership.outcome_buffered hout
      rw [ingestFold_fold] at hnone
      refine ⟨hfolded.narrow (fun j hj hno hacc => ?_) (fun j hj hno _ => ?_), hbatch, Or.inr ⟨rfl, hpark, fun j => ?_, fun _ => ?_⟩⟩
      · rw [hj.resolve_left hno, ingestFold_fold] at hacc
        exact absurd hnone (RoomMembership.result_ne_none_of_accepted hacc)
      · rw [hj.resolve_left hno, hpark, hid]
        exact hin
      · rw [ingestFold_fold]
        exact RoomMembership.ingest_waiting h.settled.wf hnone j
      · rw [ingestFold_fold, ← hid]
        exact hnone

theorem wakeOne_flag {st : SyncEngine env sealing room × Bool} (h : st.2 = true) (id : EventId) :
    (SyncEngine.wakeOne st id).2 = true := by
  unfold SyncEngine.wakeOne
  split
  · exact h
  · dsimp only
    split
    · rfl
    · rfl
    · exact h

/-- What a pass over parked frames does: a frame leaves the park, or nothing is settled and they all wait on. -/
structure Passed (ids : List EventId) (st r : SyncEngine env sealing room × Bool) : Prop where
  pendingBatch : r.1.pendingBatch = st.1.pendingBatch
  length : r.1.park.entries.length ≤ st.1.park.entries.length
  moved : r.2 = true → st.2 = true ∨ r.1.park.entries.length < st.1.park.entries.length
  still : r.2 = false → r.1.park = st.1.park ∧ (∀ j, r.1.fold.result j = st.1.fold.result j) ∧
    ∀ id ∈ ids, st.1.park.contains id = true → r.1.fold.result id = none

theorem Synced.wakePass (ids : List EventId) (st : SyncEngine env sealing room × Bool) (h : Synced skip st.1) :
    Synced skip (ids.foldl SyncEngine.wakeOne st).1 ∧ Passed ids st (ids.foldl SyncEngine.wakeOne st) := by
  induction ids generalizing st with
  | nil =>
    exact ⟨h, rfl, Nat.le_refl _, Or.inl, fun _ => ⟨rfl, fun _ => rfl, fun _ hid => absurd hid List.not_mem_nil⟩⟩
  | cons id ids ih =>
    obtain ⟨hone, hwoken⟩ := h.wakeOne id
    obtain ⟨hrest, hpassed⟩ := ih _ hone
    rw [List.foldl_cons]
    refine ⟨hrest, hpassed.pendingBatch.trans hwoken.pendingBatch, ?_, fun hmoved => ?_, fun hstill => ?_⟩
    · have hle := hpassed.length
      rcases hwoken.park with ⟨-, hin, hpark⟩ | ⟨-, hpark, -⟩
      · have hlt := OrdMap.length_erase_lt hin
        rw [← hpark] at hlt
        omega
      · rw [hpark] at hle
        exact hle
    · have hle := hpassed.length
      rcases hwoken.park with ⟨-, hin, hpark⟩ | ⟨hflag, hpark, -⟩
      · have hlt := OrdMap.length_erase_lt hin
        rw [← hpark] at hlt
        exact Or.inr (by omega)
      · rcases hpassed.moved hmoved with hbefore | hlt
        · exact Or.inl (hflag ▸ hbefore)
        · exact Or.inr (hpark ▸ hlt)
    · obtain ⟨hpark, hresult, hwait⟩ := hpassed.still hstill
      rcases hwoken.park with ⟨hflag, -, -⟩ | ⟨-, hpark', hresult', hwait'⟩
      · -- once a frame has left, the flag stays up
        have hup : (ids.foldl SyncEngine.wakeOne (SyncEngine.wakeOne st id)).2 = true :=
          List.foldlRecOn (motive := fun (st : SyncEngine env sealing room × Bool) => st.2 = true) ids _ hflag fun st hst j _ => wakeOne_flag hst j
        rw [hup] at hstill
        cases hstill
      · refine ⟨hpark.trans hpark', fun j => (hresult j).trans (hresult' j), fun j hj hin => ?_⟩
        rcases List.mem_cons.mp hj with rfl | hj
        · exact (hresult j).trans (hwait' hin)
        · exact hwait j hj (hpark' ▸ hin)

/-- The loop ends on a pass that moved nothing: the fuel exceeds the length of the park. -/
theorem Synced.wakeParkLoop (fuel : Nat) (h : Synced skip e) (hfuel : e.park.entries.length < fuel) :
    Synced skip (SyncEngine.wakeParkLoop fuel e) ∧ (SyncEngine.wakeParkLoop fuel e).pendingBatch = e.pendingBatch ∧
      ∀ id, (SyncEngine.wakeParkLoop fuel e).park.contains id = true →
        (SyncEngine.wakeParkLoop fuel e).fold.result id = none := by
  induction fuel generalizing e with
  | zero => omega
  | succ fuel ih =>
    obtain ⟨hpass, hpassed⟩ := Synced.wakePass e.park.keys (e, false) h
    rw [SyncEngine.wakeParkLoop]
    split_ifs with hflag
    · have hlt : (e.park.keys.foldl SyncEngine.wakeOne (e, false)).1.park.entries.length < e.park.entries.length :=
        (hpassed.moved hflag).resolve_left fun hno => nomatch hno
      obtain ⟨hsynced, hbatch, hwait⟩ := ih hpass (by omega)
      exact ⟨hsynced, hbatch.trans hpassed.pendingBatch, hwait⟩
    · obtain ⟨hpark, -, hwait⟩ := hpassed.still (Bool.not_eq_true _ ▸ hflag)
      refine ⟨hpass, hpassed.pendingBatch, fun id hin => ?_⟩
      rw [hpark] at hin
      exact hwait id (OrdMap.mem_keys.mpr hin) hin

theorem Synced.wakePark (h : Synced skip e) : Synced skip e.wakePark ∧ e.wakePark.pendingBatch = e.pendingBatch ∧
    ∀ id, e.wakePark.park.contains id = true → e.wakePark.fold.result id = none :=
  Synced.wakeParkLoop _ h (Nat.lt_succ_self _)

/-! ### Parking -/

/-- The events of the engine, the park apart, are where they were. -/
structure Untouched (e f : SyncEngine env sealing room) : Prop where
  config : f.config = e.config
  fold : f.fold = e.fold
  projection : f.membershipProjection = e.membershipProjection
  store : f.store = e.store
  retry : f.storeRetry = e.storeRetry
  pendingBatch : f.pendingBatch = e.pendingBatch

/-- Nothing but the park and the bookkeeping of backfills and keys differs. -/
structure Quiet (e f : SyncEngine env sealing room) : Prop extends Untouched e f where
  posture : SamePosture e f

/-- Books that neither the posture nor the other events depend on. -/
theorem Quiet.books (e : SyncEngine env sealing room) (peers : OrdSet PeerId) (park : OrdMap EventId (Parked env room))
    (restoredBackfill : OrdSet EventId) (parkSeq : Nat) (backfillDepth : OrdMap EventId Nat)
    (tokens : OrdMap IdentityKey Nat) (keyRing : KeyRing) :
    Quiet e { e with
      peers := peers, park := park, restoredBackfill := restoredBackfill, parkSeq := parkSeq,
      backfillDepth := backfillDepth, tokens := tokens, keyRing := keyRing } := ⟨⟨rfl, rfl, rfl, rfl, rfl, rfl⟩, rfl, rfl, rfl⟩

theorem Quiet.refl (e : SyncEngine env sealing room) : Quiet e e := .books ..

theorem Quiet.trans {g : SyncEngine env sealing room} (h : Quiet e f) (h' : Quiet f g) : Quiet e g :=
  ⟨⟨h'.config.trans h.config, h'.fold.trans h.fold, h'.projection.trans h.projection, h'.store.trans h.store,
    h'.retry.trans h.retry, h'.pendingBatch.trans h.pendingBatch⟩, h'.posture.1.trans h.posture.1,
    h'.posture.2.1.trans h.posture.2.1, h'.posture.2.2.trans h.posture.2.2⟩

theorem Quiet.current (h : Quiet e f) (hc : e.Current) : f.Current :=
  hc.congr (congrArg EventStore.rows h.store) (congrArg MembershipProjectionCache.snapshot h.projection)
    (by rw [h.fold]) h.posture

theorem chase_quiet (e : SyncEngine env sealing room) (author : IdentityKey) (depth : Nat) (missing : List EventId) :
    Quiet e (e.chase author depth missing) ∧ (e.chase author depth missing).park = e.park := by
  unfold chase takeBackfillToken
  dsimp only
  split_ifs
  · exact ⟨.refl e, rfl⟩
  · exact ⟨.books .., rfl⟩
  · exact ⟨.books .., rfl⟩

theorem foldl_quiet {α : Type} {step : SyncEngine env sealing room → α → SyncEngine env sealing room}
    (hstep : ∀ e a, Quiet e (step e a) ∧ (step e a).park = e.park) (l : List α) (e : SyncEngine env sealing room) :
    Quiet e (l.foldl step e) ∧ (l.foldl step e).park = e.park := by
  induction l generalizing e with
  | nil => exact ⟨.refl e, rfl⟩
  | cons a l ih =>
    obtain ⟨hquiet, hpark⟩ := hstep e a
    obtain ⟨hrest, hpark'⟩ := ih (step e a)
    exact ⟨hquiet.trans hrest, hpark'.trans hpark⟩

theorem retryRestoredOne_quiet (e : SyncEngine env sealing room) (id : EventId) :
    Quiet e (retryRestoredOne e id) ∧ (retryRestoredOne e id).park = e.park := by
  unfold retryRestoredOne
  dsimp only
  split
  · exact ⟨.books .., rfl⟩
  · rename_i p hp
    obtain ⟨hquiet, hpark⟩ := chase_quiet ({ e with
      restoredBackfill := OrdMap.erase e.restoredBackfill id } : SyncEngine env sealing room)
      p.author p.depth p.missing.toList
    refine ⟨Quiet.trans ?_ hquiet, hpark⟩
    exact .books ..

theorem retryRestoredPark_quiet (e : SyncEngine env sealing room) :
    Quiet e e.retryRestoredPark ∧ e.retryRestoredPark.park = e.park := by
  unfold retryRestoredPark
  split_ifs
  · exact ⟨.refl e, rfl⟩
  · exact foldl_quiet retryRestoredOne_quiet _ e

theorem adoptKeyHistory_quiet (chunks : List KeyHistoryChunk) (e : SyncEngine env sealing room) :
    Quiet e (chunks.foldl adoptKeyHistoryChunk e) ∧ (chunks.foldl adoptKeyHistoryChunk e).park = e.park := by
  have hone : ∀ (e : SyncEngine env sealing room) (c : KeyHistoryChunk),
      Quiet e (e.adoptKeyHistoryChunk c) ∧ (e.adoptKeyHistoryChunk c).park = e.park :=
    fun _ _ => ⟨.books .., rfl⟩
  exact foldl_quiet hone chunks e

/-- The event may be parked: it already is, or it is shallow enough and neither cap of the park is reached. -/
def HasRoom (e : SyncEngine env sealing room) (v : ValidatedEvent env room) : Prop :=
  e.park.contains v.eventId = true ∨
    ((e.backfillDepth.get? v.eventId).getD 0 ≤ e.config.maxBackfillDepth ∧
      e.park.entries.length < e.config.maxParkedTotal ∧
      (e.park.values.filter fun p => p.author == v.event.senderId).length < e.config.maxParkedPerAuthor)

/-- The event is parked and no other frame leaves. -/
structure Parks (v : ValidatedEvent env room) (e f : SyncEngine env sealing room) : Prop where
  quiet : Quiet e f
  parked : f.park.contains v.eventId = true
  kept : ∀ id, e.park.contains id = true → f.park.contains id = true
  only : ∀ id p, f.park.get? id = some p → e.park.get? id = some p ∨ id = v.eventId ∧ p.event = v

theorem Parks.refl {v : ValidatedEvent env room} (h : e.park.contains v.eventId = true) : Parks v e e :=
  ⟨.refl e, h, fun _ hid => hid, fun _ _ hp => Or.inl hp⟩

/-- With room nothing is evicted. -/
theorem parkFrame_of_room {v : ValidatedEvent env room} (h : e.HasRoom v) (depth : Nat) (missing : List EventId) :
    Parks v e (e.parkFrame v depth missing) := by
  unfold parkFrame
  split_ifs with hin
  · exact .refl hin
  · obtain ⟨-, htotal, hauthor⟩ := h.resolve_left hin
    have hkeep : (enforceTotal (e.park.entries.length + 1) e).enforceAuthor v.event.senderId = e := by
      rw [enforceTotal, if_neg (by omega), enforceAuthor, if_neg (by omega)]
    dsimp only
    rw [hkeep]
    refine ⟨.books .., ?_, fun id hid => ?_, fun id p hp => ?_⟩
    · rw [OrdMap.contains, OrdMap.get?_insert_self]
      rfl
    · rw [OrdMap.contains, OrdMap.get?_insert]
      split_ifs
      · rfl
      · exact hid
    · rw [OrdMap.get?_insert] at hp
      split_ifs at hp with hid
      · rw [← Option.some.inj hp]
        exact Or.inr ⟨hid, rfl⟩
      · exact Or.inl hp

/-- A plausible event with room is parked. -/
theorem onBuffered_of_room {v : ValidatedEvent env room} (h : e.HasRoom v)
    (hlikely : e.park.contains v.eventId = true ∨ e.signerPlausible v = true) (missing : List EventId) :
    Parks v e (e.onBuffered v missing) := by
  unfold onBuffered
  dsimp only
  split_ifs with hdeep hunlikely
  · rcases h with hin | ⟨hshallow, -⟩
    · exact .refl hin
    · omega
  · rcases hlikely with hin | hlikely
    · exact .refl hin
    · rw [hlikely] at hunlikely
      cases hunlikely
  · have hparks := parkFrame_of_room h ((e.backfillDepth.get? v.eventId).getD 0) missing
    split
    · exact hparks
    · rename_i p hp
      obtain ⟨hchase, hpark⟩ := chase_quiet (e.parkFrame v ((e.backfillDepth.get? v.eventId).getD 0) missing) p.author
        ((e.backfillDepth.get? v.eventId).getD 0) missing
      refine ⟨hparks.quiet.trans hchase, ?_, ?_, ?_⟩
      · rw [hpark]
        exact hparks.parked
      · rw [hpark]
        exact hparks.kept
      · rw [hpark]
        exact hparks.only

theorem Synced.untouched (h : Synced skip e) (hq : Untouched e f)
    (hkeyed : ∀ id p, f.park.get? id = some p → p.event.eventId = id)
    (hpark : ∀ id, e.park.contains id = true → f.park.contains id = true) (hcurrent : e.Current → f.Current) :
    Synced skip f := by
  refine ⟨?_, ?_, ?_, ?_, ?_, hkeyed, ?_, ?_, ?_, ?_, ?_⟩
  · rw [hq.fold]
    exact h.settled
  · rw [hq.fold, hq.projection]
    exact h.generation
  · rw [hq.fold, snapshot, hq.projection]
    exact h.accurate
  · rw [hq.store]
    exact h.writes
  · rw [hq.retry]
    exact h.retry
  · rw [hq.store, hq.fold]
    exact h.stored
  · rw [hq.pendingBatch, hq.fold]
    exact h.pending
  · intro id hacc hskip
    rw [hq.fold] at hacc
    rw [hq.store, hq.pendingBatch]
    exact (h.accepted id hacc hskip).imp_right (Or.imp_right (hpark id))
  · intro id hwait hskip
    rw [hq.fold] at hwait
    exact hpark id (h.waiting id hwait hskip)
  · rw [hq.fold, hq.store]
    exact fun hall => hcurrent (h.current hall)

/-- With the park left alone. -/
theorem Synced.quiet (h : Synced skip e) (hq : Quiet e f) (hpark : f.park = e.park) : Synced skip f := by
  refine h.untouched hq.toUntouched ?_ ?_ hq.current
  · rw [hpark]
    exact h.keyed
  · rw [hpark]
    exact fun _ hid => hid

/-! ### Delivery -/

/-- A delivered event that has to wait has room in the park. -/
def Roomy (e : SyncEngine env sealing room) (v : ValidatedEvent env room) : Prop :=
  e.signerPlausible v = true → (∃ p ∈ v.event.prevEvents, e.fold.result p = none) → e.HasRoom v

theorem Synced.parks (h : Synced skip e) {v : ValidatedEvent env room} (hp : Parks v e f) : Synced skip f := by
  refine h.untouched hp.quiet.toUntouched (fun id p hget => ?_) hp.kept hp.quiet.current
  rcases hp.only id p hget with hold | ⟨rfl, rfl⟩
  · exact h.keyed id p hold
  · rfl

/-- An event that has to wait, with what the engine does for it before parking it. -/
theorem Synced.ingestFold_waiting (h : Synced (fun _ => False) e) {v : ValidatedEvent env room}
    (hnone : (e.fold.ingest v).result v.eventId = none) :
    (e.ingestFold v).membershipProjection = e.membershipProjection ∧
      (e.park.contains v.eventId = true ∨ ∃ p ∈ v.event.prevEvents, e.fold.result p = none) := by
  have hresult := RoomMembership.ingest_waiting h.settled.wf hnone
  refine ⟨?_, ?_⟩
  · have hgen : (e.fold.ingest v).membershipProjectionGeneration = e.fold.membershipProjectionGeneration := by
      by_contra hmoved
      obtain ⟨id, hacc, hold⟩ := (h.settled.ingest_advances v).moved hmoved
      obtain ⟨s, hs⟩ := RoomMembership.isAccepted_iff.mp hacc
      rw [hresult] at hs
      rw [RoomMembership.isAccepted_iff.mpr ⟨s, hs⟩] at hold
      cases hold
    rw [ingestFold_eq]
    dsimp only
    rw [if_pos (hgen.trans h.generation.symm)]
  · by_cases hknown : e.fold.nodes.contains v.eventId = true
    · exact Or.inl (h.waiting _ ⟨hknown, (hresult _).symm.trans hnone⟩ id)
    · have hevent : (e.fold.ingest v).event? v.eventId = some v.event := by
        rw [RoomMembership.ingest_event? h.settled.wf, if_pos rfl]
        cases hold : e.fold.event? v.eventId with
        | none => rfl
        | some w => exact absurd (RoomMembership.contains_iff_event?.mpr ⟨w, hold⟩) hknown
      obtain ⟨n, hn, hw⟩ := Option.map_eq_some_iff.mp hevent
      obtain ⟨p, hp, hpnone⟩ := (h.settled.ingest v).waiting_parent hn hnone
      rw [hw] at hp
      exact Or.inr ⟨p, hp, (hresult p).symm.trans hpnone⟩

/-- An accepted event joins the batch. -/
theorem Synced.queue {v : ValidatedEvent env room} (h : Synced (fun id => False ∨ id = v.eventId) e)
    (hacc : e.fold.isAccepted v.eventId = true) :
    Synced (fun _ => False) ({ e with
      backfillDepth := e.backfillDepth.erase v.eventId
      pendingBatch := e.pendingBatch ++ [v] } : SyncEngine env sealing room) := by
  refine ⟨h.settled, h.generation, h.accurate, h.writes, h.retry, h.keyed, h.stored, fun w hw => ?_,
    fun id hid _ => ?_, fun id hid _ => ?_, fun hall => (h.current hall).congr rfl rfl rfl ⟨rfl, rfl, rfl⟩⟩
  · rcases List.mem_append.mp hw with hold | hnew
    · exact h.pending w hold
    · rw [List.mem_singleton.mp hnew]
      exact hacc
  · by_cases hself : id = v.eventId
    · exact Or.inr (Or.inl ⟨v, List.mem_append_right _ (List.mem_singleton_self v), hself.symm⟩)
    · refine (h.accepted id hid fun hskip => hself (hskip.resolve_left not_false)).imp_right (Or.imp_left ?_)
      exact fun ⟨w, hw, hwid⟩ => ⟨w, List.mem_append_left _ hw, hwid⟩
  · refine h.waiting id hid fun hskip => ?_
    rw [hskip.resolve_left not_false] at hid
    exact RoomMembership.not_isWaiting_of_accepted hacc hid

/-- A rejected event is forgotten. -/
theorem Synced.forget {v : ValidatedEvent env room} (h : Synced (fun id => False ∨ id = v.eventId) e)
    (hresult : e.fold.result v.eventId ≠ none) (hrej : e.fold.isAccepted v.eventId = false) :
    Synced (fun _ => False) ({ e with
      backfillDepth := e.backfillDepth.erase v.eventId } : SyncEngine env sealing room) := by
  have hkept : Synced (fun _ => False) e := by
    refine h.narrow (fun id hid _ hacc => ?_) (fun id hid _ hwait => ?_)
    · rw [hid.resolve_left not_false, hrej] at hacc
      cases hacc
    · rw [hid.resolve_left not_false] at hwait
      exact absurd hwait.2 hresult
  exact hkept.quiet (.books ..) rfl

/-- An event that has to wait is parked, for a plausible one has room. -/
theorem Synced.buffer (h : Synced (fun _ => False) e) {v : ValidatedEvent env room} (hroomy : e.Roomy v)
    (hamplifies : ¬ (e.wouldBuffer v && !e.signerPlausible v) = true)
    (hnone : (e.fold.ingest v).result v.eventId = none) (missing : List EventId) :
    Synced (fun _ => False) ((e.ingestFold v).flushStoreBatch.onBuffered v missing) := by
  obtain ⟨hproj, hparked⟩ := h.ingestFold_waiting hnone
  have hfolded := h.ingestFold v
  obtain ⟨hl, -⟩ := flushStoreBatch_lands hfolded.writes hfolded.retry
  -- the flush leaves alone what the decision to park reads
  have hpark : (e.ingestFold v).flushStoreBatch.park = e.park := by
    rw [hl.park, ingestFold_eq]
  have hroom : e.HasRoom v → (e.ingestFold v).flushStoreBatch.HasRoom v := by
    unfold HasRoom
    rw [hpark, hl.backfillDepth, hl.config, ingestFold_eq]
    exact id
  have hlikely : (e.ingestFold v).flushStoreBatch.signerPlausible v = e.signerPlausible v := by
    unfold signerPlausible snapshot
    rw [hl.projection, hproj]
  have hparks : Parks v (e.ingestFold v).flushStoreBatch ((e.ingestFold v).flushStoreBatch.onBuffered v missing) := by
    rcases hparked with hin | ⟨p, hp, hpnone⟩
    · exact onBuffered_of_room (hroom (Or.inl hin)) (Or.inl (by rw [hpark]; exact hin)) missing
    · have hbuffers : e.wouldBuffer v = true := by
        refine List.any_eq_true.mpr ⟨p, hp, ?_⟩
        rw [Bool.not_eq_true', ← Bool.not_eq_true]
        exact fun hstored => RoomMembership.result_ne_none_of_accepted (h.stored p hstored) hpnone
      have hsigner : e.signerPlausible v = true := by
        by_contra hno
        rw [Bool.not_eq_true] at hno
        exact hamplifies (by rw [hbuffers, hno]; rfl)
      exact onBuffered_of_room (hroom (hroomy hsigner ⟨p, hp, hpnone⟩)) (Or.inr (hlikely.trans hsigner)) missing
  refine (hfolded.flushStoreBatch.1.parks hparks).narrow (fun id hid _ hacc => ?_) (fun id hid _ _ => ?_)
  · rw [hid.resolve_left not_false, hparks.quiet.fold, hl.fold, ingestFold_fold] at hacc
    exact absurd hnone (RoomMembership.result_ne_none_of_accepted hacc)
  · rw [hid.resolve_left not_false]
    exact hparks.parked

theorem Synced.deliver (h : Synced (fun _ => False) e) {v : ValidatedEvent env room} (hroomy : e.Roomy v) :
    Synced (fun _ => False) (e.deliver v) := by
  unfold SyncEngine.deliver
  split_ifs with hamplifies
  · exact h
  · have hfolded := h.ingestFold v
    dsimp only
    split
    · rename_i id flags hout
      have hqueued := hfolded.queue (RoomMembership.outcome_accepted hout)
      split_ifs
      · exact hqueued.flushStoreBatch.1
      · exact hqueued
    · rename_i id missing hout
      have hnone := RoomMembership.outcome_buffered hout
      rw [ingestFold_fold] at hnone
      exact h.buffer hroomy hamplifies hnone missing
    · rename_i id reason hout
      obtain ⟨hresult, hrej⟩ := RoomMembership.outcome_rejected hout
      exact (hfolded.forget hresult hrej).flushStoreBatch.1

end SyncEngine

end IrohRooms
