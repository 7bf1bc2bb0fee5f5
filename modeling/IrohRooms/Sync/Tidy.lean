import IrohRooms.Store.Rebuild
import IrohRooms.Sync.Batch
import IrohRooms.Sync.Projection

/-!
# Books in order

What makes a hit in the cache harmless: a cached id is stored and judged by the fold, and no id that is stored or about
to be is still looked for (`Tidy`). Every function of the engine keeps it as long as the writes succeed, and an engine
opened on a store of the room starts with it, since the rows the cache is filled from are placed and a placed row is
judged.
-/

namespace IrohRooms

variable {env : Env} {sealing : Sealing} {room : RoomId}

/-! ### The cache -/

namespace EventIdDedupCache

variable {c : EventIdDedupCache} {id j : EventId}

theorem contains_insert (h : (c.insert j).contains id = true) : c.contains id = true ∨ id = j := by
  unfold insert at h
  split_ifs at h with hskip
  · exact Or.inl h
  · simp only [contains, Bool.and_eq_true, decide_eq_true_eq, List.mem_append, List.mem_singleton] at h ⊢
    obtain ⟨hcap, hmem | hnew⟩ := h
    · exact Or.inl ⟨hcap, List.mem_of_mem_drop hmem⟩
    · exact Or.inr hnew

theorem contains_foldl (ids : List EventId) (h : (ids.foldl insert c).contains id = true) :
    c.contains id = true ∨ id ∈ ids := by
  induction ids generalizing c with
  | nil => exact Or.inl h
  | cons j ids ih =>
    rcases ih h with hone | hmem
    · rcases contains_insert hone with hold | rfl
      · exact Or.inl hold
      · exact Or.inr List.mem_cons_self
    · exact Or.inr (List.mem_cons_of_mem _ hmem)

end EventIdDedupCache

namespace SyncEngine

variable {e f g : SyncEngine env sealing room}

theorem foldl_applyLanded_cache (l : List (ValidatedEvent env room × InsertOutcome)) (e : SyncEngine env sealing room) :
    (l.foldl applyLanded e).dedupCache = (l.map fun p => p.1.eventId).foldl EventIdDedupCache.insert e.dedupCache := by
  induction l generalizing e with
  | nil => rfl
  | cons p l ih =>
    have hone : (e.applyLanded p).dedupCache = e.dedupCache.insert p.1.eventId := by
      obtain ⟨v, outcome⟩ := p
      cases outcome <;> rfl
    rw [List.foldl_cons, ih, hone]
    rfl

/-- A flush caches nothing but the batch. -/
theorem flushStoreBatch_cache (hw : e.store.writes = []) {id : EventId}
    (h : e.flushStoreBatch.dedupCache.contains id = true) :
    e.dedupCache.contains id = true ∨ ∃ v ∈ e.pendingBatch, v.eventId = id := by
  unfold flushStoreBatch at h
  split_ifs at h
  · exact Or.inl h
  · dsimp only at h
    rw [EventStore.insertAllOutcomes_of_writes hw] at h
    dsimp only at h
    rw [foldl_applyLanded_cache] at h
    rcases EventIdDedupCache.contains_foldl _ h with hold | hmem
    · exact Or.inl hold
    · obtain ⟨p, hp, rfl⟩ := List.mem_map.mp hmem
      exact Or.inr ⟨p.1, (List.of_mem_zip hp).1, rfl⟩

/-! ### The books of the park -/

/-- Nothing but the books differs: what is parked anew is kept under its id, and what is looked for anew is not
stored. -/
structure Shelves (e f : SyncEngine env sealing room) : Prop extends Untouched e f where
  cache : f.dedupCache = e.dedupCache
  parked : ∀ id p, f.park.get? id = some p → e.park.get? id = some p ∨ p.event.eventId = id
  sought : ∀ id, f.backfillDepth.contains id = true → e.backfillDepth.contains id = true ∨ e.store.contains id = false

/-- What is kept beside the store, the fold and the books. -/
theorem Shelves.aside (e : SyncEngine env sealing room) (peers : OrdSet PeerId) (restoredBackfill : OrdSet EventId)
    (tokens : OrdMap IdentityKey Nat) (suspectTip : Option SuspectTip) (completeness : Completeness)
    (failClosed : OrdSet IdentityKey) (keyRing : KeyRing) :
    Shelves e { e with
      peers := peers, restoredBackfill := restoredBackfill, tokens := tokens, suspectTip := suspectTip,
      completeness := completeness, failClosed := failClosed, keyRing := keyRing } :=
  ⟨⟨rfl, rfl, rfl, rfl, rfl, rfl⟩, rfl, fun _ _ hp => Or.inl hp, fun _ hid => Or.inl hid⟩

theorem Shelves.refl (e : SyncEngine env sealing room) : Shelves e e := .aside ..

theorem Shelves.trans (h : Shelves e f) (h' : Shelves f g) : Shelves e g := by
  refine ⟨⟨h'.config.trans h.config, h'.fold.trans h.fold, h'.projection.trans h.projection, h'.store.trans h.store,
    h'.retry.trans h.retry, h'.pendingBatch.trans h.pendingBatch⟩, h'.cache.trans h.cache, fun id p hp => ?_,
    fun id hid => ?_⟩
  · rcases h'.parked id p hp with hold | hkey
    · exact h.parked id p hold
    · exact Or.inr hkey
  · rcases h'.sought id hid with hold | hnew
    · exact h.sought id hold
    · rw [h.store] at hnew
      exact Or.inr hnew

theorem foldl_shelves {α : Type} {step : SyncEngine env sealing room → α → SyncEngine env sealing room}
    (hstep : ∀ e a, Shelves e (step e a)) (l : List α) (e : SyncEngine env sealing room) :
    Shelves e (l.foldl step e) := by
  induction l generalizing e with
  | nil => exact .refl e
  | cons a l ih => exact (hstep e a).trans (ih _)

theorem contains_erase {ν : Type} {m : OrdMap EventId ν} {id j : EventId} (h : (m.erase j).contains id = true) :
    id ≠ j ∧ m.contains id = true := by
  unfold OrdMap.contains at h
  rw [OrdMap.get?_erase] at h
  split_ifs at h with hj
  · cases h
  · exact ⟨hj, h⟩

theorem evictParked_shelves (e : SyncEngine env sealing room) (id : EventId) : Shelves e (e.evictParked id) := by
  refine ⟨⟨rfl, rfl, rfl, rfl, rfl, rfl⟩, rfl, fun j p hp => ?_, fun j hj => Or.inl (contains_erase hj).2⟩
  rw [evictParked, OrdMap.get?_erase] at hp
  split_ifs at hp
  exact Or.inl hp

theorem enforceTotal_shelves (fuel : Nat) (e : SyncEngine env sealing room) : Shelves e (enforceTotal fuel e) := by
  induction fuel generalizing e with
  | zero => exact .refl e
  | succ fuel ih =>
    unfold enforceTotal
    split_ifs
    · split
      · exact (e.evictParked_shelves _).trans (ih _)
      · exact .refl e
    · exact .refl e

theorem enforceAuthor_shelves (e : SyncEngine env sealing room) (author : IdentityKey) :
    Shelves e (e.enforceAuthor author) := by
  unfold enforceAuthor
  split_ifs
  · split
    · exact e.evictParked_shelves _
    · exact .refl e
  · exact .refl e

theorem parkFrame_shelves (e : SyncEngine env sealing room) (v : ValidatedEvent env room) (depth : Nat)
    (missing : List EventId) : Shelves e (e.parkFrame v depth missing) := by
  unfold parkFrame
  split_ifs
  · exact .refl e
  · have hcapped := (enforceTotal_shelves (e.park.entries.length + 1) e).trans
      (enforceAuthor_shelves (enforceTotal (e.park.entries.length + 1) e) v.event.senderId)
    refine hcapped.trans ⟨⟨rfl, rfl, rfl, rfl, rfl, rfl⟩, rfl, fun id p hp => ?_, fun _ hid => Or.inl hid⟩
    dsimp only at hp
    rw [OrdMap.get?_insert] at hp
    split_ifs at hp with hid
    · rw [← Option.some.inj hp, hid]
      exact Or.inr rfl
    · exact Or.inl hp

theorem chase_shelves (e : SyncEngine env sealing room) (author : IdentityKey) (depth : Nat) (missing : List EventId) :
    Shelves e (e.chase author depth missing) := by
  have hdepth : ∀ (ids : List EventId) (d : OrdMap EventId Nat) (id : EventId),
      (ids.foldl (fun d m => if d.contains m then d else d.insert m (depth + 1)) d).contains id = true →
        d.contains id = true ∨ id ∈ ids := by
    intro ids
    induction ids with
    | nil => exact fun _ _ h => Or.inl h
    | cons m ids ih =>
      intro d id h
      rcases ih _ id h with hone | hmem
      · dsimp only at hone
        split_ifs at hone
        · exact Or.inl hone
        · unfold OrdMap.contains at hone
          rw [OrdMap.get?_insert] at hone
          split_ifs at hone with hm
          · exact Or.inr (hm ▸ List.mem_cons_self)
          · exact Or.inl hone
      · exact Or.inr (List.mem_cons_of_mem _ hmem)
  unfold chase takeBackfillToken
  dsimp only
  split_ifs
  · exact .refl e
  · refine ⟨⟨rfl, rfl, rfl, rfl, rfl, rfl⟩, rfl, fun _ _ hp => Or.inl hp, fun id hid => ?_⟩
    rcases hdepth _ _ id hid with hold | hnew
    · exact Or.inl hold
    · -- what is chased was not stored
      have hworth := (List.mem_filter.mp hnew).2
      rw [worthBackfilling, Bool.and_eq_true, Bool.not_eq_true'] at hworth
      exact Or.inr hworth.1
  · exact .aside ..

theorem onBuffered_shelves (e : SyncEngine env sealing room) (v : ValidatedEvent env room) (missing : List EventId) :
    Shelves e (e.onBuffered v missing) := by
  unfold onBuffered
  dsimp only
  split_ifs
  · exact .refl e
  · exact .refl e
  · have hparked := e.parkFrame_shelves v ((e.backfillDepth.get? v.eventId).getD 0) missing
    split
    · exact hparked
    · exact hparked.trans (chase_shelves _ _ _ _)

theorem retryRestoredPark_shelves (e : SyncEngine env sealing room) : Shelves e e.retryRestoredPark := by
  have hone : ∀ (e : SyncEngine env sealing room) id, Shelves e (e.retryRestoredOne id) := by
    intro e id
    have hcleared : Shelves e { e with restoredBackfill := OrdMap.erase e.restoredBackfill id } :=
      .aside ..
    unfold retryRestoredOne
    dsimp only
    split
    · exact hcleared
    · exact hcleared.trans (chase_shelves _ _ _ _)
  unfold retryRestoredPark
  split_ifs
  · exact .refl e
  · exact foldl_shelves hone _ e

theorem handleAdminTip_shelves (e : SyncEngine env sealing room) (tip : Option (EventId × Nat)) :
    Shelves e (e.handleAdminTip tip) := by
  have harmed : ∀ id seq, Shelves e (e.armSuspectTip id seq) := by
    intro id seq
    unfold armSuspectTip
    dsimp only
    split_ifs
    · exact .aside ..
    · exact .refl e
  have hrecomputed : ∀ f : SyncEngine env sealing room, Shelves f f.recomputeCompleteness := fun _ =>
    .aside ..
  unfold handleAdminTip
  refine Shelves.trans ?_ (hrecomputed _)
  split
  · split_ifs
    · exact harmed _ _
    · exact .refl e
  · exact .refl e

theorem expireSuspectTip_shelves (e : SyncEngine env sealing room) : Shelves e e.expireSuspectTip := by
  unfold expireSuspectTip
  split
  · exact .refl e
  · split_ifs
    · exact .aside ..
    · exact .aside ..

theorem adoptKeyHistory_shelves (chunks : List KeyHistoryChunk) (e : SyncEngine env sealing room) :
    Shelves e (chunks.foldl adoptKeyHistoryChunk e) := by
  have hone : ∀ (e : SyncEngine env sealing room) c, Shelves e (e.adoptKeyHistoryChunk c) := fun _ _ =>
    .aside ..
  exact foldl_shelves hone chunks e

/-! ### The invariant -/

/-- The writes succeed, parked frames are kept under their ids, cached ids are stored and judged, and what is looked
for is neither stored nor about to be. -/
structure Tidy (e : SyncEngine env sealing room) : Prop where
  writes : e.store.writes = []
  retry : e.storeRetry = .empty
  fresh : e.Fresh
  keyed : ∀ id p, e.park.get? id = some p → p.event.eventId = id
  pending : ∀ v ∈ e.pendingBatch, e.fold.result v.eventId ≠ none ∧ e.backfillDepth.contains v.eventId = false
  seen : ∀ id, e.dedupCache.contains id = true → e.store.contains id = true ∧ e.fold.result id ≠ none
  sought : ∀ id, e.backfillDepth.contains id = true → e.store.contains id = false

/-- Between calls nothing waits to be committed. -/
structure Rested (e : SyncEngine env sealing room) : Prop extends Tidy e where
  idle : e.pendingBatch = []

theorem Rested.shelves (h : e.Rested) (hs : Shelves e f) : f.Rested := by
  have hidle : f.pendingBatch = [] := hs.pendingBatch.trans h.idle
  refine ⟨⟨?_, hs.retry.trans h.retry, h.fresh.view ⟨hs.fold, hs.projection⟩, fun id p hp => ?_, ?_, ?_,
    fun id hid => ?_⟩, hidle⟩
  · rw [hs.store]
    exact h.writes
  · rcases hs.parked id p hp with hold | hkey
    · exact h.keyed id p hold
    · exact hkey
  · rw [hidle]
    exact fun v hv => absurd hv List.not_mem_nil
  · rw [hs.cache, hs.store, hs.fold]
    exact h.seen
  · rw [hs.store]
    rcases hs.sought id hid with hold | hnew
    · exact h.sought id hold
    · exact hnew

/-- Committing judged events that are not looked for. -/
theorem Tidy.commits (h : e.Tidy) {vs : List (ValidatedEvent env room)}
    (hvs : ∀ v ∈ vs, e.fold.result v.eventId ≠ none ∧ e.backfillDepth.contains v.eventId = false)
    (hf : Alike (e.committed vs) f)
    (hcache : ∀ id, f.dedupCache.contains id = true → e.dedupCache.contains id = true ∨ ∃ v ∈ vs, v.eventId = id) :
    f.Rested := by
  obtain ⟨hwrites, -, hcontains, -⟩ := EventStore.insertAllInTx_spec vs e.store
  have hfold : f.fold = e.fold := hf.fold
  have hstore : f.store = (EventStore.insertAllInTx e.store vs).1 := hf.store
  have hview : SameView e f := by
    obtain ⟨x, rfl⟩ := hf
    exact ⟨rfl, rfl⟩
  have hidle : f.pendingBatch = [] := hf.pendingBatch
  have hdepth : f.backfillDepth = e.backfillDepth := by
    obtain ⟨x, rfl⟩ := hf
    rfl
  have hretry : f.storeRetry = e.storeRetry := by
    obtain ⟨x, rfl⟩ := hf
    rfl
  refine ⟨⟨?_, hretry.trans h.retry, h.fresh.view hview, ?_, ?_, fun id hid => ?_, fun id hid => ?_⟩, hidle⟩
  · rw [hstore, hwrites]
    exact h.writes
  · rw [hf.park]
    exact h.keyed
  · rw [hidle]
    exact fun v hv => absurd hv List.not_mem_nil
  · rw [hstore, hfold, hcontains]
    rcases hcache id hid with hold | ⟨v, hv, rfl⟩
    · obtain ⟨hstored, hjudged⟩ := h.seen id hold
      exact ⟨Or.inl hstored, hjudged⟩
    · exact ⟨Or.inr ⟨v, hv, rfl⟩, (hvs v hv).1⟩
  · rw [hdepth] at hid
    rw [← Bool.not_eq_true, hstore, hcontains]
    rintro (hold | ⟨v, hv, rfl⟩)
    · rw [h.sought id hid] at hold
      cases hold
    · rw [(hvs v hv).2] at hid
      cases hid

theorem Tidy.flushStoreBatch (h : e.Tidy) : e.flushStoreBatch.Rested :=
  h.commits h.pending (committed_flushStoreBatch h.writes h.retry) fun _ => flushStoreBatch_cache h.writes

/-- Storing one event by itself commits it. -/
theorem storeAndFanout_committed (hw : e.store.writes = []) (hr : e.storeRetry = .empty) (hidle : e.pendingBatch = [])
    (v : ValidatedEvent env room) : Alike (e.committed [v]) (e.storeAndFanout v) := by
  have hinsert : e.store.insert v = ((e.store.insertInTx v).1, some (e.store.insertInTx v).2) := by
    unfold EventStore.insert EventStore.beginWrite
    rw [hw]
    rfl
  have hlanded := foldl_applyLanded
    (e := ({ e with store := (e.store.insertInTx v).1 } : SyncEngine env sealing room))
    [(v, (e.store.insertInTx v).2)] hr
  have hsame : ({ e with pendingBatch := [] } : SyncEngine env sealing room) = e := by rw [← hidle]
  have hcommitted : e.committed [v] = landing ({ e with
      store := (e.store.insertInTx v).1 } : SyncEngine env sealing room) [(v, (e.store.insertInTx v).2)] := by
    show landing ({ ({ e with pendingBatch := [] } : SyncEngine env sealing room) with
      store := (e.store.insertInTx v).1 } : SyncEngine env sealing room) [(v, (e.store.insertInTx v).2)] = _
    rw [hsame]
  unfold storeAndFanout
  rw [hinsert, hcommitted]
  exact hlanded

theorem storeAndFanout_cache (hw : e.store.writes = []) {v : ValidatedEvent env room} {id : EventId}
    (h : (e.storeAndFanout v).dedupCache.contains id = true) : e.dedupCache.contains id = true ∨ id = v.eventId := by
  apply EventIdDedupCache.contains_insert
  unfold storeAndFanout EventStore.insert EventStore.beginWrite at h
  rw [hw] at h
  dsimp only at h
  cases hout : (e.store.insertInTx v).2 with
  | inserted =>
    rw [hout] at h
    exact h
  | duplicate =>
    rw [hout] at h
    exact h

theorem Rested.storeAndFanout (h : e.Rested) {v : ValidatedEvent env room} (hjudged : e.fold.result v.eventId ≠ none)
    (hdepth : e.backfillDepth.contains v.eventId = false) : (e.storeAndFanout v).Rested := by
  have hcommitted : Alike (e.committed [v]) (e.storeAndFanout v) :=
    storeAndFanout_committed h.writes h.retry h.idle v
  refine h.commits (fun w hw => ?_) hcommitted fun id hid => ?_
  · rw [List.mem_singleton.mp hw]
    exact ⟨hjudged, hdepth⟩
  · exact (storeAndFanout_cache h.writes hid).imp_right fun heq => ⟨v, List.mem_singleton_self v, heq.symm⟩

theorem Tidy.ingestFold (h : e.Tidy) (v : ValidatedEvent env room) : (e.ingestFold v).Tidy := by
  have hkeep : ∀ id, e.fold.result id ≠ none → (e.fold.ingest v).result id ≠ none := by
    intro id hid
    rw [h.fresh.settled.ingest_result v hid]
    exact hid
  have hfresh := h.fresh.ingestFold v
  rw [ingestFold_eq] at hfresh ⊢
  exact ⟨h.writes, h.retry, hfresh, h.keyed, fun w hw => (h.pending w hw).imp_left (hkeep w.eventId),
    fun id hid => (h.seen id hid).imp_right (hkeep id), h.sought⟩

theorem Tidy.unsought (h : e.Tidy) (v : ValidatedEvent env room) : (e.unsought v).Tidy := by
  refine ⟨h.writes, h.retry, h.fresh.view ⟨rfl, rfl⟩, h.keyed, fun w hw => ?_, h.seen, fun id hid => ?_⟩
  · refine (h.pending w hw).imp_right fun hno => ?_
    rw [← Bool.not_eq_true] at hno ⊢
    exact fun hin => hno (contains_erase hin).2
  · exact h.sought id (contains_erase hid).2

theorem Tidy.queued (h : e.Tidy) {v : ValidatedEvent env room} (hjudged : e.fold.result v.eventId ≠ none) :
    (e.queued v).Tidy := by
  have hclear := h.unsought v
  refine ⟨h.writes, h.retry, h.fresh.view ⟨rfl, rfl⟩, h.keyed, fun w hw => ?_, h.seen, hclear.sought⟩
  rcases List.mem_append.mp hw with hold | hnew
  · exact hclear.pending w hold
  · rw [List.mem_singleton.mp hnew]
    refine ⟨hjudged, ?_⟩
    rw [← Bool.not_eq_true]
    exact fun hin => (contains_erase hin).1 rfl

/-- An event the fold reports accepted is judged. -/
theorem result_of_accepted {m : RoomMembership env room} {id id' : EventId} {flags : List Flag}
    (h : m.outcome id = .accepted id' flags) : m.result id ≠ none :=
  RoomMembership.result_ne_none_of_accepted (RoomMembership.outcome_accepted h)

theorem Tidy.enter (h : e.Tidy) (v : ValidatedEvent env room) : (e.enter v).Tidy := by
  have hfolded := h.ingestFold v
  unfold SyncEngine.enter
  dsimp only
  split
  · rename_i hout
    have hqueued := hfolded.queued (result_of_accepted hout)
    split_ifs
    · exact hqueued.flushStoreBatch.toTidy
    · exact hqueued
  · exact (hfolded.flushStoreBatch.shelves (onBuffered_shelves _ v _)).toTidy
  · exact (hfolded.unsought v).flushStoreBatch.toTidy

theorem Tidy.deliver (h : e.Tidy) (v : ValidatedEvent env room) : (e.deliver v).Tidy := by
  rw [deliver_eq]
  split_ifs
  · exact h
  · exact h.enter v

theorem Tidy.deliverFrame (h : e.Tidy) (frame : Frame) : (e.deliverFrame frame).Tidy := by
  unfold SyncEngine.deliverFrame
  split_ifs
  · exact h
  · split
    · exact h.deliver _
    · exact h

/-! ### The park -/

theorem Rested.ingestFold (h : e.Rested) (v : ValidatedEvent env room) : (e.ingestFold v).Rested :=
  ⟨h.toTidy.ingestFold v, (e.ingestFold_books v).2.2.trans h.idle⟩

theorem Rested.wakeOne {st : SyncEngine env sealing room × Bool} (h : st.1.Rested) (id : EventId) :
    (SyncEngine.wakeOne st id).1.Rested := by
  unfold SyncEngine.wakeOne
  split
  · exact h
  · rename_i p hp
    have hfolded := h.ingestFold p.event
    have hevicted := hfolded.shelves (evictParked_shelves _ id)
    dsimp only
    split
    · rename_i hout
      refine hevicted.storeAndFanout (result_of_accepted hout) ?_
      rw [← Bool.not_eq_true, h.keyed id p hp]
      exact fun hin => (contains_erase hin).1 rfl
    · exact hevicted
    · exact hfolded

theorem Rested.wakeParkLoop (fuel : Nat) (h : e.Rested) : (SyncEngine.wakeParkLoop fuel e).Rested := by
  induction fuel generalizing e with
  | zero => exact h
  | succ fuel ih =>
    have hpass : (e.park.keys.foldl SyncEngine.wakeOne (e, false)).1.Rested :=
      List.foldlRecOn (motive := fun st : SyncEngine env sealing room × Bool => st.1.Rested) _ _ h
        fun _ hst id _ => hst.wakeOne id
    unfold SyncEngine.wakeParkLoop
    dsimp only
    split_ifs
    · exact ih hpass
    · exact hpass

theorem Tidy.finalizeDelivery (h : e.Tidy) : e.finalizeDelivery.Rested :=
  (h.flushStoreBatch.wakeParkLoop _).flushStoreBatch

theorem Rested.onTick (h : e.Rested) : e.onTick.Rested := by
  have hrefilled : Shelves e e.refillTokens := .aside ..
  have hexpired := (h.shelves hrefilled).shelves (expireSuspectTip_shelves _)
  unfold SyncEngine.onTick
  rw [retryStore_of_empty hexpired.retry]
  have hwoken := hexpired.wakeParkLoop (e.refillTokens.expireSuspectTip.park.entries.length + 1)
  refine Rested.shelves (hwoken.shelves ?_) (retryRestoredPark_shelves _)
  have hone : ∀ (e : SyncEngine env sealing room) (p : IdentityKey × Nat × List EventId),
      Shelves e (e.chase p.1 p.2.1 p.2.2) := fun e p => e.chase_shelves p.1 p.2.1 p.2.2
  exact foldl_shelves hone _ _

/-- The books are in order after every call. -/
theorem Rested.step (h : e.Rested) (input : Input) : (e.step input).Rested := by
  have hframes : ∀ frames : List Frame, (frames.foldl SyncEngine.deliverFrame e).Tidy := fun frames =>
    List.foldlRecOn _ _ h.toTidy fun _ hst frame _ => hst.deliverFrame frame
  cases input with
  | ingestFrame frame => exact (h.toTidy.deliverFrame frame).finalizeDelivery
  | publish frame =>
    simp only [SyncEngine.step]
    split
    · rename_i e' hok
      obtain ⟨v, -, rfl⟩ := publish_ok hok
      exact (h.toTidy.deliver v).finalizeDelivery
    · exact h
  | onConnect peer =>
    have hjoined : Shelves e { e with peers := e.peers.add peer } :=
      .aside ..
    exact (h.shelves hjoined).shelves (retryRestoredPark_shelves _)
  | onDisconnect peer => exact h.shelves (.aside ..)
  | onMessage msgRoom msg =>
    simp only [SyncEngine.step, SyncEngine.onMessage]
    split_ifs
    · exact h
    · apply Tidy.finalizeDelivery
      cases msg with
      | adminTip tip => exact (h.shelves (handleAdminTip_shelves e tip)).toTidy
      | events frames => exact hframes frames
      | terminalEvents frames => exact hframes frames
      | keyHistory chunks => exact (h.shelves (adoptKeyHistory_shelves chunks e)).toTidy
      | other => exact h.toTidy
  | onTick => exact h.onTick
  | insertRoomKey epoch key => exact h.shelves (.aside ..)

/-! ### The start -/

/-- The refold holds each placed row's event under its id. -/
theorem refold_event? {s : EventStore env room} {row : Row env room} (h : row ∈ s.roomTail) :
    (RoomMembership.fromEvents (s.roomTail.map Row.event)).event? row.event.eventId = some row.event.event := by
  apply (RoomMembership.fromEvents_event?_iff fun v hv w hw hid => ?_).mpr
  · exact ⟨row.event, List.mem_map_of_mem h, rfl, rfl⟩
  · obtain ⟨r, hr, rfl⟩ := List.mem_map.mp hv
    obtain ⟨t, ht, rfl⟩ := List.mem_map.mp hw
    have hrow := (EventStore.mem_roomTail.mp hr).1
    rw [hid, (EventStore.mem_roomTail.mp ht).1] at hrow
    rw [Option.some.inj hrow]

/-- The refold judges every placed row: its parents are placed below it. -/
theorem refold_judges {s : EventStore env room} (h : s.Consistent) (n : Nat) : ∀ id, s.lamportOf id = some n →
    (RoomMembership.fromEvents (s.roomTail.map Row.event)).result id ≠ none := by
  have hsettled := RoomMembership.settled_fromEvents (s.roomTail.map Row.event)
  induction n using Nat.strong_induction_on with
  | _ n ih =>
    intro id hid hnone
    obtain ⟨row, hrow, hlamport⟩ := Option.bind_eq_some_iff.mp hid
    have hkey := s.keyed id row hrow
    have hevent := refold_event? (EventStore.mem_roomTail.mpr ⟨hkey ▸ hrow, Option.isSome_of_eq_some hlamport⟩)
    rw [hkey, RoomMembership.event?, Option.map_eq_some_iff] at hevent
    obtain ⟨node, hnode, hsame⟩ := hevent
    obtain ⟨p, hp, hwait⟩ := hsettled.waiting_parent hnode hnone
    rw [hsame] at hp
    cases hgenesis : row.isGenesis with
    | true =>
      rw [(EventStore.isGenesis_iff row).mp hgenesis] at hp
      exact List.not_mem_nil hp
    | false =>
      obtain ⟨l, hl, hlt⟩ := ((h.lamportOf_iff hrow hgenesis).mp hid).1 p hp
      exact ih l (by omega) p hl hwait

theorem rested_restore {store : EventStore env room} {tables : SyncTables env room} (hw : store.writes = [])
    (hs : store.Consistent) (hparked : ∀ id p, tables.parked.get? id = some p → p.event.eventId = id)
    (config : SyncConfig) (seed : Option SigningKey) :
    (restore config seed store tables : SyncEngine env sealing room).Rested := by
  refine ⟨⟨hw, rfl, fresh_restore _ _ _ _, hparked, fun v hv => absurd hv List.not_mem_nil, fun id hid => ?_,
    fun id hid => ?_⟩, rfl⟩
  · rcases EventIdDedupCache.contains_foldl _ hid with hempty | hmem
    · simp [EventIdDedupCache.contains] at hempty
    · rw [List.mem_map] at hmem
      obtain ⟨v, hv, rfl⟩ := hmem
      obtain ⟨row, hrow, rfl⟩ := List.mem_map.mp hv
      obtain ⟨hget, hplaced⟩ := EventStore.mem_roomTail.mp hrow
      obtain ⟨n, hn⟩ := Option.isSome_iff_exists.mp hplaced
      refine ⟨EventStore.contains_iff.mpr ⟨row, hget⟩, refold_judges hs n _ ?_⟩
      rw [EventStore.lamportOf, hget, Option.bind_some, hn]
  · cases hid

end SyncEngine

end IrohRooms
