import IrohRooms.Sync.Alike
import IrohRooms.Sync.Vigilance

/-!
# Batches of accepted events

Accepted events wait in a batch until it is full or the call ends. What a batch leaves is what its events would have
left one by one (`committed_append`): the suspicion, which is looked at once for each inserted event, is dropped in the
end exactly when the last look drops it, since a store never falls behind again. So a delivery can be followed in the
engine whose batch is committed: there it takes one canonical step (`enter_settles`).
-/

namespace IrohRooms

variable {env : Env} {sealing : Sealing} {room : RoomId}

/-! ### Stores whose writes succeed -/

namespace EventStore

variable {s : EventStore env room}

theorem insertAllOutcomes_of_writes (h : s.writes = []) (vs : List (ValidatedEvent env room)) :
    s.insertAllOutcomes vs = ((insertAllInTx s vs).1, some (insertAllInTx s vs).2) := by
  unfold insertAllOutcomes beginWrite
  rw [h]
  rfl

theorem insertAllInTx_append (vs ws : List (ValidatedEvent env room)) (s : EventStore env room) :
    insertAllInTx s (vs ++ ws) = ((insertAllInTx (insertAllInTx s vs).1 ws).1,
      (insertAllInTx s vs).2 ++ (insertAllInTx (insertAllInTx s vs).1 ws).2) := by
  induction vs generalizing s with
  | nil => rfl
  | cons v vs ih =>
    simp only [List.cons_append, insertAllInTx, ih]

theorem length_insertAllInTx (vs : List (ValidatedEvent env room)) (s : EventStore env room) :
    (insertAllInTx s vs).2.length = vs.length := (insertAllInTx_spec vs s).2.1

theorem zip_insertAllInTx_append (vs ws : List (ValidatedEvent env room)) (s : EventStore env room) :
    (vs ++ ws).zip (insertAllInTx s (vs ++ ws)).2 =
      vs.zip (insertAllInTx s vs).2 ++ ws.zip (insertAllInTx (insertAllInTx s vs).1 ws).2 := by
  rw [insertAllInTx_append, List.zip_append (length_insertAllInTx vs s).symm]

/-- The tip is ahead of the stored admin chain and its event is not stored. -/
def aheadOf (s : EventStore env room) (t : SuspectTip) : Bool :=
  (match s.adminChainTip with
    | none => true
    | some tip => decide (t.seq > tip.2)) && !s.contains t.id

/-- The suspicion, unless the store has caught up with it. -/
def unspent (s : EventStore env room) (tip : Option SuspectTip) : Option SuspectTip := tip.filter s.aheadOf

end EventStore

namespace SyncEngine

variable (e : SyncEngine env sealing room)

/-! ### Committing -/

def unspent : Option SuspectTip := e.store.unspent e.suspectTip

/-- The ring after one landed event. -/
def adoptLanded (ring : KeyRing) (landed : ValidatedEvent env room × InsertOutcome) : KeyRing :=
  if landed.2 = .inserted then
    ring.adoptKeyFromEvent env sealing room e.localDeviceSeed landed.1.eventId landed.1.event.content
  else ring

/-- Something was inserted. -/
def anyInserted (l : List (ValidatedEvent env room × InsertOutcome)) : Bool := l.any fun p => p.2 == .inserted

/-- The books after landed events, the hidden parts apart. -/
def landing (l : List (ValidatedEvent env room × InsertOutcome)) : SyncEngine env sealing room :=
  { e with
    keyRing := l.foldl e.adoptLanded e.keyRing
    suspectTip := if anyInserted l then e.unspent else e.suspectTip }

/-- Events with the outcomes of their inserts. -/
def landedBy (vs : List (ValidatedEvent env room)) : List (ValidatedEvent env room × InsertOutcome) :=
  vs.zip (EventStore.insertAllInTx e.store vs).2

/-- The engine with events committed, the hidden parts apart. -/
def committed (vs : List (ValidatedEvent env room)) : SyncEngine env sealing room :=
  landing { e with
    pendingBatch := []
    store := (EventStore.insertAllInTx e.store vs).1 } (e.landedBy vs)

variable {e} {a b : SyncEngine env sealing room} {W : Universe}

theorem unspent_eq (e : SyncEngine env sealing room) : e.unspent = if e.stillBehind then e.suspectTip else none := by
  unfold unspent stillBehind
  cases e.suspectTip with
  | none => rfl
  | some t => exact Option.filter_some

theorem recomputeCompleteness_unspent (e : SyncEngine env sealing room) :
    e.recomputeCompleteness.suspectTip = e.unspent ∧ e.recomputeCompleteness.unspent = e.unspent := by
  have htip : e.recomputeCompleteness.suspectTip = e.unspent := by
    rw [unspent_eq]
    rfl
  refine ⟨htip, ?_⟩
  rw [unspent_eq, recomputeCompleteness_stillBehind, htip, unspent_eq]
  split_ifs <;> rfl

theorem Alike.landing (h : Alike a b) (l : List (ValidatedEvent env room × InsertOutcome)) :
    Alike (a.landing l) (b.landing l) := by
  obtain ⟨x, rfl⟩ := h
  exact ⟨x, rfl⟩

theorem foldl_applyLanded (l : List (ValidatedEvent env room × InsertOutcome)) (hr : e.storeRetry = .empty) :
    Alike (e.landing l) (l.foldl applyLanded e) := by
  induction l generalizing e with
  | nil => exact .refl e
  | cons p l ih =>
    obtain ⟨v, outcome⟩ := p
    have hretry : e.storeRetry.erase v.eventId = e.storeRetry := by
      rw [hr]
      rfl
    cases outcome with
    | duplicate =>
      -- a duplicate is noted in the cache alone
      have hone : Alike e (e.applyLanded (v, .duplicate)) := by
        unfold applyLanded
        dsimp only
        rw [hretry]
        exact ⟨{ e.hidden with dedupCache := e.dedupCache.insert v.eventId }, rfl⟩
      have hr' : (e.applyLanded (v, .duplicate)).storeRetry = .empty := hretry.trans hr
      exact (hone.landing l).trans (ih hr')
    | inserted =>
      have hr' : (e.applyLanded (v, .inserted)).storeRetry = .empty := hretry.trans hr
      refine Alike.trans ?_ (ih hr')
      -- what the first one leaves, the later ones look at again
      have hone : e.applyLanded (v, .inserted) = recomputeCompleteness ({ e with
          dedupCache := e.dedupCache.insert v.eventId
          keyRing := e.adoptLanded e.keyRing (v, .inserted) } : SyncEngine env sealing room) := by
        unfold applyLanded
        dsimp only
        rw [hretry]
        rfl
      obtain ⟨htip, hunspent⟩ := recomputeCompleteness_unspent ({ e with
          dedupCache := e.dedupCache.insert v.eventId
          keyRing := e.adoptLanded e.keyRing (v, .inserted) } : SyncEngine env sealing room)
      rw [← hone] at htip hunspent
      have htip' : (if anyInserted l then (e.applyLanded (v, .inserted)).unspent
          else (e.applyLanded (v, .inserted)).suspectTip) = e.unspent := by
        rw [hunspent, htip]
        split_ifs <;> rfl
      unfold SyncEngine.landing
      rw [htip', hone]
      exact ⟨recomputeCompleteness ({ e with
          dedupCache := e.dedupCache.insert v.eventId
          keyRing := e.adoptLanded e.keyRing (v, .inserted) } : SyncEngine env sealing room) |>.hidden, rfl⟩

theorem committed_nil (h : e.pendingBatch = []) : e.committed [] = e := by
  obtain ⟨_, _, _, _, _, _, _, _, _, _, _, _, _, _, _, _, _, pending, _⟩ := e
  obtain rfl : pending = [] := h
  rfl

/-- A flush commits the batch. -/
theorem committed_flushStoreBatch (hw : e.store.writes = []) (hr : e.storeRetry = .empty) :
    Alike (e.committed e.pendingBatch) e.flushStoreBatch := by
  unfold flushStoreBatch
  split_ifs with hnil
  · rw [hnil, committed_nil hnil]
    exact .refl e
  · dsimp only
    rw [EventStore.insertAllOutcomes_of_writes hw]
    exact foldl_applyLanded _ hr

theorem anyInserted_append (l l' : List (ValidatedEvent env room × InsertOutcome)) :
    anyInserted (l ++ l') = (anyInserted l || anyInserted l') := List.any_append

theorem landedBy_append (e : SyncEngine env sealing room) (vs ws : List (ValidatedEvent env room)) :
    e.landedBy (vs ++ ws) = e.landedBy vs ++ (e.committed vs).landedBy ws :=
  EventStore.zip_insertAllInTx_append vs ws e.store

/-- If nothing was inserted the store is the same. -/
theorem store_of_not_anyInserted {vs : List (ValidatedEvent env room)} (h : anyInserted (e.landedBy vs) = false) :
    (EventStore.insertAllInTx e.store vs).1 = e.store := by
  obtain ⟨-, hlen, -, hchange⟩ := EventStore.insertAllInTx_spec vs e.store
  refine hchange.resolve_left fun hins => ?_
  obtain ⟨i, hi, hget⟩ := List.mem_iff_getElem.mp hins
  have hmem : (vs[i], InsertOutcome.inserted) ∈ e.landedBy vs := by
    refine List.mem_iff_getElem.mpr ⟨i, by rw [landedBy, List.length_zip]; omega, ?_⟩
    simp only [landedBy, List.getElem_zip, hget]
  rw [anyInserted, List.any_eq_false] at h
  exact h _ hmem rfl

/-- What a larger store of the room leaves of a suspicion is what it leaves of what a smaller one left. -/
theorem unspent_grown {s t : EventStore env room} (hs : W.StoreOk s) (ht : W.StoreOk t)
    (hgrow : ∀ id, s.contains id = true → t.contains id = true) (e : SyncEngine env sealing room)
    (tip : Option SuspectTip) : t.unspent (s.unspent tip) = t.unspent tip := by
  have hahead : ∀ x, s.aheadOf x = false → t.aheadOf x = false := fun x =>
    Universe.isAhead_antitone (e := ({ e with store := s } : SyncEngine env sealing room))
      (f := ({ e with store := t } : SyncEngine env sealing room)) hs ht hgrow
  cases tip with
  | none => rfl
  | some x =>
    unfold EventStore.unspent
    cases hbehind : s.aheadOf x with
    | true => rw [Option.filter_some_pos hbehind]
    | false =>
      rw [Option.filter_some_neg hbehind, Option.filter_some_neg (hahead x hbehind)]
      rfl

/-- Committing events together is committing them one part after the other. -/
theorem committed_append (vs ws : List (ValidatedEvent env room)) (hs : W.StoreOk e.store)
    (hvs : ∀ v ∈ vs, W.Sound v) (hws : ∀ v ∈ ws, W.Sound v) :
    e.committed (vs ++ ws) = (e.committed vs).committed ws := by
  have hmid : W.StoreOk (EventStore.insertAllInTx e.store vs).1 :=
    EngineInvariant.insertAllInTx (I := W.invariant env room) hs hvs
  have hend : W.StoreOk (EventStore.insertAllInTx (EventStore.insertAllInTx e.store vs).1 ws).1 :=
    EngineInvariant.insertAllInTx (I := W.invariant env room) hmid hws
  have hgrow : ∀ id, (EventStore.insertAllInTx e.store vs).1.contains id = true →
      (EventStore.insertAllInTx (EventStore.insertAllInTx e.store vs).1 ws).1.contains id = true :=
    fun id hid => ((EventStore.insertAllInTx_spec ws _).2.2.1 id).mpr (Or.inl hid)
  have hlanded := e.landedBy_append vs ws
  have hgrown := unspent_grown hmid hend hgrow e e.suspectTip
  have hsame : anyInserted ((e.committed vs).landedBy ws) = false →
      (EventStore.insertAllInTx (EventStore.insertAllInTx e.store vs).1 ws).1 =
        (EventStore.insertAllInTx e.store vs).1 := store_of_not_anyInserted (e := e.committed vs)
  have htip₀ : (e.committed vs).suspectTip = if anyInserted (e.landedBy vs)
      then (EventStore.insertAllInTx e.store vs).1.unspent e.suspectTip else e.suspectTip := rfl
  have htip : (e.committed (vs ++ ws)).suspectTip = ((e.committed vs).committed ws).suspectTip := by
    show (if anyInserted (e.landedBy (vs ++ ws))
        then (EventStore.insertAllInTx e.store (vs ++ ws)).1.unspent e.suspectTip else e.suspectTip) =
      (if anyInserted ((e.committed vs).landedBy ws)
        then (EventStore.insertAllInTx (EventStore.insertAllInTx e.store vs).1 ws).1.unspent (e.committed vs).suspectTip
        else (e.committed vs).suspectTip)
    rw [hlanded, anyInserted_append, EventStore.insertAllInTx_append, htip₀]
    cases hlater : anyInserted ((e.committed vs).landedBy ws) with
    | false =>
      rw [hsame hlater, Bool.or_false]
      rfl
    | true =>
      cases hfirst : anyInserted (e.landedBy vs) with
      | false => rfl
      | true => exact hgrown.symm
  have hring : (e.committed (vs ++ ws)).keyRing = ((e.committed vs).committed ws).keyRing := by
    show (e.landedBy (vs ++ ws)).foldl e.adoptLanded e.keyRing = _
    rw [hlanded, List.foldl_append]
    rfl
  have hstore : (e.committed (vs ++ ws)).store = ((e.committed vs).committed ws).store := by
    show (EventStore.insertAllInTx e.store (vs ++ ws)).1 = _
    rw [EventStore.insertAllInTx_append]
    rfl
  have hparts : ∀ f g : SyncEngine env sealing room, f.suspectTip = g.suspectTip → f.keyRing = g.keyRing →
      f.store = g.store → { g with suspectTip := f.suspectTip, keyRing := f.keyRing, store := f.store } = g := by
    intro f g hf hk hst
    rw [hf, hk, hst]
  exact hparts _ _ htip hring hstore

/-! ### One delivery -/

/-- The engine with an accepted event in the batch. -/
def queued (e : SyncEngine env sealing room) (v : ValidatedEvent env room) : SyncEngine env sealing room :=
  { e with
    backfillDepth := e.backfillDepth.erase v.eventId
    pendingBatch := e.pendingBatch ++ [v] }

/-- The engine that no longer looks for an event. -/
def unsought (e : SyncEngine env sealing room) (v : ValidatedEvent env room) : SyncEngine env sealing room :=
  { e with backfillDepth := e.backfillDepth.erase v.eventId }

/-- Let an event into the fold, past the gate before it. -/
def enter (e : SyncEngine env sealing room) (v : ValidatedEvent env room) : SyncEngine env sealing room :=
  let folded := e.ingestFold v
  match folded.fold.outcome v.eventId with
  | .accepted .. =>
    if (folded.queued v).pendingBatch.length ≥ folded.config.storeInsertBatchSize
    then (folded.queued v).flushStoreBatch else folded.queued v
  | .buffered _ missing => folded.flushStoreBatch.onBuffered v missing
  | .rejected .. => (folded.unsought v).flushStoreBatch

/-- The gate before the fold turns the event away. -/
def doubts (e : SyncEngine env sealing room) (v : ValidatedEvent env room) : Bool :=
  e.wouldBuffer v && !e.signerPlausible v

theorem deliver_eq (e : SyncEngine env sealing room) (v : ValidatedEvent env room) :
    e.deliver v = if e.doubts v then e else e.enter v := rfl

/-- The same with every accepted event committed at once. -/
def settle (e : SyncEngine env sealing room) (v : ValidatedEvent env room) : SyncEngine env sealing room :=
  let folded := e.ingestFold v
  match folded.fold.outcome v.eventId with
  | .accepted .. => (folded.unsought v).committed [v]
  | .buffered _ missing => folded.onBuffered v missing
  | .rejected .. => folded.unsought v

theorem Alike.settle (h : Alike a b) (v : ValidatedEvent env room) : Alike (a.settle v) (b.settle v) := by
  obtain ⟨y, hfolded⟩ := h.ingestFold v
  unfold SyncEngine.settle
  dsimp only
  rw [hfolded]
  have hfold : ((a.ingestFold v).under y).fold = (a.ingestFold v).fold := rfl
  rw [hfold]
  split
  · exact ⟨y, rfl⟩
  · exact onBuffered ⟨y, rfl⟩ v _
  · exact ⟨y, rfl⟩

theorem flushStoreBatch_pending (hw : e.store.writes = []) (hr : e.storeRetry = .empty) :
    e.flushStoreBatch.pendingBatch = [] := (committed_flushStoreBatch hw hr).pendingBatch

theorem flushStoreBatch_of_pending (h : e.pendingBatch = []) : e.flushStoreBatch = e := if_pos h

/-- A second flush finds nothing to commit. -/
theorem flushStoreBatch_flushStoreBatch (hw : e.store.writes = []) (hr : e.storeRetry = .empty) :
    e.flushStoreBatch.flushStoreBatch = e.flushStoreBatch := flushStoreBatch_of_pending (flushStoreBatch_pending hw hr)

theorem onBuffered_pending (e : SyncEngine env sealing room) (v : ValidatedEvent env room) (missing : List EventId) :
    (e.onBuffered v missing).pendingBatch = e.pendingBatch :=
  (onBuffered_reparks (K := fun _ => True) e trivial missing).pendingBatch

theorem committed_ingestFold (e : SyncEngine env sealing room) (vs : List (ValidatedEvent env room))
    (v : ValidatedEvent env room) : (e.committed vs).ingestFold v = (e.ingestFold v).committed vs := by
  rw [ingestFold_eq, ingestFold_eq]
  rfl

/-- What an ingest leaves alone. -/
theorem ingestFold_books (e : SyncEngine env sealing room) (v : ValidatedEvent env room) :
    (e.ingestFold v).store = e.store ∧ (e.ingestFold v).storeRetry = e.storeRetry ∧
      (e.ingestFold v).pendingBatch = e.pendingBatch := by
  rw [ingestFold_eq]
  exact ⟨rfl, rfl, rfl⟩

/-- A delivery in the middle of a batch, once the batch is committed, is a delivery after it. -/
theorem enter_settles (hw : e.store.writes = []) (hr : e.storeRetry = .empty) (hs : W.StoreOk e.store)
    (hbatch : ∀ v ∈ e.pendingBatch, W.Sound v) {v : ValidatedEvent env room}
    (hv : ∀ id flags, (e.ingestFold v).fold.outcome v.eventId = .accepted id flags → W.Sound v) :
    Alike (e.flushStoreBatch.settle v) (e.enter v).flushStoreBatch := by
  obtain ⟨hstore, hretry, hpending⟩ := e.ingestFold_books v
  have hw' := (congrArg EventStore.writes hstore).trans hw
  have hr' := hretry.trans hr
  refine Alike.trans ((committed_flushStoreBatch hw hr).settle v).symm ?_
  unfold settle enter
  dsimp only
  rw [committed_ingestFold]
  have hfold : ((e.ingestFold v).committed e.pendingBatch).fold = (e.ingestFold v).fold := rfl
  rw [hfold]
  split
  · rename_i id flags hout
    -- the event is committed after the rest of the batch
    have hqueue : Alike (((e.ingestFold v).queued v).committed (e.pendingBatch ++ [v]))
        ((e.ingestFold v).queued v).flushStoreBatch := by
      rw [← hpending]
      exact committed_flushStoreBatch (e := (e.ingestFold v).queued v) hw' hr'
    rw [committed_append (W := W) _ _ (hstore ▸ hs) hbatch
      (fun w hmem => List.mem_singleton.mp hmem ▸ hv id flags hout)] at hqueue
    split_ifs
    · rw [flushStoreBatch_flushStoreBatch (e := (e.ingestFold v).queued v) hw' hr']
      exact hqueue
    · exact hqueue
  · have hflushed := committed_flushStoreBatch hw' hr'
    rw [flushStoreBatch_of_pending ((onBuffered_pending _ _ _).trans (flushStoreBatch_pending hw' hr'))]
    rw [hpending] at hflushed
    exact hflushed.onBuffered v _
  · have hflushed := committed_flushStoreBatch (e := (e.ingestFold v).unsought v) hw' hr'
    have hpending' : ((e.ingestFold v).unsought v).pendingBatch = e.pendingBatch := hpending
    rw [flushStoreBatch_flushStoreBatch (e := (e.ingestFold v).unsought v) hw' hr']
    rw [hpending'] at hflushed
    exact hflushed

/-! ### What one delivery sends -/

section

variable (sending : Sending env room) (origin : Option PeerId)

/-- The pushes of landed events. -/
def landOut (e : SyncEngine env sealing room) (l : List (ValidatedEvent env room × InsertOutcome)) : List Outgoing :=
  l.flatMap (e.landedOut sending origin)

/-- What letting an event in sends. -/
def enterSent (e : SyncEngine env sealing room) (v : ValidatedEvent env room) : Sent :=
  let folded := e.ingestFold v
  match folded.fold.outcome v.eventId with
  | .accepted .. =>
    if (folded.queued v).pendingBatch.length ≥ folded.config.storeInsertBatchSize
    then (folded.queued v).flushSent sending origin else .nothing
  | .buffered _ missing =>
    folded.flushSent sending origin ++ ⟨folded.flushStoreBatch.onBufferedOut sending origin v missing, false⟩
  | .rejected .. => (folded.unsought v).flushSent sending origin

theorem deliverSent_eq (e : SyncEngine env sealing room) (v : ValidatedEvent env room) :
    e.deliverSent sending origin v = if e.doubts v then .nothing else e.enterSent sending origin v := rfl

/-- What it sends with every accepted event committed at once. -/
def settleOut (e : SyncEngine env sealing room) (v : ValidatedEvent env room) : List Outgoing :=
  let folded := e.ingestFold v
  match folded.fold.outcome v.eventId with
  | .accepted .. => folded.landOut sending origin (folded.landedBy [v])
  | .buffered _ missing => folded.onBufferedOut sending origin v missing
  | .rejected .. => []

variable {sending} {origin}

theorem landOut_congr (h : b.peers = a.peers) (l : List (ValidatedEvent env room × InsertOutcome)) :
    b.landOut sending origin l = a.landOut sending origin l := by
  have hone : b.landedOut sending origin = a.landedOut sending origin := by
    unfold landedOut fanout
    rw [h]
  unfold landOut
  rw [hone]

theorem Alike.settleOut (h : Alike a b) (v : ValidatedEvent env room) :
    b.settleOut sending origin v = a.settleOut sending origin v := by
  have hfolded := h.ingestFold v
  have hlanded : (b.ingestFold v).landedBy [v] = (a.ingestFold v).landedBy [v] := by
    unfold landedBy
    rw [hfolded.store]
  unfold SyncEngine.settleOut
  dsimp only
  rw [hfolded.fold, hlanded, landOut_congr hfolded.peers]
  split
  · rfl
  · exact hfolded.onBufferedOut sending origin v _
  · rfl

theorem flushSent_out (hw : e.store.writes = []) :
    (e.flushSent sending origin).out = e.landOut sending origin (e.landedBy e.pendingBatch) := by
  unfold flushSent
  split_ifs with hnil
  · rw [hnil]
    rfl
  · rw [EventStore.insertAllOutcomes_of_writes hw]
    rfl

theorem flushSent_of_pending (h : e.pendingBatch = []) : e.flushSent sending origin = .nothing := if_pos h

/-- What a delivery in the middle of a batch sends, with what the batch will send, is what the batch sends with what
the delivery after it sends. -/
theorem enter_sends (hw : e.store.writes = []) (hr : e.storeRetry = .empty) (v : ValidatedEvent env room) :
    (e.enterSent sending origin v).out ++ ((e.enter v).flushSent sending origin).out =
      (e.flushSent sending origin).out ++ e.flushStoreBatch.settleOut sending origin v := by
  obtain ⟨hstore, hretry, hpending⟩ := e.ingestFold_books v
  have hw' := (congrArg EventStore.writes hstore).trans hw
  have hr' := hretry.trans hr
  have hbatch : (e.flushSent sending origin).out = ((e.ingestFold v).flushSent sending origin).out := by
    rw [ingestFold_eq]
    rfl
  rw [(committed_flushStoreBatch hw hr).settleOut v, hbatch, flushSent_out hw']
  unfold enterSent enter settleOut
  dsimp only
  rw [committed_ingestFold]
  have hfold : ((e.ingestFold v).committed e.pendingBatch).fold = (e.ingestFold v).fold := rfl
  rw [hfold]
  split
  · -- the batch with the event
    have hlanded : ((e.ingestFold v).queued v).landOut sending origin (((e.ingestFold v).queued v).landedBy
          ((e.ingestFold v).queued v).pendingBatch) =
        (e.ingestFold v).landOut sending origin ((e.ingestFold v).landedBy (e.ingestFold v).pendingBatch) ++
          ((e.ingestFold v).committed e.pendingBatch).landOut sending origin
            (((e.ingestFold v).committed e.pendingBatch).landedBy [v]) := by
      rw [← hpending]
      show List.flatMap _ ((e.ingestFold v).landedBy ((e.ingestFold v).pendingBatch ++ [v])) = _
      rw [landedBy_append, List.flatMap_append]
      rfl
    split_ifs
    · rw [flushSent_of_pending (flushStoreBatch_pending (e := (e.ingestFold v).queued v) hw' hr'),
        flushSent_out (e := (e.ingestFold v).queued v) hw', hlanded]
      exact List.append_nil _
    · rw [flushSent_out (e := (e.ingestFold v).queued v) hw', hlanded]
      rfl
  · have hflushed := committed_flushStoreBatch hw' hr'
    rw [hpending] at hflushed
    rw [flushSent_of_pending ((onBuffered_pending _ _ _).trans (flushStoreBatch_pending hw' hr')),
      Sent.append_out, flushSent_out hw', hflushed.onBufferedOut sending origin]
    exact List.append_nil _
  · rw [flushSent_of_pending (flushStoreBatch_pending (e := (e.ingestFold v).unsought v) hw' hr'),
      flushSent_out (e := (e.ingestFold v).unsought v) hw']
    rfl

end

end SyncEngine

end IrohRooms
