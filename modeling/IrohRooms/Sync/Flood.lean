import IrohRooms.Sync.Completeness
import IrohRooms.Sync.Projection

/-!
# A flood of outsiders

Events of a sender that is neither the admin nor a known subject are to leave no trace: the gate in front of the fold
drops them if a parent is missing, since the fold keeps every event it is given. An outsider's event whose parents are
all stored passes that gate, is rejected by the fold and stays there. So a flood of outsiders leaves the number of
tracked events and the park as they were exactly when each frame is known already or cites something that is not stored,
and the park was woken before (`flood_unfelt_iff`).
-/

namespace IrohRooms

variable {env : Env} {sealing : Sealing} {room : RoomId}

namespace RoomMembership

variable {m : RoomMembership env room}

def trackedEventCount (m : RoomMembership env room) : Nat := m.nodes.entries.length

/-- The event is tracked and waits for a parent. -/
def waits (m : RoomMembership env room) (id : EventId) : Bool := m.nodes.contains id && !m.isClassified id

theorem WF.trackedEventCount_lt (hwf : WF m) {v : ValidatedEvent env room} (hnew : m.nodes.contains v.eventId = false) :
    m.trackedEventCount < (m.ingest v).trackedEventCount := by
  refine OrdMap.length_lt_of_contains (k := v.eventId) (fun id hid => ?_) ?_ hnew
  · exact (ingest_contains hwf v id).mpr (Or.inl hid)
  · exact (ingest_contains hwf v v.eventId).mpr (Or.inr rfl)

/-- The fold only ever tracks more. -/
theorem WF.trackedEventCount_le (hwf : WF m) (v : ValidatedEvent env room) :
    m.trackedEventCount ≤ (m.ingest v).trackedEventCount := by
  cases hv : m.nodes.contains v.eventId with
  | true => rw [show m.ingest v = m from if_pos hv]
  | false => exact (hwf.trackedEventCount_lt hv).le

theorem outcome_of_waits {id : EventId} (h : m.waits id = true) : ∃ missing, m.outcome id = .buffered id missing := by
  rw [waits, Bool.and_eq_true, Bool.not_eq_true'] at h
  obtain ⟨htracked, hopen⟩ := h
  obtain ⟨n, hn⟩ := Option.isSome_iff_exists.mp htracked
  simp only [isClassified, hn, Bool.not_eq_eq_eq_not, Bool.not_false, Node.isPending, beq_iff_eq] at hopen
  refine ⟨m.blockers n, ?_⟩
  simp only [outcome, hn, hopen]

theorem outcome_of_classified {id : EventId} (h : m.isClassified id = true) :
    (∃ flags, m.outcome id = .accepted id flags) ∨ ∃ reason, m.outcome id = .rejected id reason := by
  unfold isClassified at h
  unfold outcome
  split at h
  · rename_i n hn
    rw [hn]
    dsimp only
    cases hv : n.verdict with
    | pending => simp [Node.isPending, hv] at h
    | accepted flags => exact Or.inl ⟨flags, rfl⟩
    | rejected reason => exact Or.inr ⟨reason, rfl⟩
  · cases h

end RoomMembership

namespace SyncEngine

variable {e f g : SyncEngine env sealing room} {v : ValidatedEvent env room}

def foldTrackedLen (e : SyncEngine env sealing room) : Nat := e.fold.trackedEventCount

def parkedLen (e : SyncEngine env sealing room) : Nat := e.park.entries.length

/-! ### What a step leaves alone -/

/-- The fold, its projection and the park are the same. -/
def Undisturbed (e f : SyncEngine env sealing room) : Prop := SameView e f ∧ f.park = e.park

theorem Undisturbed.refl (e : SyncEngine env sealing room) : Undisturbed e e := ⟨.refl e, rfl⟩

theorem Undisturbed.trans (h : Undisturbed e f) (h' : Undisturbed f g) : Undisturbed e g :=
  ⟨h.1.trans h'.1, h'.2.trans h.2⟩

theorem foldl_undisturbed {α : Type} {step : SyncEngine env sealing room → α → SyncEngine env sealing room}
    (hstep : ∀ e a, Undisturbed e (step e a)) (l : List α) (e : SyncEngine env sealing room) :
    Undisturbed e (l.foldl step e) := by
  induction l generalizing e with
  | nil => exact .refl e
  | cons a l ih => exact (hstep e a).trans (ih _)

theorem applyLanded_undisturbed (e : SyncEngine env sealing room) (landed : ValidatedEvent env room × InsertOutcome) :
    Undisturbed e (e.applyLanded landed) :=
  ⟨applyLanded_view e landed, (applyLanded_booked e landed).1.park⟩

theorem enqueueStoreRetry_undisturbed (e : SyncEngine env sealing room) (v : ValidatedEvent env room) :
    Undisturbed e (e.enqueueStoreRetry v) := by
  unfold enqueueStoreRetry
  split_ifs <;> exact ⟨⟨rfl, rfl⟩, rfl⟩

theorem flushStoreBatch_undisturbed (e : SyncEngine env sealing room) : Undisturbed e e.flushStoreBatch := by
  unfold flushStoreBatch
  split_ifs
  · exact .refl e
  · have hcleared : Undisturbed e { e with
        pendingBatch := []
        store := (e.store.insertAllOutcomes e.pendingBatch).1 } := ⟨⟨rfl, rfl⟩, rfl⟩
    dsimp only
    split
    · exact hcleared.trans (foldl_undisturbed applyLanded_undisturbed _ _)
    · exact hcleared.trans (foldl_undisturbed enqueueStoreRetry_undisturbed _ _)

theorem storeAndFanout_undisturbed (e : SyncEngine env sealing room) (v : ValidatedEvent env room) :
    Undisturbed e (e.storeAndFanout v) := by
  have hwritten : Undisturbed e { e with store := (e.store.insert v).1 } := ⟨⟨rfl, rfl⟩, rfl⟩
  unfold storeAndFanout
  dsimp only
  split
  · exact hwritten.trans (applyLanded_undisturbed _ _)
  · exact hwritten.trans (enqueueStoreRetry_undisturbed _ _)

theorem ingestFold_grows (h : e.Fresh) (hnew : e.fold.nodes.contains v.eventId = false) :
    e.foldTrackedLen < (e.ingestFold v).foldTrackedLen := by
  unfold foldTrackedLen
  rw [ingestFold_fold]
  exact h.settled.wf.trackedEventCount_lt hnew

theorem SameView.foldTrackedLen (h : SameView e f) : f.foldTrackedLen = e.foldTrackedLen := by
  unfold SyncEngine.foldTrackedLen
  rw [h.1]

/-- In a run the fold tracks more and more. -/
theorem tracks_carried (n : Nat) : Carried (fun _ => True)
    (fun e : SyncEngine env sealing room => e.Fresh ∧ n ≤ e.foldTrackedLen) where
  parked _ _ := trivial
  books he hbooks := by
    have hview := hbooks.toQuiet.view
    exact ⟨he.1.view hview, hview.foldTrackedLen ▸ he.2⟩
  ingest he _ := by
    refine ⟨he.1.ingestFold _, he.2.trans ?_⟩
    unfold foldTrackedLen
    rw [ingestFold_fold]
    exact he.1.settled.wf.trackedEventCount_le _
  queue he _ _ := by
    refine ⟨(he.1.ingestFold _).view ⟨rfl, rfl⟩, he.2.trans ?_⟩
    unfold foldTrackedLen
    dsimp only
    rw [ingestFold_fold]
    exact he.1.settled.wf.trackedEventCount_le _
  promote {e v id id' flags} he _ _ := by
    have hview := storeAndFanout_view ((e.ingestFold v).evictParked id) v
    refine ⟨((he.1.ingestFold v).view ⟨rfl, rfl⟩).view hview, he.2.trans ?_⟩
    rw [hview.foldTrackedLen]
    unfold foldTrackedLen evictParked
    dsimp only
    rw [ingestFold_fold]
    exact he.1.settled.wf.trackedEventCount_le _
  flush {e} he := by
    have hview := flushStoreBatch_view e
    exact ⟨he.1.view hview, hview.foldTrackedLen ▸ he.2⟩

/-! ### Waking the park -/

/-- Every parked event waits in the fold, as it does once the park was woken. -/
def parkAwake (e : SyncEngine env sealing room) : Bool := e.park.values.all fun p => e.fold.waits p.event.eventId

/-- The fold tracks more, or only the park can have become shorter. -/
def Drifts (e f : SyncEngine env sealing room) : Prop :=
  e.foldTrackedLen < f.foldTrackedLen ∨ SameView e f ∧ f.parkedLen ≤ e.parkedLen

/-- The fold tracks more, or only the park has become shorter. -/
def Sinks (e f : SyncEngine env sealing room) : Prop :=
  e.foldTrackedLen < f.foldTrackedLen ∨ SameView e f ∧ f.parkedLen < e.parkedLen

theorem Undisturbed.drifts (h : Undisturbed e f) : Drifts e f := by
  refine Or.inr ⟨h.1, ?_⟩
  unfold parkedLen
  rw [h.2]

theorem Drifts.le (h : Drifts e f) : e.foldTrackedLen ≤ f.foldTrackedLen := by
  rcases h with hlt | ⟨hview, -⟩
  · exact hlt.le
  · exact hview.foldTrackedLen.ge

theorem Drifts.trans (h : Drifts e f) (h' : Drifts f g) : Drifts e g := by
  rcases h with hlt | ⟨hview, hlen⟩
  · exact Or.inl (hlt.trans_le h'.le)
  · rcases h' with hlt' | ⟨hview', hlen'⟩
    · exact Or.inl (hview.foldTrackedLen ▸ hlt')
    · exact Or.inr ⟨hview.trans hview', hlen'.trans hlen⟩

theorem Sinks.trans (h : Sinks e f) (h' : Drifts f g) : Sinks e g := by
  rcases h with hlt | ⟨hview, hlen⟩
  · exact Or.inl (hlt.trans_le h'.le)
  · rcases h' with hlt' | ⟨hview', hlen'⟩
    · exact Or.inl (hview.foldTrackedLen ▸ hlt')
    · exact Or.inr ⟨hview.trans hview', hlen'.trans_lt hlen⟩

theorem Undisturbed.sinks (h : Undisturbed e f) (h' : Sinks f g) : Sinks e g := by
  rcases h' with hlt | ⟨hview, hlen⟩
  · exact Or.inl (h.1.foldTrackedLen ▸ hlt)
  · refine Or.inr ⟨h.1.trans hview, ?_⟩
    unfold parkedLen at hlen ⊢
    rwa [h.2] at hlen

theorem Sinks.drifts (h : Sinks e f) : Drifts e f := by
  rcases h with hlt | ⟨hview, hlen⟩
  · exact Or.inl hlt
  · exact Or.inr ⟨hview, hlen.le⟩

/-- A waiting event stays where it is. -/
theorem wakeOne_waits {st : SyncEngine env sealing room × Bool} (h : st.1.Fresh) {id : EventId} {p : Parked env room}
    (hp : st.1.park.get? id = some p) (hwaits : st.1.fold.waits p.event.eventId = true) : wakeOne st id = st := by
  have htracked : st.1.fold.nodes.contains p.event.eventId = true := by
    rw [RoomMembership.waits, Bool.and_eq_true] at hwaits
    exact hwaits.1
  obtain ⟨missing, hout⟩ := RoomMembership.outcome_of_waits hwaits
  unfold wakeOne
  rw [hp]
  dsimp only
  rw [ingestFold_tracked h htracked, hout]

/-- One that does not wait enters the fold or leaves the park. -/
theorem wakeOne_sinks {st : SyncEngine env sealing room × Bool} (h : st.1.Fresh) {id : EventId} {p : Parked env room}
    (hp : st.1.park.get? id = some p) (hwaits : st.1.fold.waits p.event.eventId = false) :
    Sinks st.1 (wakeOne st id).1 := by
  cases htracked : st.1.fold.nodes.contains p.event.eventId with
  | false =>
    -- the fold tracks it from now on, whatever its verdict
    have hgrows := ingestFold_grows h htracked
    have hkept : ∀ f, SameView (st.1.ingestFold p.event) f → Sinks st.1 f :=
      fun f hview => Or.inl (hview.foldTrackedLen ▸ hgrows)
    unfold wakeOne
    rw [hp]
    dsimp only
    split
    · exact hkept _ (SameView.trans ⟨rfl, rfl⟩ (storeAndFanout_view _ _))
    · exact hkept _ ⟨rfl, rfl⟩
    · exact hkept _ ⟨rfl, rfl⟩
  | true =>
    have hclassified : st.1.fold.isClassified p.event.eventId = true := by
      rw [RoomMembership.waits, htracked, Bool.true_and, Bool.not_eq_false'] at hwaits
      exact hwaits
    have hparked : st.1.park.contains id = true := by
      rw [OrdMap.contains, hp]
      rfl
    have hevicted : Sinks st.1 (st.1.evictParked id) := Or.inr ⟨⟨rfl, rfl⟩, OrdMap.length_erase_lt hparked⟩
    unfold wakeOne
    rw [hp]
    dsimp only
    rw [ingestFold_tracked h htracked]
    rcases RoomMembership.outcome_of_classified hclassified with ⟨flags, hout⟩ | ⟨reason, hout⟩
    · rw [hout]
      exact hevicted.trans (storeAndFanout_undisturbed _ _).drifts
    · rw [hout]
      exact hevicted

theorem Fresh.wakeOne {st : SyncEngine env sealing room × Bool} (h : st.1.Fresh) (id : EventId) :
    (SyncEngine.wakeOne st id).1.Fresh :=
  Carried.wakeOne fresh_carried h id

theorem wakeOne_drifts {st : SyncEngine env sealing room × Bool} (h : st.1.Fresh) (id : EventId) :
    Drifts st.1 (wakeOne st id).1 := by
  cases hp : st.1.park.get? id with
  | none =>
    unfold wakeOne
    rw [hp]
    exact (Undisturbed.refl _).drifts
  | some p =>
    cases hwaits : st.1.fold.waits p.event.eventId with
    | true =>
      rw [wakeOne_waits h hp hwaits]
      exact (Undisturbed.refl _).drifts
    | false => exact (wakeOne_sinks h hp hwaits).drifts

theorem wakePass_drifts (ids : List EventId) (st : SyncEngine env sealing room × Bool) (h : st.1.Fresh) :
    (ids.foldl wakeOne st).1.Fresh ∧ Drifts st.1 (ids.foldl wakeOne st).1 := by
  induction ids generalizing st with
  | nil => exact ⟨h, (Undisturbed.refl _).drifts⟩
  | cons id ids ih =>
    obtain ⟨hfresh, hdrifts⟩ := ih _ (h.wakeOne id)
    exact ⟨hfresh, (wakeOne_drifts h id).trans hdrifts⟩

/-- A pass over an event that does not wait. -/
theorem wakePass_sinks (ids : List EventId) (st : SyncEngine env sealing room × Bool) (h : st.1.Fresh)
    {id : EventId} {p : Parked env room} (hid : id ∈ ids) (hp : st.1.park.get? id = some p)
    (hwaits : st.1.fold.waits p.event.eventId = false) : Sinks st.1 (ids.foldl wakeOne st).1 := by
  induction ids with
  | nil => cases hid
  | cons first ids ih =>
    rw [List.foldl_cons]
    cases hq : st.1.park.get? first with
    | none =>
      have hstill : wakeOne st first = st := by
        unfold wakeOne
        rw [hq]
      rw [hstill]
      rcases List.mem_cons.mp hid with rfl | hid
      · rw [hp] at hq
        cases hq
      · exact ih hid
    | some q =>
      cases hwaits' : st.1.fold.waits q.event.eventId with
      | false => exact (wakeOne_sinks h hq hwaits').trans (wakePass_drifts ids _ (h.wakeOne first)).2
      | true =>
        rw [wakeOne_waits h hq hwaits']
        rcases List.mem_cons.mp hid with rfl | hid
        · rw [hp, Option.some.injEq] at hq
          rw [← hq, hwaits] at hwaits'
          cases hwaits'
        · exact ih hid

theorem wakeParkLoop_drifts (fuel : Nat) (h : e.Fresh) : Drifts e (wakeParkLoop fuel e) := by
  induction fuel generalizing e with
  | zero => exact (Undisturbed.refl e).drifts
  | succ fuel ih =>
    obtain ⟨hfresh, hdrifts⟩ := wakePass_drifts e.park.keys (e, false) h
    unfold wakeParkLoop
    dsimp only
    split_ifs
    · exact hdrifts.trans (ih hfresh)
    · exact hdrifts

/-- Waking a park that is awake does nothing. -/
theorem wakePark_awake (h : e.Fresh) (hawake : e.parkAwake = true) : e.wakePark = e := by
  have hone : ∀ id, wakeOne (e, false) id = (e, false) := by
    intro id
    cases hp : e.park.get? id with
    | none =>
      unfold wakeOne
      rw [hp]
    | some p =>
      exact wakeOne_waits h hp (List.all_eq_true.mp hawake p (OrdMap.mem_values.mpr ⟨id, hp⟩))
  have hpass : ∀ ids : List EventId, ids.foldl wakeOne (e, false) = (e, false) := by
    intro ids
    induction ids with
    | nil => rfl
    | cons id ids ih => rw [List.foldl_cons, hone id, ih]
  unfold wakePark wakeParkLoop
  rw [hpass]
  rfl

/-- Waking one that is not does something. -/
theorem wakePark_sinks (h : e.Fresh) (hawake : e.parkAwake = false) : Sinks e e.wakePark := by
  obtain ⟨p, hmem, hwaits⟩ := List.all_eq_false.mp hawake
  obtain ⟨id, hp⟩ := OrdMap.mem_values.mp hmem
  have hid : id ∈ e.park.keys := OrdMap.mem_keys.mpr (Option.isSome_of_eq_some hp)
  have hsinks := wakePass_sinks e.park.keys (e, false) h hid hp (Bool.not_eq_true _ ▸ hwaits)
  obtain ⟨hfresh, -⟩ := wakePass_drifts e.park.keys (e, false) h
  unfold wakePark wakeParkLoop
  dsimp only
  split_ifs
  · exact hsinks.trans (wakeParkLoop_drifts _ hfresh)
  · exact hsinks

theorem Undisturbed.parkAwake (h : Undisturbed e f) : f.parkAwake = e.parkAwake := by
  unfold SyncEngine.parkAwake
  rw [h.1.1, h.2]

theorem finalizeDelivery_awake (h : e.Fresh) (hawake : e.parkAwake = true) : Undisturbed e e.finalizeDelivery := by
  have hflushed := flushStoreBatch_undisturbed e
  have hwoken := wakePark_awake (h.view hflushed.1) (hflushed.parkAwake.trans hawake)
  unfold finalizeDelivery
  rw [hwoken]
  exact hflushed.trans (flushStoreBatch_undisturbed _)

theorem finalizeDelivery_sinks (h : e.Fresh) (hawake : e.parkAwake = false) : Sinks e e.finalizeDelivery := by
  have hflushed := flushStoreBatch_undisturbed e
  have hwoken := wakePark_sinks (h.view hflushed.1) (hflushed.parkAwake.trans hawake)
  exact hflushed.sinks (hwoken.trans (flushStoreBatch_undisturbed _).drifts)

/-! ### Outsiders -/

/-- No join, and of a sender that is neither the admin nor a member in any status. -/
def Outsider (snapshot : MembershipSnapshot) (event : SignedEvent) : Prop :=
  (∀ c, event.content ≠ .memberJoined c) ∧ snapshot.admin ≠ some event.senderId ∧
    snapshot.member event.senderId = none

theorem Outsider.unlikely (h : Outsider e.snapshot v.event) : e.signerPlausible v = false := by
  obtain ⟨hjoin, hadmin, hmember⟩ := h
  unfold signerPlausible
  split
  · rename_i c hc
    exact absurd hc (hjoin c)
  · rw [hmember, Bool.or_eq_false_iff]
    exact ⟨by simpa using hadmin, rfl⟩

/-- A frame that a delivery turns away before the fold, or that the fold has seen already. -/
def barredFrame (e : SyncEngine env sealing room) (frame : Frame) : Bool :=
  e.dedupCache.contains frame.eventId || e.fold.nodes.contains frame.eventId ||
    frame.event.prevEvents.any fun p => !e.store.contains p

theorem onBuffered_unlikely (h : e.signerPlausible v = false) (missing : List EventId) :
    e.onBuffered v missing = e := by
  unfold onBuffered
  dsimp only
  rw [h, Bool.not_false, if_pos rfl]
  split_ifs
  · rfl
  · rfl

theorem deliver_barred (h : e.Fresh) (hunlikely : e.signerPlausible v = false)
    (hbarred : e.fold.nodes.contains v.eventId = true ∨ e.wouldBuffer v = true) : Undisturbed e (e.deliver v) := by
  cases hbuffer : e.wouldBuffer v with
  | true =>
    unfold deliver
    rw [hbuffer, hunlikely, Bool.not_false, Bool.true_and, if_pos rfl]
    exact .refl e
  | false =>
    have htracked := hbarred.resolve_right (by simp [hbuffer])
    have hflushed := flushStoreBatch_undisturbed e
    have hqueue : ∀ (depth : OrdMap EventId Nat) (batch : List (ValidatedEvent env room)),
        Undisturbed e ({ e with backfillDepth := depth, pendingBatch := batch } : SyncEngine env sealing room) :=
      fun _ _ => ⟨⟨rfl, rfl⟩, rfl⟩
    unfold deliver
    rw [hbuffer, Bool.false_and, if_neg Bool.false_ne_true, ingestFold_tracked h htracked]
    dsimp only
    split
    · split_ifs
      · exact (hqueue _ _).trans (flushStoreBatch_undisturbed _)
      · exact hqueue _ _
    · have hunlikely' : e.flushStoreBatch.signerPlausible v = false := by
        unfold signerPlausible snapshot at hunlikely ⊢
        rw [hflushed.1.2]
        exact hunlikely
      rw [onBuffered_unlikely hunlikely']
      exact hflushed
    · exact (hqueue _ e.pendingBatch).trans (flushStoreBatch_undisturbed _)

theorem deliver_grows (h : e.Fresh) (hnew : e.fold.nodes.contains v.eventId = false)
    (hbuffer : e.wouldBuffer v = false) : e.foldTrackedLen < (e.deliver v).foldTrackedLen := by
  have hcarried := @tracks_carried env sealing room (e.foldTrackedLen + 1)
  have hfolded : (e.ingestFold v).Fresh ∧ e.foldTrackedLen + 1 ≤ (e.ingestFold v).foldTrackedLen :=
    ⟨h.ingestFold v, ingestFold_grows h hnew⟩
  have hqueue : ∀ (depth : OrdMap EventId Nat) (batch : List (ValidatedEvent env room)),
      Fresh ({ e.ingestFold v with backfillDepth := depth, pendingBatch := batch } : SyncEngine env sealing room) ∧
        e.foldTrackedLen + 1 ≤ foldTrackedLen
          ({ e.ingestFold v with backfillDepth := depth, pendingBatch := batch } : SyncEngine env sealing room) :=
    fun _ _ => ⟨hfolded.1.view ⟨rfl, rfl⟩, hfolded.2⟩
  have hdelivered : (e.deliver v).Fresh ∧ e.foldTrackedLen + 1 ≤ (e.deliver v).foldTrackedLen := by
    unfold deliver
    rw [hbuffer, Bool.false_and, if_neg Bool.false_ne_true]
    dsimp only
    split
    · split_ifs
      · exact hcarried.flush (hqueue _ _)
      · exact hqueue _ _
    · exact hcarried.books (hcarried.flush hfolded) (onBuffered_reparks _ trivial _)
    · exact hcarried.flush (hqueue _ (e.ingestFold v).pendingBatch)
  exact hdelivered.2

/-- A frame of an outsider that is valid. -/
def OutsiderFrame (snapshot : MembershipSnapshot) (room : RoomId) (env : Env) (frame : Frame) : Prop :=
  (∃ v : ValidatedEvent env room, validate env ⟨room, none⟩ frame.eventId frame.event = .ok v) ∧
    Outsider snapshot frame.event

theorem deliverFrame_barred {frame : Frame} (h : e.Fresh) (hframe : OutsiderFrame e.snapshot room env frame)
    (hbarred : e.barredFrame frame = true) : Undisturbed e (e.deliverFrame frame) := by
  obtain ⟨⟨v, hv⟩, houtsider⟩ := hframe
  obtain ⟨hid, hevent⟩ := validate_ok hv
  unfold deliverFrame
  split_ifs with hcached
  · exact .refl e
  · rw [hv]
    refine deliver_barred h (Outsider.unlikely (hevent ▸ houtsider)) ?_
    rw [barredFrame, Bool.or_eq_true, Bool.or_eq_true] at hbarred
    rcases hbarred with (hseen | htracked) | hbuffer
    · exact absurd hseen hcached
    · exact Or.inl (hid ▸ htracked)
    · exact Or.inr (by rw [wouldBuffer, hevent]; exact hbuffer)

theorem deliverFrame_grows {frame : Frame} (h : e.Fresh) (hframe : OutsiderFrame e.snapshot room env frame)
    (hbarred : e.barredFrame frame = false) : e.foldTrackedLen < (e.deliverFrame frame).foldTrackedLen := by
  obtain ⟨⟨v, hv⟩, -⟩ := hframe
  obtain ⟨hid, hevent⟩ := validate_ok hv
  rw [barredFrame, Bool.or_eq_false_iff, Bool.or_eq_false_iff] at hbarred
  obtain ⟨⟨hcached, hnew⟩, hbuffer⟩ := hbarred
  unfold deliverFrame
  rw [hcached, if_neg Bool.false_ne_true, hv]
  exact deliver_grows h (hid ▸ hnew) (by rw [wouldBuffer, hevent]; exact hbuffer)

/-- Each frame is barred where the frames before it have led. -/
def barredFrames : List Frame → SyncEngine env sealing room → Bool
  | [], _ => true
  | frame :: frames, e => e.barredFrame frame && barredFrames frames (e.deliverFrame frame)

theorem SameView.snapshot (h : SameView e f) : f.snapshot = e.snapshot :=
  congrArg MembershipProjectionCache.snapshot h.2

theorem Fresh.deliverFrame (h : e.Fresh) (frame : Frame) : (e.deliverFrame frame).Fresh :=
  Carried.deliverFrame fresh_carried h fun _ _ _ => trivial

/-- What has been tracked stays tracked through further frames. -/
theorem le_deliverFrames (frames : List Frame) (h : e.Fresh) :
    (frames.foldl SyncEngine.deliverFrame e).Fresh ∧
      e.foldTrackedLen ≤ (frames.foldl SyncEngine.deliverFrame e).foldTrackedLen := by
  refine List.foldlRecOn frames _
    (motive := fun f : SyncEngine env sealing room => f.Fresh ∧ e.foldTrackedLen ≤ f.foldTrackedLen) ⟨h, le_rfl⟩
    fun f hf frame _ => ?_
  exact (tracks_carried e.foldTrackedLen).deliverFrame hf fun _ _ _ => trivial

theorem le_finalizeDelivery (h : e.Fresh) : e.foldTrackedLen ≤ e.finalizeDelivery.foldTrackedLen :=
  ((tracks_carried e.foldTrackedLen).finalizeDelivery ⟨h, le_rfl⟩).2

/-- The frames of one call. -/
theorem deliverFrames_barred (frames : List Frame) (h : e.Fresh)
    (hframes : ∀ frame ∈ frames, OutsiderFrame e.snapshot room env frame) :
    (barredFrames frames e = true → Undisturbed e (frames.foldl SyncEngine.deliverFrame e)) ∧
      (barredFrames frames e = false →
        e.foldTrackedLen < (frames.foldl SyncEngine.deliverFrame e).foldTrackedLen) := by
  induction frames generalizing e with
  | nil => exact ⟨fun _ => .refl e, fun hfalse => by cases hfalse⟩
  | cons frame frames ih =>
    have hframe := hframes frame List.mem_cons_self
    rw [barredFrames, List.foldl_cons]
    cases hbarred : e.barredFrame frame with
    | false =>
      refine ⟨fun htrue => absurd htrue Bool.false_ne_true, fun _ => ?_⟩
      exact (deliverFrame_grows h hframe hbarred).trans_le (le_deliverFrames frames (h.deliverFrame frame)).2
    | true =>
      have hstill := deliverFrame_barred h hframe hbarred
      obtain ⟨hpos, hneg⟩ := ih (h.deliverFrame frame) fun frame' hmem => by
        rw [hstill.1.snapshot]
        exact hframes frame' (List.mem_cons_of_mem _ hmem)
      rw [Bool.true_and]
      refine ⟨fun hrest => hstill.trans (hpos hrest), fun hrest => ?_⟩
      rw [← hstill.1.foldTrackedLen]
      exact hneg hrest

/-! ### The flood -/

/-- The call delivers frames from a peer. -/
def Input.isDelivery : Input → Bool
  | .ingestFrame _ | .onMessage _ (.events _) | .onMessage _ (.terminalEvents _) => true
  | _ => false

/-- A call that the fold and the park do not feel: of another room, or with every frame barred and the park awake. -/
def barredInput (e : SyncEngine env sealing room) : Input → Bool
  | .onMessage msgRoom msg => decide (msgRoom ≠ room) || barredFrames msg.frames e && e.parkAwake
  | input => barredFrames input.frames e && e.parkAwake

/-- Every call of a run is barred where the calls before it have led. -/
def barred : List Input → SyncEngine env sealing room → Bool
  | [], _ => true
  | input :: inputs, e => e.barredInput input && barred inputs (e.step input)

/-- Frames and the end of the call they came in. -/
theorem delivery_barred (frames : List Frame) (h : e.Fresh)
    (hframes : ∀ frame ∈ frames, OutsiderFrame e.snapshot room env frame) :
    ((barredFrames frames e && e.parkAwake) = true →
        Undisturbed e (frames.foldl SyncEngine.deliverFrame e).finalizeDelivery) ∧
      ((barredFrames frames e && e.parkAwake) = false →
        Sinks e (frames.foldl SyncEngine.deliverFrame e).finalizeDelivery) := by
  obtain ⟨hpos, hneg⟩ := deliverFrames_barred frames h hframes
  obtain ⟨hfresh, -⟩ := le_deliverFrames frames h
  cases hbarred : barredFrames frames e with
  | false =>
    refine ⟨fun htrue => absurd htrue Bool.false_ne_true, fun _ => Or.inl ?_⟩
    exact (hneg hbarred).trans_le (le_finalizeDelivery hfresh)
  | true =>
    have hstill := hpos hbarred
    rw [Bool.true_and]
    refine ⟨fun hawake => hstill.trans (finalizeDelivery_awake hfresh ?_), fun hasleep => ?_⟩
    · exact hstill.parkAwake.trans hawake
    · exact hstill.sinks (finalizeDelivery_sinks hfresh (hstill.parkAwake.trans hasleep))

theorem step_barred {input : Input} (h : e.Fresh) (hdelivery : input.isDelivery = true)
    (hframes : ∀ frame ∈ input.frames, OutsiderFrame e.snapshot room env frame) :
    (e.barredInput input = true → Undisturbed e (e.step input)) ∧
      (e.barredInput input = false → Sinks e (e.step input)) := by
  cases input with
  | ingestFrame frame => exact delivery_barred [frame] h hframes
  | onMessage msgRoom msg =>
    have hmsg : ∀ frames : List Frame, (∀ frame ∈ frames, OutsiderFrame e.snapshot room env frame) →
        ((decide (msgRoom ≠ room) || barredFrames frames e && e.parkAwake) = true →
          Undisturbed e (if msgRoom ≠ room then e else
            (frames.foldl SyncEngine.deliverFrame e).finalizeDelivery)) ∧
        ((decide (msgRoom ≠ room) || barredFrames frames e && e.parkAwake) = false →
          Sinks e (if msgRoom ≠ room then e else (frames.foldl SyncEngine.deliverFrame e).finalizeDelivery)) := by
      intro frames hknown
      by_cases hroom : msgRoom ≠ room
      · rw [decide_eq_true hroom, Bool.true_or, if_pos hroom]
        exact ⟨fun _ => .refl e, fun hfalse => by cases hfalse⟩
      · rw [decide_eq_false hroom, Bool.false_or, if_neg hroom]
        exact delivery_barred frames h hknown
    cases msg with
    | events frames => exact hmsg frames hframes
    | terminalEvents frames => exact hmsg frames hframes
    | adminTip _ => cases hdelivery
    | keyHistory _ => cases hdelivery
    | other => cases hdelivery
  | publish _ => cases hdelivery
  | onConnect _ => cases hdelivery
  | onDisconnect _ => cases hdelivery
  | onTick => cases hdelivery
  | insertRoomKey _ _ => cases hdelivery

theorem Input.isDelivery.plain {input : Input} (h : input.isDelivery = true) : input.Plain room := by
  cases input with
  | onMessage msgRoom msg =>
    cases msg with
    | adminTip _ => cases h
    | _ => trivial
  | onTick => cases h
  | _ => trivial

/-- Whatever is delivered, the fold does not forget. -/
theorem le_flood {inputs : List Input} (h : e.Fresh) (hdelivery : ∀ input ∈ inputs, input.isDelivery = true) :
    e.foldTrackedLen ≤ (inputs.foldl step e).foldTrackedLen := by
  refine (List.foldlRecOn inputs _
    (motive := fun f : SyncEngine env sealing room => f.Fresh ∧ e.foldTrackedLen ≤ f.foldTrackedLen) ⟨h, le_rfl⟩
    fun f hf input hinput => ?_).2
  exact (tracks_carried e.foldTrackedLen).step_plain hf (Input.isDelivery.plain (hdelivery input hinput))
    fun _ _ _ _ _ => trivial

/-- The fold tracks more at the end of a flood, or the park has at most become shorter. -/
theorem flood_drifts {inputs : List Input} (h : e.Fresh) (hdelivery : ∀ input ∈ inputs, input.isDelivery = true)
    (hframes : ∀ input ∈ inputs, ∀ frame ∈ input.frames, OutsiderFrame e.snapshot room env frame) :
    Drifts e (inputs.foldl step e) := by
  induction inputs generalizing e with
  | nil => exact (Undisturbed.refl e).drifts
  | cons input inputs ih =>
    obtain ⟨hstill, hsinks⟩ := step_barred h (hdelivery input List.mem_cons_self) (hframes input List.mem_cons_self)
    have htail := fun i hi => hdelivery i (List.mem_cons_of_mem input hi)
    have hstep : Drifts e (e.step input) := by
      cases hbarred : e.barredInput input with
      | true => exact (hstill hbarred).drifts
      | false => exact (hsinks hbarred).drifts
    rw [List.foldl_cons]
    rcases hstep with hlt | ⟨hview, hlen⟩
    · exact Or.inl (hlt.trans_le (le_flood (h.step input) htail))
    · refine Drifts.trans (Or.inr ⟨hview, hlen⟩) (ih (h.step input) htail fun i hi frame hframe => ?_)
      rw [hview.snapshot]
      exact hframes i (List.mem_cons_of_mem _ hi) frame hframe

/-- A flood whose calls are all barred is not felt; any other is. -/
theorem flood_barred {inputs : List Input} (h : e.Fresh) (hdelivery : ∀ input ∈ inputs, input.isDelivery = true)
    (hframes : ∀ input ∈ inputs, ∀ frame ∈ input.frames, OutsiderFrame e.snapshot room env frame) :
    (barred inputs e = true → Undisturbed e (inputs.foldl step e)) ∧
      (barred inputs e = false → Sinks e (inputs.foldl step e)) := by
  induction inputs generalizing e with
  | nil => exact ⟨fun _ => .refl e, fun hfalse => by cases hfalse⟩
  | cons input inputs ih =>
    obtain ⟨hstill, hsinks⟩ := step_barred h (hdelivery input List.mem_cons_self) (hframes input List.mem_cons_self)
    have htail := fun i hi => hdelivery i (List.mem_cons_of_mem input hi)
    have hlater : SameView e (e.step input) → ∀ i ∈ inputs, ∀ frame ∈ i.frames,
        OutsiderFrame (e.step input).snapshot room env frame := by
      intro hview i hi frame hframe
      rw [hview.snapshot]
      exact hframes i (List.mem_cons_of_mem _ hi) frame hframe
    rw [barred, List.foldl_cons]
    cases hbarred : e.barredInput input with
    | false =>
      refine ⟨fun htrue => absurd htrue Bool.false_ne_true, fun _ => ?_⟩
      rcases hsinks hbarred with hlt | ⟨hview, hlen⟩
      · exact Or.inl (hlt.trans_le (le_flood (h.step input) htail))
      · exact Sinks.trans (Or.inr ⟨hview, hlen⟩) (flood_drifts (h.step input) htail (hlater hview))
    | true =>
      have hundisturbed := hstill hbarred
      obtain ⟨hpos, hneg⟩ := ih (h.step input) htail (hlater hundisturbed.1)
      rw [Bool.true_and]
      exact ⟨fun hrest => hundisturbed.trans (hpos hrest), fun hrest => hundisturbed.sinks (hneg hrest)⟩

/-- A flood of outsiders leaves the number of tracked events and the size of the park as they were exactly when every
frame is known already or cites something that is not stored, and every parked event waits in the fold. -/
theorem flood_unfelt_iff {occurs : EventId → SignedEvent → Prop} {e : SyncEngine env sealing room}
    (hreach : Reachable occurs e) {inputs : List Input} (hdelivery : ∀ input ∈ inputs, input.isDelivery = true)
    (hframes : ∀ input ∈ inputs, ∀ frame ∈ input.frames, OutsiderFrame e.snapshot room env frame) :
    ((inputs.foldl step e).foldTrackedLen = e.foldTrackedLen ∧ (inputs.foldl step e).parkedLen = e.parkedLen) ↔
      barred inputs e = true := by
  obtain ⟨hpos, hneg⟩ := flood_barred hreach.fresh hdelivery hframes
  constructor
  · rintro ⟨htracked, hparked⟩
    by_contra hbarred
    rcases hneg (Bool.eq_false_iff.mpr hbarred) with hlt | ⟨-, hlen⟩
    · omega
    · omega
  · intro hbarred
    have hstill := hpos hbarred
    refine ⟨hstill.1.foldTrackedLen, ?_⟩
    unfold parkedLen
    rw [hstill.2]

end SyncEngine

namespace Toy

/-- The node of member 2's room, which participant 3 was never invited to. -/
def besieged : SyncEngine toyEnv Toy.sealing Toy.room := Toy.run memberRoom

/-- Participant 3 cites an event nobody has. -/
def phantomJunk : Frame := Toy.frame (8, message 3 "junk" [77])

/-- Participant 3 cites the genesis. -/
def groundedJunk : Frame := Toy.frame (9, message 3 "junk" [1])

theorem reachable_besieged : Reachable (fun _ _ => True) besieged := Toy.reachable_run fun _ _ => trivial

/-- What the node makes of the junk, evaluated in one go. -/
theorem besieged_computed :
    (validate toyEnv ⟨Toy.room, none⟩ phantomJunk.eventId phantomJunk.event).isOk = true ∧
    (validate toyEnv ⟨Toy.room, none⟩ groundedJunk.eventId groundedJunk.event).isOk = true ∧
    besieged.snapshot.admin ≠ some (identity 3) ∧ (besieged.snapshot.member (identity 3)).isNone = true ∧
    SyncEngine.barred [.ingestFrame phantomJunk, .onMessage Toy.room (.events [phantomJunk])] besieged = true ∧
    besieged.foldTrackedLen = 3 ∧ (besieged.step (.ingestFrame groundedJunk)).foldTrackedLen = 4 ∧
    (besieged.step (.ingestFrame groundedJunk)).fold.isAccepted groundedJunk.eventId = false := by
  decide +kernel

theorem junk_outsider {frame : Frame} (h : frame = phantomJunk ∨ frame = groundedJunk) :
    SyncEngine.OutsiderFrame besieged.snapshot Toy.room toyEnv frame := by
  obtain ⟨hphantom, hgrounded, hadmin, hmember, -⟩ := besieged_computed
  have hvalid : ∀ {r : Except RejectReason (ValidatedEvent toyEnv Toy.room)}, r.isOk = true → ∃ v, r = .ok v := by
    intro r hr
    cases r with
    | ok v => exact ⟨v, rfl⟩
    | error _ => cases hr
  have houtsider : ∀ body prev, SyncEngine.Outsider besieged.snapshot (message 3 body prev) := by
    intro body prev
    refine ⟨fun c hc => ?_, hadmin, Option.isNone_iff_eq_none.mp hmember⟩
    cases hc
  rcases h with rfl | rfl
  · exact ⟨hvalid hphantom, houtsider "junk" [77]⟩
  · exact ⟨hvalid hgrounded, houtsider "junk" [1]⟩

end Toy

namespace SyncEngine

/-- Two frames that cite a phantom are dropped. -/
theorem flood_unfelt_phantom :
    ([Input.ingestFrame Toy.phantomJunk, .onMessage Toy.room (.events [Toy.phantomJunk])].foldl step
        Toy.besieged).foldTrackedLen = Toy.besieged.foldTrackedLen ∧
      ([Input.ingestFrame Toy.phantomJunk, .onMessage Toy.room (.events [Toy.phantomJunk])].foldl step
        Toy.besieged).parkedLen = Toy.besieged.parkedLen := by
  obtain ⟨-, -, -, -, hbarred, -⟩ := Toy.besieged_computed
  refine (flood_unfelt_iff Toy.reachable_besieged (by decide) ?_).mpr hbarred
  intro input hinput frame hframe
  simp only [List.mem_cons, List.not_mem_nil, or_false] at hinput
  rcases hinput with rfl | rfl
  · exact Toy.junk_outsider (Or.inl (List.mem_singleton.mp hframe))
  · exact Toy.junk_outsider (Or.inl (List.mem_singleton.mp hframe))

/-- One frame that cites the stored genesis is rejected by the fold, which keeps it. -/
theorem flood_felt :
    Reachable (fun _ _ => True) Toy.besieged ∧
      OutsiderFrame Toy.besieged.snapshot Toy.room toyEnv Toy.groundedJunk ∧ Toy.besieged.foldTrackedLen = 3 ∧
      (Toy.besieged.step (.ingestFrame Toy.groundedJunk)).foldTrackedLen = 4 ∧
      (Toy.besieged.step (.ingestFrame Toy.groundedJunk)).fold.isAccepted Toy.groundedJunk.eventId = false := by
  obtain ⟨-, -, -, -, -, hbefore, hafter, hrejected⟩ := Toy.besieged_computed
  exact ⟨Toy.reachable_besieged, Toy.junk_outsider (Or.inr rfl), hbefore, hafter, hrejected⟩

end SyncEngine

end IrohRooms
