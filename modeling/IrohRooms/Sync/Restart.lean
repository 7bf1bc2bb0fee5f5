import IrohRooms.Store.Rebuild
import IrohRooms.Sync.Vigilance

/-!
# Reopening an engine

What is reopened is the store and the rows of the sync tables. The fold is built again from the causally placed rows,
and the suspicion is read from the one `sync_state` row, which follows the engine's own through `saveSyncState`: every
change is written, except that a sequence number beyond the range of an SQL integer is refused. When the accepted events
are stored, none of them stands on a rejected parent, and every chased tip fits, the reopened engine has the snapshot,
the verdict and the fail-closed subjects it had (`reopened_keeps_posture`).
-/

namespace IrohRooms

variable {env : Env} {sealing : Sealing} {room : RoomId}

/-- The largest SQL integer. -/
def i64Max : Nat := 2 ^ 63 - 1

/-- The suspicion fits its columns. -/
def SuspectTip.fits (tip : Option SuspectTip) : Bool := tip.all fun t => decide (t.seq ≤ i64Max)

/-- Write the suspicion to its row; a refused write leaves the row as it was. -/
def saveSyncState (row tip : Option SuspectTip) : Option SuspectTip := if SuspectTip.fits tip then tip else row

namespace SyncEngine

variable {e : SyncEngine env sealing room} {W : Universe}

/-! ### The row of the suspicion -/

/-- The suspicion once the call has spent a tick of it or armed it, before any delivery. -/
def startTip (e : SyncEngine env sealing room) : Input → Option SuspectTip
  | .onTick => e.refillTokens.expireSuspectTip.suspectTip
  | .onMessage msgRoom (.adminTip (some t)) =>
    if msgRoom = room ∧ e.isAhead t.1 t.2 = true then (e.armSuspectTip t.1 t.2).suspectTip else e.suspectTip
  | _ => e.suspectTip

/-- The row after a call: each change is written, first the call's own one, then that of catching up. -/
def checkpoint (e : SyncEngine env sealing room) (row : Option SuspectTip) (input : Input) : Option SuspectTip :=
  let started := if e.startTip input = e.suspectTip then row else saveSyncState row (e.startTip input)
  let after := (e.step input).suspectTip
  if after = e.startTip input then started else saveSyncState started after

/-- The row after opening: a suspicion that is spent is cleared. -/
def openRow (e : SyncEngine env sealing room) (tables : SyncTables env room) : Option SuspectTip :=
  if e.suspectTip = tables.suspectTip then tables.suspectTip else saveSyncState tables.suspectTip e.suspectTip

/-- The row after a run. -/
def rowAfter (e : SyncEngine env sealing room) (row : Option SuspectTip) : List Input → Option SuspectTip
  | [] => row
  | input :: inputs => (e.step input).rowAfter (e.checkpoint row input) inputs

/-- Every tip that is ahead when it comes fits. -/
def FittingTips (e : SyncEngine env sealing room) : List Input → Prop
  | [] => True
  | input :: inputs => (∀ t, input = .onMessage room (.adminTip (some t)) → e.isAhead t.1 t.2 = true → t.2 ≤ i64Max) ∧
      (e.step input).FittingTips inputs

theorem saveSyncState_of_fits {tip : Option SuspectTip} (h : SuspectTip.fits tip = true) (row : Option SuspectTip) :
    saveSyncState row tip = tip := if_pos h

theorem fits_some {t : SuspectTip} : SuspectTip.fits (some t) = true ↔ t.seq ≤ i64Max := by
  rw [SuspectTip.fits, Option.all_some, decide_eq_true_eq]

theorem fits_of_some {tip : Option SuspectTip} (h : ∀ t, tip = some t → t.seq ≤ i64Max) : SuspectTip.fits tip = true := by
  cases tip with
  | none => rfl
  | some t => exact fits_some.mpr (h t rfl)

theorem step_fits {input : Input} (h : SuspectTip.fits e.suspectTip = true)
    (hfitting : ∀ t, input = .onMessage room (.adminTip (some t)) → e.isAhead t.1 t.2 = true → t.2 ≤ i64Max) :
    SuspectTip.fits (e.step input).suspectTip = true := by
  refine fits_of_some fun t ht => ?_
  rcases step_some ht with ⟨-, hold⟩ | ⟨-, hold⟩ | ⟨hinput, hahead, -⟩
  · rw [hold] at h
    exact fits_some.mp h
  · rw [hold] at h
    exact fits_some.mp h
  · exact hfitting _ hinput hahead

theorem startTip_fits {input : Input} (h : SuspectTip.fits e.suspectTip = true)
    (hfitting : ∀ t, input = .onMessage room (.adminTip (some t)) → e.isAhead t.1 t.2 = true → t.2 ≤ i64Max) :
    SuspectTip.fits (e.startTip input) = true := by
  unfold startTip
  split
  · refine fits_of_some fun t ht => ?_
    obtain ⟨old, hold, rfl⟩ := e.refillTokens.expireSuspectTip_settles.2.2 t ht
    have hold' : e.suspectTip = some { t with attempts := t.attempts + 1 } := hold
    rw [hold'] at h
    exact fits_some.mp h
  · rename_i msgRoom t
    split_ifs with hahead
    · obtain ⟨attempts, htip⟩ := e.armSuspectTip_suspectTip t.1 t.2
      rw [htip]
      exact fits_some.mpr (hfitting t (by rw [hahead.1]) hahead.2)
    · exact h
  · exact h

/-- As long as the tips fit, the row is the engine's suspicion. -/
theorem checkpoint_eq {input : Input} (h : SuspectTip.fits e.suspectTip = true)
    (hfitting : ∀ t, input = .onMessage room (.adminTip (some t)) → e.isAhead t.1 t.2 = true → t.2 ≤ i64Max) :
    e.checkpoint e.suspectTip input = (e.step input).suspectTip := by
  have hstarted : (if e.startTip input = e.suspectTip then e.suspectTip
      else saveSyncState e.suspectTip (e.startTip input)) = e.startTip input := by
    split_ifs with hsame
    · exact hsame.symm
    · exact saveSyncState_of_fits (startTip_fits h hfitting) _
  unfold checkpoint
  dsimp only
  rw [hstarted]
  split_ifs with hsame
  · exact hsame.symm
  · exact saveSyncState_of_fits (step_fits h hfitting) _

theorem rowAfter_eq {inputs : List Input} (h : SuspectTip.fits e.suspectTip = true) (hfitting : e.FittingTips inputs) :
    e.rowAfter e.suspectTip inputs = (inputs.foldl SyncEngine.step e).suspectTip := by
  induction inputs generalizing e with
  | nil => rfl
  | cons input inputs ih =>
    rw [rowAfter, checkpoint_eq h hfitting.1]
    exact ih (step_fits h hfitting.1) hfitting.2

/-! ### The refold -/

/-- A stored event is the one the fold accepted. -/
theorem AtRest.stored_event (h : e.AtRest) (hholds : (W.invariant env room).Holds e) {id : EventId} {row : Row env room}
    (hrow : e.store.rows.get? id = some row) :
    e.fold.isAccepted id = true ∧ e.fold.event? id = some row.event.event := by
  have hacc := (h.stored id).mp (EventStore.contains_iff.mpr ⟨row, hrow⟩)
  obtain ⟨event, hevent⟩ := RoomMembership.event?_of_result (RoomMembership.result_ne_none_of_accepted hacc)
  have hfold : W.Occurs id event := hholds.fold.2 hevent
  have hstore : W.Occurs row.event.eventId row.event.event := (hholds.store.2 hrow).1
  rw [e.store.keyed id row hrow] at hstore
  rw [hevent, Option.some.inj (hfold.symm.trans hstore)]
  exact ⟨hacc, rfl⟩

/-- Every stored event is placed: its ancestors are accepted, hence stored. -/
theorem AtRest.placed (h : e.AtRest) (hholds : (W.invariant env room).Holds e) (hclean : e.fold.NoRejectedParent)
    {id : EventId} {row : Row env room} (hrow : e.store.rows.get? id = some row) : row.lamport.isSome = true := by
  have hparent : ∀ {p c}, Staged.Dep e.store.deps p c → e.store.contains p = true := by
    intro p c hdep
    obtain ⟨crow, hcrow, hp⟩ := EventStore.dep_iff.mp hdep
    obtain ⟨hacc, hevent⟩ := h.stored_event hholds hcrow
    exact (h.stored p).mpr (h.synced.settled.parent_accepted hclean hacc hevent hp)
  have hancestry : e.store.AncestryStored id := by
    refine ⟨EventStore.contains_iff.mpr ⟨row, hrow⟩, fun a hbelow => ?_⟩
    obtain ⟨c, hdep, -⟩ := Relation.TransGen.head'_iff.mp hbelow
    exact hparent hdep
  have hacyclic : e.store.Acyclic := Universe.acyclic_of_stored hholds.store.2
  obtain ⟨n, hn⟩ := EventStore.Consistent.lamport_of_ancestry hholds.store.1 hacyclic hancestry
  rw [EventStore.lamportOf, hrow, Option.bind_some] at hn
  rw [hn]
  rfl

theorem AtRest.mem_roomTail (h : e.AtRest) (hholds : (W.invariant env room).Holds e) (hclean : e.fold.NoRejectedParent)
    {v : ValidatedEvent env room} : v ∈ e.store.roomTail.map Row.event ↔ e.store.event? v.eventId = some v := by
  rw [List.mem_map, EventStore.event?_eq_some]
  constructor
  · rintro ⟨row, hmem, rfl⟩
    exact ⟨row, (EventStore.mem_roomTail.mp hmem).1, rfl⟩
  · rintro ⟨row, hrow, rfl⟩
    exact ⟨row, EventStore.mem_roomTail.mpr ⟨hrow, h.placed hholds hclean hrow⟩, rfl⟩

/-- The refold tracks exactly the accepted events. -/
theorem AtRest.refold_log (h : e.AtRest) (hholds : (W.invariant env room).Holds e) (hclean : e.fold.NoRejectedParent)
    (id : EventId) (event : SignedEvent) :
    (RoomMembership.fromEvents (e.store.roomTail.map Row.event)).event? id = some event ↔
      e.fold.isAccepted id = true ∧ e.fold.event? id = some event := by
  have hmem := fun v => h.mem_roomTail (v := v) hholds hclean
  rw [RoomMembership.fromEvents_event?_iff fun v hv w hw hid => ?_]
  · constructor
    · rintro ⟨v, hv, rfl, rfl⟩
      obtain ⟨row, hrow, hevent⟩ := EventStore.event?_eq_some.mp ((hmem v).mp hv)
      rw [← hevent]
      rw [← hevent] at hrow
      exact h.stored_event hholds hrow
    · rintro ⟨hacc, hevent⟩
      obtain ⟨row, hrow⟩ := EventStore.contains_iff.mp ((h.stored id).mpr hacc)
      have hkey := e.store.keyed id row hrow
      refine ⟨row.event, (hmem _).mpr (EventStore.event?_eq_some.mpr ⟨row, hkey ▸ hrow, rfl⟩), hkey, ?_⟩
      exact Option.some.inj ((h.stored_event hholds hrow).2.symm.trans hevent)
  · have hv' := (hmem v).mp hv
    rw [hid, (hmem w).mp hw] at hv'
    rw [Option.some.inj hv']

/-- What the refold gives to read is what the fold gave. -/
theorem AtRest.refold_reads (h : e.AtRest) (hholds : (W.invariant env room).Holds e) (hclean : e.fold.NoRejectedParent) :
    (RoomMembership.fromEvents (e.store.roomTail.map Row.event)).snapshot = e.fold.snapshot ∧
    (RoomMembership.fromEvents (e.store.roomTail.map Row.event)).adminDivergence = e.fold.adminDivergence := by
  have hsettled := RoomMembership.settled_fromEvents (e.store.roomTail.map Row.event)
  have hlog := h.refold_log hholds hclean
  refine RoomMembership.reads_of_no_new h.synced.settled.wf hsettled.wf (fun id hacc => ?_) fun id hacc => ?_
  · exact h.synced.settled.refold_result hsettled hclean hlog hacc
  · rw [← h.synced.settled.refold hsettled hclean hlog id]
    exact hacc

/-! ### Reopening -/

theorem AtRest.reopened (h : e.AtRest) (hholds : (W.invariant env room).Holds e) (hclean : e.fold.NoRejectedParent)
    (hgen : e.fold.membershipProjectionGeneration < u64Max) {seed : Option SigningKey} {tables : SyncTables env room}
    (hrow : tables.suspectTip = e.suspectTip) {r : SyncEngine env sealing room}
    (hopen : openEngine e.config seed e.store tables = .ok r) :
    r.snapshot = e.snapshot ∧ r.completeness = e.completeness ∧ r.failClosedSubjects = e.failClosedSubjects := by
  obtain ⟨hsnap, hdiv⟩ := h.refold_reads hholds hclean
  have hr := openEngine_ok hopen
  have hsnap' : r.snapshot = e.snapshot := by
    rw [hr, h.synced.accurate hgen]
    exact hsnap
  have hdiv' : r.fold.adminDivergence = e.fold.adminDivergence := by
    rw [hr]
    exact hdiv
  have hcurrent : r.Current := by
    rw [hr]
    exact recomputeCompleteness_current _
  have hbehind : r.stillBehind = e.stillBehind := by
    rw [hr, restore, recomputeCompleteness_stillBehind]
    exact stillBehind_congr rfl hrow
  refine ⟨hsnap', ?_, ?_⟩
  · rw [hcurrent.completeness, h.current.completeness, hbehind, hsnap', hdiv']
  · rw [failClosedSubjects, failClosedSubjects, hcurrent.failClosed, h.current.failClosed, hbehind, hsnap']

theorem openRow_eq {config : SyncConfig} {seed : Option SigningKey} {store : EventStore env room}
    {tables : SyncTables env room} (hopen : openEngine config seed store tables = .ok e)
    (hfits : SuspectTip.fits tables.suspectTip = true) :
    e.openRow tables = e.suspectTip ∧ SuspectTip.fits e.suspectTip = true := by
  have hkept : e.suspectTip = tables.suspectTip ∨ e.suspectTip = none := by
    rw [openEngine_ok hopen, restore]
    exact (recomputeCompleteness_settles _).suspect
  have hfits' : SuspectTip.fits e.suspectTip = true := by
    rcases hkept with hsame | hnone
    · rw [hsame]
      exact hfits
    · rw [hnone]
      rfl
  refine ⟨?_, hfits'⟩
  unfold openRow
  split_ifs with hsame
  · exact hsame.symm
  · exact saveSyncState_of_fits hfits' _

/-- In every state of a run in which each event that has to wait has room and every tip that is ahead fits its row,
if no accepted event stands on a rejected parent and the projection's counter is not used up, reopening over the store
and the row keeps the snapshot, the verdict and the fail-closed subjects. -/
theorem reopened_keeps_posture {config : SyncConfig} {seed : Option SigningKey} {store : EventStore env room}
    {tables : SyncTables env room} (hwrites : store.NeverFails) (hstoreOk : W.StoreOk store)
    (hparked : ∀ id p, tables.parked.get? id = some p → p.event.eventId = id ∧ W.Occurs id p.event.event)
    (hstored : ∀ id, store.contains id = true →
      (RoomMembership.fromEvents (store.roomTail.map Row.event)).isAccepted id = true)
    (hfits : SuspectTip.fits tables.suspectTip = true) {opened : SyncEngine env sealing room}
    (hopen : openEngine config seed store tables = .ok opened) {inputs : List Input}
    (hoccurs : ∀ input ∈ inputs, ∀ frame ∈ input.frames, W.Occurs frame.eventId frame.event)
    (hroomy : opened.RoomyRun inputs) (hfitting : opened.FittingTips inputs)
    (hrun : e = inputs.foldl SyncEngine.step opened) (hclean : e.fold.NoRejectedParent)
    (hgen : e.fold.membershipProjectionGeneration < u64Max) {seed' : Option SigningKey} {tables' : SyncTables env room}
    (hrow : tables'.suspectTip = opened.rowAfter (opened.openRow tables) inputs) {r : SyncEngine env sealing room}
    (hreopen : openEngine e.config seed' e.store tables' = .ok r) :
    r.snapshot = e.snapshot ∧ r.completeness = e.completeness ∧ r.failClosedSubjects = e.failClosedSubjects := by
  obtain ⟨hrest, hholds⟩ := opened_ok hwrites hstoreOk hparked hstored hopen
  obtain ⟨hopenRow, hopened⟩ := openRow_eq hopen hfits
  rw [hopenRow, rowAfter_eq hopened hfitting, ← hrun] at hrow
  have hrest' : e.AtRest := by
    rw [hrun]
    exact hrest.steps hroomy
  have hholds' : (W.invariant env room).Holds e := by
    rw [hrun]
    exact hholds.steps (knownFrames_of_occurs hoccurs)
  exact hrest'.reopened hholds' hclean hgen hrow hreopen

end SyncEngine

/-! ### The worked room -/

namespace Toy

theorem farTip_fitting : opened.FittingTips farTip := by
  have hframe : ∀ (e : SyncEngine toyEnv Toy.sealing Toy.room) (f : Frame) (t : EventId × Nat),
      SyncEngine.Input.ingestFrame f = .onMessage Toy.room (.adminTip (some t)) → e.isAhead t.1 t.2 = true →
      t.2 ≤ i64Max := fun _ _ _ ht => by cases ht
  refine ⟨hframe _ _, hframe _ _, hframe _ _, fun t ht _ => ?_, trivial⟩
  cases ht
  decide

/-- The member room, then a tip whose sequence number an SQL integer cannot hold. -/
def hugeTip : List SyncEngine.Input :=
  memberRoom.map (fun p => .ingestFrame (frame p)) ++ [.onMessage Toy.room (.adminTip (some (Bytes32.ofNat 9, 2 ^ 63)))]

/-- What a new node's tables hold after a run. -/
def tablesAfter (inputs : List SyncEngine.Input) : SyncTables toyEnv Toy.room :=
  ⟨.empty, opened.rowAfter (opened.openRow ⟨.empty, none, .empty, .empty⟩) inputs, .empty, .empty⟩

theorem tablesAfter_suspectTip (inputs : List SyncEngine.Input) : (tablesAfter inputs).suspectTip =
    opened.rowAfter (opened.openRow ⟨.empty, none, .empty, .empty⟩) inputs := rfl

/-- The node reopened after a run. -/
def restarted (inputs : List SyncEngine.Input) : SyncEngine toyEnv Toy.sealing Toy.room :=
  .restore .standard none (inputs.foldl SyncEngine.step opened).store (tablesAfter inputs)

end Toy

namespace SyncEngine

theorem reopened_keeps_posture_farTip :
    (Toy.restarted Toy.farTip).snapshot = (Toy.farTip.foldl SyncEngine.step Toy.opened).snapshot ∧
    (Toy.restarted Toy.farTip).completeness = (Toy.farTip.foldl SyncEngine.step Toy.opened).completeness ∧
    (Toy.restarted Toy.farTip).failClosedSubjects = (Toy.farTip.foldl SyncEngine.step Toy.opened).failClosedSubjects := by
  have hopen : openEngine .standard none (.openEmpty []) ⟨.empty, none, .empty, .empty⟩ = .ok Toy.opened := rfl
  have hreopen : openEngine (Toy.farTip.foldl SyncEngine.step Toy.opened).config none
      (Toy.farTip.foldl SyncEngine.step Toy.opened).store (Toy.tablesAfter Toy.farTip) = .ok (Toy.restarted Toy.farTip) := by
    have hconfig : (Toy.farTip.foldl SyncEngine.step Toy.opened).config = .standard := by decide +kernel
    rw [hconfig]
    rfl
  refine reopened_keeps_posture (W := Toy.memberUniverse) ?_ ?_ ?_ ?_ rfl hopen Toy.farTip_occurs Toy.farTip_roomy
    Toy.farTip_fitting rfl ?_ ?_ ?_ hreopen
  · exact fun _ hok => absurd hok List.not_mem_nil
  · exact (Toy.memberUniverse.invariant toyEnv Toy.room).storeEmpty []
  · exact fun _ _ hp => nomatch hp
  · exact fun _ hid => nomatch hid
  · exact RoomMembership.noRejectedParent_of_all (by decide +kernel)
  · decide +kernel
  · exact Toy.tablesAfter_suspectTip _

/-- The tip is chased but its row cannot be written: reopened, the node denies nobody. -/
theorem hugeTip_fails_open :
    (Toy.hugeTip.foldl SyncEngine.step Toy.opened).completeness = .adminViewSuspect ∧
    (Toy.hugeTip.foldl SyncEngine.step Toy.opened).failClosedSubjects = [Toy.identity 2] ∧
    (Toy.restarted Toy.hugeTip).completeness = .complete ∧ (Toy.restarted Toy.hugeTip).failClosedSubjects = [] := by
  decide +kernel

end SyncEngine

end IrohRooms
