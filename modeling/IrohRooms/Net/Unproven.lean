import IrohRooms.Net.Node
import IrohRooms.Net.Pump
import IrohRooms.Sync.Completeness
import IrohRooms.Sync.Idle

/-!
# What an unproven peer can change

A provisional peer that has not proven its capability may push events and advertise a tip. As long as the fold accepts
nothing the events change nothing about who is admitted, but a made-up tip does: it is chased whoever sent it, and
while it is chased every member but the admin is denied. `keepsAccess_iff` says that this is the only way.
-/

namespace IrohRooms

variable {env : Env} {sealing : Sealing} {room : RoomId} (isPoint : DeviceKey → Bool)

namespace SyncEngine

variable (e : SyncEngine env sealing room) (msg : RoomMessage)

/-- The engine after a message. -/
def handled : SyncEngine env sealing room := e.onMessage msg.roomId msg.body.toSync

/-- If handling the message makes the fold accept nothing, those denied and the admission table stay as they were. -/
def KeepsAccess : Prop :=
  (∀ id, (e.handled msg).fold.isAccepted id = true → e.fold.isAccepted id = true) →
    (e.handled msg).failClosedSubjects = e.failClosedSubjects ∧
    (RoomReconciler.admissionView (e.handled msg) : AdmissionView isPoint) = RoomReconciler.admissionView e

/-- The message is a tip ahead of the local chain, no tip is being chased, and there is someone to deny. -/
def StartsChase : Prop :=
  msg.roomId = room ∧ ∃ tip, msg.body = .adminTip (some tip) ∧ e.isAhead tip.1 tip.2 = true ∧ e.stillBehind = false ∧
    (removalSensitive e.snapshot).toList ≠ []

variable {e msg}

/-! ### A tip -/

theorem armSuspectTip_stillBehind {id : EventId} {seq : Nat} (h : e.isAhead id seq = true) :
    (e.armSuspectTip id seq).stillBehind = true := by
  obtain ⟨⟨-, -, -, hstore, -, -⟩, -⟩ := e.armSuspectTip_untouched id seq
  obtain ⟨attempts, htip⟩ := e.armSuspectTip_suspectTip id seq
  rw [stillBehind, htip]
  exact (isAhead_congr (congrArg EventStore.rows hstore) id seq).trans h

/-- After a tip the engine is behind if it was before or the tip is ahead. -/
theorem handleAdminTip_stillBehind (e : SyncEngine env sealing room) (tip : Option (EventId × Nat)) :
    (e.handleAdminTip tip).stillBehind = (e.stillBehind || tip.any fun t => e.isAhead t.1 t.2) := by
  unfold handleAdminTip
  rw [recomputeCompleteness_stillBehind]
  cases tip with
  | none => rw [Option.any_none, Bool.or_false]
  | some t =>
    dsimp only
    rw [Option.any_some]
    split_ifs with hahead
    · rw [armSuspectTip_stillBehind hahead, hahead, Bool.or_true]
    · rw [Bool.not_eq_true] at hahead
      rw [hahead, Bool.or_false]

theorem handleAdminTip_failClosed (h : e.AtRest) (tip : Option (EventId × Nat)) :
    (e.handleAdminTip tip).failClosedSubjects = e.failClosedSubjects ↔
      ¬ (e.stillBehind = false ∧ (tip.any fun t => e.isAhead t.1 t.2) = true ∧
        (removalSensitive e.snapshot).toList ≠ []) := by
  have hsnap : (e.handleAdminTip tip).snapshot = e.snapshot :=
    congrArg MembershipProjectionCache.snapshot (e.handleAdminTip_untouched tip).1.projection
  unfold failClosedSubjects
  rw [(e.handleAdminTip_current tip).failClosed, h.current.failClosed, hsnap, handleAdminTip_stillBehind]
  cases e.stillBehind with
  | true => simp
  | false =>
    cases (tip.any fun t => e.isAhead t.1 t.2) with
    | true => simp [OrdSet.toList, OrdMap.keys, OrdMap.empty]
    | false => simp

/-! ### Any message -/

theorem admissionView_congr {f : SyncEngine env sealing room} (hsnap : f.snapshot = e.snapshot)
    (hclosed : f.failClosedSubjects = e.failClosedSubjects) :
    (RoomReconciler.admissionView f : AdmissionView isPoint) = RoomReconciler.admissionView e := by
  unfold RoomReconciler.admissionView
  rw [hsnap, hclosed]

/-- Through a call in which nothing is accepted. -/
theorem Tracked.keeps {f : SyncEngine env sealing room} (h : Tracked e f)
    (hnone : ∀ id, f.fold.isAccepted id = true → e.fold.isAccepted id = true) :
    f.failClosedSubjects = e.failClosedSubjects ∧ f.snapshot = e.snapshot := by
  rcases h.idle with hidle | ⟨id, hid, hold⟩
  · exact ⟨congrArg OrdSet.toList hidle.posture.2.2, congrArg MembershipProjectionCache.snapshot hidle.projection⟩
  · rw [hnone id hid] at hold
    cases hold

theorem AtRest.keepsAccess_other (h : e.AtRest) (hmsg : ∀ tip, msg.body.toSync ≠ .adminTip tip) :
    KeepsAccess isPoint e msg := by
  intro hnone
  obtain ⟨hclosed, hsnap⟩ := (h.onMessage_tracked msg.roomId hmsg).keeps hnone
  exact ⟨hclosed, admissionView_congr isPoint hsnap hclosed⟩

/-- A tip of this room: it is handled, then the park is looked at. -/
theorem AtRest.handled_tip (h : e.AtRest) {tip : Option (EventId × Nat)} (hroom : msg.roomId = room)
    (hbody : msg.body = .adminTip tip) : (e.handleAdminTip tip).AtRest ∧
      e.handled msg = (e.handleAdminTip tip).finalizeDelivery := by
  obtain ⟨hu, hpark⟩ := e.handleAdminTip_untouched tip
  refine ⟨h.untouched hu hpark fun _ => e.handleAdminTip_current tip, ?_⟩
  unfold handled SyncEngine.onMessage
  rw [if_neg (not_not.mpr hroom), hbody]
  rfl

theorem AtRest.keepsAccess_tip (h : e.AtRest) {tip : Option (EventId × Nat)} (hroom : msg.roomId = room)
    (hbody : msg.body = .adminTip tip)
    (hquiet : ¬ (e.stillBehind = false ∧ (tip.any fun t => e.isAhead t.1 t.2) = true ∧
      (removalSensitive e.snapshot).toList ≠ [])) : KeepsAccess isPoint e msg := by
  obtain ⟨harmed, hhandled⟩ := h.handled_tip hroom hbody
  obtain ⟨hu, -⟩ := e.handleAdminTip_untouched tip
  intro hnone
  rw [hhandled] at hnone ⊢
  rw [← hu.fold] at hnone
  obtain ⟨hclosed, hsnap⟩ := ((tracked_carried _).finalizeDelivery harmed.tracked).keeps hnone
  have hsame := hclosed.trans ((handleAdminTip_failClosed h tip).mpr hquiet)
  have hsnap' := hsnap.trans (congrArg MembershipProjectionCache.snapshot hu.projection)
  exact ⟨hsame, admissionView_congr isPoint hsnap' hsame⟩

/-- If the fold holds the parked frames, a tip makes it accept nothing. -/
theorem AtRest.handled_tip_fold (h : e.AtRest) {tip : Option (EventId × Nat)} (hroom : msg.roomId = room)
    (hbody : msg.body = .adminTip tip) (hheld : ∀ id, e.park.contains id = true → e.fold.nodes.contains id = true) :
    (e.handled msg).fold = e.fold := by
  obtain ⟨harmed, hhandled⟩ := h.handled_tip hroom hbody
  obtain ⟨hu, hpark⟩ := e.handleAdminTip_untouched tip
  rw [hhandled]
  refine (Known.finalizeDelivery ⟨hu.fold, fun id p hp => ?_, harmed.synced.writes, harmed.synced.retry⟩).fold
  rw [harmed.synced.keyed id p hp]
  rw [hpark] at hp
  refine hheld id ?_
  rw [OrdMap.contains, hp]
  rfl

theorem AtRest.not_keepsAccess (h : e.AtRest) (hstarts : StartsChase e msg)
    (hheld : ∀ id, e.park.contains id = true → e.fold.nodes.contains id = true) : ¬ KeepsAccess isPoint e msg := by
  obtain ⟨hroom, tip, hbody, hahead, hbehind, hsomeone⟩ := hstarts
  obtain ⟨harmed, hhandled⟩ := h.handled_tip hroom hbody
  obtain ⟨hu, -⟩ := e.handleAdminTip_untouched (some tip)
  have hfold := h.handled_tip_fold hroom hbody hheld
  intro hkeeps
  have hsame := (hkeeps fun id hid => by rw [← hfold]; exact hid).1
  rw [hhandled] at hsame hfold
  obtain ⟨hclosed, -⟩ := ((tracked_carried _).finalizeDelivery harmed.tracked).keeps fun id hid => by
    rw [hfold] at hid
    rw [hu.fold]
    exact hid
  exact (handleAdminTip_failClosed h (some tip)).mp (hclosed.symm.trans hsame) ⟨hbehind, hahead, hsomeone⟩

/-- In a state reached by a run in which each event that has to wait has room, a message an unproven provisional peer
may send keeps access as it was unless it starts a chase; if the fold holds every parked frame, only then. -/
theorem keepsAccess_iff {config : SyncConfig} {seed : Option SigningKey} {store : EventStore env room}
    {tables : SyncTables env room} (hwrites : store.NeverFails)
    (hparked : ∀ id p, tables.parked.get? id = some p → p.event.eventId = id)
    (hstored : ∀ id, store.contains id = true →
      (RoomMembership.fromEvents (store.roomTail.map Row.event)).isAccepted id = true)
    {opened : SyncEngine env sealing room} (hopen : openEngine config seed store tables = .ok opened)
    {inputs : List Input} (hroomy : opened.RoomyRun inputs) (hrun : e = inputs.foldl SyncEngine.step opened) :
    ∀ msg : RoomMessage, provisionalAllows msg.body false = true →
      (¬ StartsChase e msg → KeepsAccess isPoint e msg) ∧
      ((∀ id, e.park.contains id = true → e.fold.nodes.contains id = true) →
        (KeepsAccess isPoint e msg ↔ ¬ StartsChase e msg)) := by
  have hrest : e.AtRest := by
    rw [hrun]
    refine AtRest.steps ?_ hroomy
    rw [openEngine_ok hopen]
    exact restore_atRest hwrites hparked hstored
  intro msg _
  have henough : ¬ StartsChase e msg → KeepsAccess isPoint e msg := by
    intro hno
    by_cases htip : ∃ tip, msg.body = .adminTip tip
    · obtain ⟨tip, hbody⟩ := htip
      by_cases hroom : msg.roomId = room
      · refine hrest.keepsAccess_tip isPoint hroom hbody fun ⟨hbehind, hahead, hsomeone⟩ => ?_
        obtain ⟨t, rfl, hahead'⟩ := (Option.any_eq_true _ _).mp hahead
        exact hno ⟨hroom, t, hbody, hahead', hbehind, hsomeone⟩
      · have hsame : e.handled msg = e := if_pos hroom
        intro _
        rw [hsame]
        exact ⟨rfl, rfl⟩
    · refine hrest.keepsAccess_other isPoint fun tip hsync => htip ⟨tip, ?_⟩
      unfold MessageBody.toSync at hsync
      split at hsync <;> cases hsync
      assumption
  exact ⟨henough, fun hheld => ⟨fun hkeeps hstarts => hrest.not_keepsAccess isPoint hstarts hheld hkeeps, henough⟩⟩

end SyncEngine

/-! ### The worked room -/

namespace Toy

/-- The genesis, the invite and the join of member 2. -/
def memberInputs : List SyncEngine.Input := memberRoom.map fun p => .ingestFrame (frame p)

theorem memberInputs_roomy : opened.RoomyRun memberInputs := by
  refine ⟨fun _ v _ _ _ => ?_, fun _ v _ _ _ => ?_, fun _ v _ _ _ => ?_, trivial⟩
  · exact hasRoom_of_small (by decide) v
  · exact hasRoom_of_small (by decide +kernel) v
  · exact hasRoom_of_small (by decide +kernel) v

theorem opened_atRest : opened.AtRest :=
  SyncEngine.restore_atRest (fun _ hok => absurd hok List.not_mem_nil) (fun _ _ hp => nomatch hp) fun _ hid => nomatch hid

/-- A tip that nobody holds. -/
def madeUp : RoomMessage := ⟨Toy.room, .adminTip (some (Bytes32.ofNat 9, 5))⟩

end Toy

namespace SyncEngine

/-- Heads and an unknown event keep access as it was. -/
theorem keepsAccess_iff_heads :
    KeepsAccess (fun _ => true) (Toy.memberInputs.foldl SyncEngine.step Toy.opened) ⟨Toy.room, .heads [Bytes32.ofNat 9]⟩ := by
  have hopen : openEngine .standard none (.openEmpty []) ⟨.empty, none, .empty, .empty⟩ = .ok Toy.opened := rfl
  refine (keepsAccess_iff (fun _ => true) ?_ ?_ ?_ hopen Toy.memberInputs_roomy rfl _ rfl).1 ?_
  · exact fun _ hok => absurd hok List.not_mem_nil
  · exact fun _ _ hp => nomatch hp
  · exact fun _ hid => nomatch hid
  · rintro ⟨-, tip, hbody, -⟩
    cases hbody

/-- The made-up tip of an unproven peer denies member 2. -/
theorem madeUp_denies : provisionalAllows Toy.madeUp.body false = true ∧
    (Toy.memberInputs.foldl SyncEngine.step Toy.opened).failClosedSubjects = [] ∧
    ((Toy.memberInputs.foldl SyncEngine.step Toy.opened).handled Toy.madeUp).failClosedSubjects = [Toy.identity 2] ∧
    ¬ KeepsAccess (fun _ => true) (Toy.memberInputs.foldl SyncEngine.step Toy.opened) Toy.madeUp := by
  have hrest : (Toy.memberInputs.foldl SyncEngine.step Toy.opened).AtRest := Toy.opened_atRest.steps Toy.memberInputs_roomy
  obtain ⟨hopen, hdenied, hpark⟩ :
      (Toy.memberInputs.foldl SyncEngine.step Toy.opened).failClosedSubjects = [] ∧
      ((Toy.memberInputs.foldl SyncEngine.step Toy.opened).handled Toy.madeUp).failClosedSubjects =
        [Toy.identity 2] ∧
      (Toy.memberInputs.foldl SyncEngine.step Toy.opened).park.entries = [] := by decide +kernel
  refine ⟨rfl, hopen, hdenied, ?_⟩
  refine hrest.not_keepsAccess _ ⟨rfl, _, rfl, by decide +kernel⟩ ?_
  intro id hid
  rw [OrdMap.contains, OrdMap.get?, hpark] at hid
  cases hid

end SyncEngine

end IrohRooms
