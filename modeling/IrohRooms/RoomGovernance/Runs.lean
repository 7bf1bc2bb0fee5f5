import IrohRooms.RoomGovernance.Fold

/-!
# Runs of the governance fold

What deciding one entry does to a pass is said once (`visitEntry_cases`). A pass leaves no entry that could still be
decided (`passRounds_settled`), and an entry that an outcome lists as accepted was accepted by a move of the second pass
(`GovernanceFold.exists_acceptedIn`).
-/

namespace IrohRooms.RoomGovernance

open Governance (Id Reject)

theorem Class.ofResult_eq_accept {result : Except Reject Unit} : Class.ofResult result = .accept ↔ result = .ok () := by
  cases result <;> simp [Class.ofResult]

/-- An entry is accepted as the genesis, or as the next one in the chain of its author. -/
theorem classify_eq_accept {entry : GovernanceEntryBody} {state : GovernanceState} {id : GovernanceEntryId}
    {approvalsByEntry : OrdMap GovernanceEntryId (List ApprovalBody)} :
    classify entry state id approvalsByEntry = .accept ↔ entry.roomId = state.roomId ∧
      ((state.admin = none ∧ entry.action.isInitRoom = true ∧ entry.seq = 1 ∧ entry.parent = none ∧
          authorizeGovernanceEntry state entry [] = .ok ()) ∨
        (state.admin ≠ none ∧ entry.action.isInitRoom = false ∧ forkWithTip state entry id = none ∧
          entry.seq = state.authorSeq entry.author + 1 ∧ entry.parent = state.authorTip entry.author ∧
          authorizeGovernanceEntry state entry (approvalsFor approvalsByEntry id) = .ok ())) := by
  unfold classify
  by_cases hroom : entry.roomId = state.roomId
  · rw [if_neg (not_not.mpr hroom)]
    by_cases hadmin : state.admin = none
    · rw [if_pos hadmin]
      cases entry.action.isInitRoom with
      | false => simp [hadmin]
      | true =>
        by_cases hfirst : entry.seq = 1 ∧ entry.parent = none
        · simp [hroom, hadmin, hfirst, Class.ofResult_eq_accept]
        · rw [if_neg (by simp), if_pos (not_and_or.mp hfirst)]
          simp only [reduceCtorEq, false_iff]
          rintro ⟨-, ⟨-, -, hseq, hparent, -⟩ | ⟨hsome, -⟩⟩
          · exact hfirst ⟨hseq, hparent⟩
          · exact hsome hadmin
    · rw [if_neg hadmin]
      cases entry.action.isInitRoom with
      | true => simp [hadmin]
      | false =>
        rw [if_neg (by simp)]
        cases forkWithTip state entry id with
        | some evidence => simp [hadmin]
        | none =>
          by_cases hseq : entry.seq = state.authorSeq entry.author + 1
          · by_cases hparent : entry.parent = state.authorTip entry.author
            · simp [hroom, hadmin, hseq, hparent, Class.ofResult_eq_accept]
            · simp [hadmin, hseq, hparent]
          · simp [hadmin, hseq]
  · simp [hroom]

section Pass

variable {approvalsByEntry : OrdMap GovernanceEntryId (List ApprovalBody)} {dropped : OrdSet GovernanceEntryId}
variable {roomId : RoomId} {entriesById : OrdMap GovernanceEntryId GovernanceEntryBody}

theorem visitEntry_cases {p p' : Pass} {e : GovernanceEntryId × GovernanceEntryBody}
    (h : visitEntry approvalsByEntry dropped p e = some p') :
    p.items.get? e.1 = none ∧ e.1 ∉ dropped ∧
      ((classify e.2 p.state e.1 approvalsByEntry = .accept ∧
          p' = ⟨applyEntry p.state e.2 e.1, p.items.insert e.1 (.accepted e.1)⟩) ∨
        (∃ reason, classify e.2 p.state e.1 approvalsByEntry = .reject reason ∧
          p' = ⟨p.state, p.items.insert e.1 (.rejected e.1 reason)⟩) ∨
        ∃ evidence, classify e.2 p.state e.1 approvalsByEntry = .fork evidence ∧
          p' = ⟨{ p.state with forks := p.state.forks ++ [evidence] },
            p.items.insert e.1 (.rejected e.1 .forkDetected)⟩) := by
  unfold visitEntry at h
  split at h
  · cases h
  · rename_i hopen
    simp only [OrdMap.contains, Bool.or_eq_true, decide_eq_true_eq, not_or, Option.not_isSome_iff_eq_none] at hopen
    refine ⟨hopen.1, hopen.2, ?_⟩
    split at h
    · rename_i hclass
      exact .inl ⟨hclass, (Option.some.inj h).symm⟩
    · rename_i reason hclass
      exact .inr (.inl ⟨reason, hclass, (Option.some.inj h).symm⟩)
    · rename_i evidence hclass
      exact .inr (.inr ⟨evidence, hclass, (Option.some.inj h).symm⟩)
    · cases h

/-- Every decision puts one item on record, about the entry itself. -/
theorem visitEntry_items {p p' : Pass} {e : GovernanceEntryId × GovernanceEntryBody}
    (h : visitEntry approvalsByEntry dropped p e = some p') :
    ∃ item, p'.items = p.items.insert e.1 item ∧
      ∀ id, item = .accepted id → e.1 = id ∧ classify e.2 p.state e.1 approvalsByEntry = .accept := by
  obtain ⟨-, -, ⟨hclass, rfl⟩ | ⟨reason, -, rfl⟩ | ⟨evidence, -, rfl⟩⟩ := visitEntry_cases h
  · exact ⟨_, rfl, fun id hid => ⟨by simpa using hid, hclass⟩⟩
  · exact ⟨_, rfl, fun id hid => by simp at hid⟩
  · exact ⟨_, rfl, fun id hid => by simp at hid⟩

/-- The rounds of a pass go on until nothing is left to decide. -/
theorem passRounds_settled : ∀ e ∈ entriesById.entries,
    visitEntry approvalsByEntry dropped (passRounds approvalsByEntry dropped roomId entriesById) e = none := by
  refine Rounds.loop_settled_of_done (fun p e => p.items.contains e.1) ?_
  intro p e p' _ h
  obtain ⟨item, hitems, -⟩ := visitEntry_items h
  have hopen := (visitEntry_cases h).1
  simp only [OrdMap.contains, hitems, OrdMap.get?_insert]
  refine ⟨by simp [hopen], by simp, fun b hb => ?_⟩
  split_ifs
  · simp
  · exact hb

variable (approvalsByEntry dropped roomId entriesById) in
/-- The decisions of a pass in the order it makes them, each with what was there before it. -/
def passMoves : List (Pass × GovernanceEntryId × GovernanceEntryBody) :=
  Rounds.moves (visitEntry approvalsByEntry dropped) entriesById.entries (entriesById.entries.length + 1) (.start roomId)

variable (approvalsByEntry dropped roomId entriesById) in
/-- A pass accepts the entry, in this state. -/
def AcceptedIn (state : GovernanceState) (id : GovernanceEntryId) (body : GovernanceEntryBody) : Prop :=
  ∃ p, (p, id, body) ∈ passMoves approvalsByEntry dropped roomId entriesById ∧ p.state = state ∧
    classify body state id approvalsByEntry = .accept

theorem AcceptedIn.get? {state : GovernanceState} {id : GovernanceEntryId} {body : GovernanceEntryBody}
    (h : AcceptedIn approvalsByEntry dropped roomId entriesById state id body) : entriesById.get? id = some body := by
  obtain ⟨p, hp, -⟩ := h
  exact OrdMap.mem_entries.mp (Rounds.mem_of_mem_moves hp)

/-- The decisions of a pass are a run from the empty state to what its rounds return. -/
theorem passMoves_follows : Rounds.Follows (visitEntry approvalsByEntry dropped) (.start roomId)
    (passMoves approvalsByEntry dropped roomId entriesById) (passRounds approvalsByEntry dropped roomId entriesById) :=
  Rounds.follows_loop _ _ _

theorem exists_acceptedIn_rounds {k id : GovernanceEntryId}
    (h : (passRounds approvalsByEntry dropped roomId entriesById).items.get? k = some (.accepted id)) :
    ∃ state body, AcceptedIn approvalsByEntry dropped roomId entriesById state id body := by
  have hstart : ¬ (Pass.start roomId).items.get? k = some (.accepted id) := by simp [Pass.start]
  obtain ⟨⟨p, k', body⟩, hmove, p', hstep, hbefore, hafter⟩ :=
    passMoves_follows.exists_move (Q := fun p => p.items.get? k = some (.accepted id)) hstart h
  obtain ⟨item, hitems, haccepted⟩ := visitEntry_items hstep
  rw [hitems, OrdMap.get?_insert] at hafter
  split_ifs at hafter
  · obtain ⟨rfl, hclass⟩ := haccepted id (Option.some.inj hafter)
    exact ⟨p.state, body, p, hmove, rfl, hclass⟩
  · exact absurd hafter hbefore

/-- What is marked as missing a dependency is not accepted. -/
theorem accepted_of_markMissing {items : OrdMap GovernanceEntryId FoldItem} {ids : List GovernanceEntryId}
    {k id : GovernanceEntryId} (h : (ids.foldl (markMissing dropped) items).get? k = some (.accepted id)) :
    items.get? k = some (.accepted id) := by
  induction ids generalizing items with
  | nil => exact h
  | cons a ids ih =>
    have hmarked := ih h
    unfold markMissing at hmarked
    split_ifs at hmarked
    · exact hmarked
    · exact hmarked
    · rw [OrdMap.get?_insert] at hmarked
      split_ifs at hmarked
      · simp at hmarked
      · exact hmarked

end Pass

namespace GovernanceFold

variable {env : Env} {fold : GovernanceFold}

variable (env fold) in
/-- The decisions of the pass that an outcome reports. -/
def moves (roomId : RoomId) : List (Pass × GovernanceEntryId × GovernanceEntryBody) :=
  passMoves fold.approvalsByEntry (fold.resolved env roomId).dropped roomId (fold.entriesById env)

variable (env fold) in
/-- The pass that an outcome reports accepts the entry, in this state. -/
def AcceptedIn (roomId : RoomId) : GovernanceState → GovernanceEntryId → GovernanceEntryBody → Prop :=
  RoomGovernance.AcceptedIn fold.approvalsByEntry (fold.resolved env roomId).dropped roomId (fold.entriesById env)

theorem accepted_of_dropped {dropped : List GovernanceEntryId} {items : OrdMap GovernanceEntryId FoldItem}
    {k id : GovernanceEntryId}
    (h : (dropped.foldl (fun items id => items.insert id (.rejected id .forkDetected)) items).get? k =
      some (.accepted id)) : items.get? k = some (.accepted id) := by
  induction dropped generalizing items with
  | nil => exact h
  | cons a dropped ih =>
    have hkept := ih h
    rw [OrdMap.get?_insert] at hkept
    split_ifs at hkept
    · simp at hkept
    · exact hkept

theorem finish_eq_ok {outcome : FoldOutcome} (h : fold.finish env = .ok outcome) :
    fold.roomId = some outcome.roomId ∧ outcome.items = (fold.items env outcome.roomId).values := by
  unfold finish at h
  split at h
  · cases h
  · rename_i roomId hroom
    obtain rfl := Except.ok.inj h
    exact ⟨hroom, rfl⟩

theorem exists_finish {roomId : RoomId} (h : fold.roomId = some roomId) :
    ∃ outcome, fold.finish env = .ok outcome ∧ outcome.roomId = roomId ∧
      outcome.items = (fold.items env roomId).values := by
  unfold finish
  rw [h]
  exact ⟨_, rfl, rfl, rfl⟩

/-- An accepted item of an outcome was accepted by a move of its pass. -/
theorem exists_acceptedIn {outcome : FoldOutcome} (h : fold.finish env = .ok outcome) {id : GovernanceEntryId}
    (hitem : .accepted id ∈ outcome.items) : ∃ state body, fold.AcceptedIn env outcome.roomId state id body := by
  rw [(finish_eq_ok h).2, OrdMap.mem_values] at hitem
  obtain ⟨k, hk⟩ := hitem
  exact exists_acceptedIn_rounds (accepted_of_markMissing (accepted_of_dropped hk))

theorem AcceptedIn.entry {roomId : RoomId} {state : GovernanceState} {id : GovernanceEntryId}
    {body : GovernanceEntryBody} (h : fold.AcceptedIn env roomId state id body) :
    body ∈ fold.entries ∧ idOfBody env body = id := OrdMap.mem_of_get?_indexBy (RoomGovernance.AcceptedIn.get? h)

theorem AcceptedIn.classify {roomId : RoomId} {state : GovernanceState} {id : GovernanceEntryId}
    {body : GovernanceEntryBody} (h : fold.AcceptedIn env roomId state id body) :
    RoomGovernance.classify body state id fold.approvalsByEntry = .accept := by
  obtain ⟨p, -, -, hclass⟩ := h
  exact hclass

/-- The approvals an entry is decided with are those supplied in its name. -/
theorem mem_approvalsFor {id : GovernanceEntryId} {a : ApprovalBody} :
    a ∈ approvalsFor fold.approvalsByEntry id ↔ a ∈ fold.approvals ∧ a.entryId = id := by
  unfold approvalsFor approvalsByEntry
  rw [OrdMap.getD_get?_groupBy]
  simp

end GovernanceFold

end IrohRooms.RoomGovernance
