import Mathlib.Data.Finset.Card
import IrohRooms.Membership.Convergence
import IrohRooms.Membership.Snapshot

/-!
# What one ingested event changes

Verdicts are never revised. An event that has to wait leaves every verdict as it is; one that does not may settle
others that were waiting, and nothing else. What the fold reads of a state, its snapshot and the divergence of the
admin, depends on the accepted events alone (`acceptedEntries_eq`), and the projection generation moves whenever an
accepted event affects membership, so it never exceeds the number of accepted events (`Counted`).
-/

namespace IrohRooms

variable {env : Env} {room : RoomId}

namespace RoomMembership

variable {m m' : RoomMembership env room}

/-- An event is held and waits for a parent. -/
def IsWaiting (m : RoomMembership env room) (id : EventId) : Prop := m.nodes.contains id = true ∧ m.result id = none

/-! ### Verdicts -/

theorem contains_iff_event? {id : EventId} : m.nodes.contains id = true ↔ ∃ e, m.event? id = some e := by
  rw [OrdMap.contains, Option.isSome_iff_exists]
  constructor
  · rintro ⟨n, hn⟩
    exact ⟨n.event.event, by simp [event?, hn]⟩
  · rintro ⟨e, he⟩
    obtain ⟨n, hn, -⟩ := Option.map_eq_some_iff.mp he
    exact ⟨n, hn⟩

theorem contains_of_result {id : EventId} (h : m.result id ≠ none) : m.nodes.contains id = true :=
  contains_iff_event?.mpr (event?_of_result h)

theorem ingest_contains (hwf : WF m) (v : ValidatedEvent env room) (id : EventId) :
    (m.ingest v).nodes.contains id = true ↔ m.nodes.contains id = true ∨ id = v.eventId := by
  rw [contains_iff_event?, contains_iff_event?, ingest_event? hwf]
  cases hm : m.event? id with
  | none =>
    by_cases hid : id = v.eventId <;> simp [hid]
  | some e => simp

theorem cascade_result (fuel : Nat) (work : List EventId) (hwf : WF m) {id : EventId} (hid : m.result id ≠ none) :
    (cascade fuel m work).result id = m.result id := by
  refine (cascade_induction (P := fun m' => m'.result id = m.result id) (fun hcl _ hm => ?_) fuel work hwf rfl).2
  rw [hcl.result_of_classified (hm ▸ hid), hm]

/-- What is classified stays as it is when further events arrive. -/
theorem Settled.ingest_result (h : Settled m) (v : ValidatedEvent env room) {id : EventId} (hid : m.result id ≠ none) :
    (m.ingest v).result id = m.result id := by
  unfold RoomMembership.ingest
  split_ifs with hknown
  · rfl
  · have hnew : m.nodes.get? v.eventId = none := by simpa [OrdMap.contains] using hknown
    have htrack := track_result hnew id
    rw [cascade_result _ _ (track_wf hnew h.wf) (htrack ▸ hid), htrack]

theorem Settled.ingest_isAccepted (h : Settled m) (v : ValidatedEvent env room) {id : EventId}
    (hid : m.isAccepted id = true) : (m.ingest v).isAccepted id = true := by
  obtain ⟨s, hs⟩ := isAccepted_iff.mp hid
  rw [isAccepted_iff]
  exact ⟨s, (h.ingest_result v (by simp [hs])).trans hs⟩

theorem Settled.ingest_event?_of_contains (h : Settled m) (v : ValidatedEvent env room) {id : EventId}
    (hid : m.nodes.contains id = true) : (m.ingest v).event? id = m.event? id := by
  obtain ⟨e, he⟩ := contains_iff_event?.mp hid
  rw [ingest_event? h.wf, he, Option.some_or]

/-- An event that still waits after it was ingested has settled nothing. -/
theorem ingest_waiting (hwf : WF m) {v : ValidatedEvent env room} (h : (m.ingest v).result v.eventId = none)
    (id : EventId) : (m.ingest v).result id = m.result id := by
  unfold RoomMembership.ingest at h ⊢
  split_ifs at h ⊢ with hknown
  · rfl
  · have hnew : m.nodes.get? v.eventId = none := by simpa [OrdMap.contains] using hknown
    rw [show (m.track v).cascadeFuel = ((m.track v).children.values.map List.length).sum + 1 from Nat.add_comm _ _] at h ⊢
    -- the cascade starts at the event itself: either it transitions there or the stack is empty
    cases hc : (m.track v).tryClassify v.eventId with
    | none =>
      simp only [cascade, hc]
      cases ((m.track v).children.values.map List.length).sum <;> exact track_result hnew id
    | some t =>
      have hcl := tryClassify_some hc
      have hwft := hcl.wf (track_wf hnew hwf)
      have hclassified : t.result v.eventId ≠ none := by
        rw [hcl.result_eq_rule (track_wf hnew hwf)]
        simp
      simp only [cascade, hc] at h
      rw [cascade_result _ _ hwft hclassified] at h
      exact absurd h hclassified

/-- An event is settled by an ingest only if it is the one ingested or was waiting. -/
theorem ingest_settles (hwf : WF m) {v : ValidatedEvent env room} {id : EventId} (h : (m.ingest v).result id ≠ none) :
    m.result id ≠ none ∨ id = v.eventId ∨ m.IsWaiting id := by
  by_cases hold : m.result id = none
  · rcases (ingest_contains hwf v id).mp (contains_of_result h) with hknown | hid
    · exact Or.inr (Or.inr ⟨hknown, hold⟩)
    · exact Or.inr (Or.inl hid)
  · exact Or.inl hold

theorem Settled.isWaiting_of_ingest (h : Settled m) {v : ValidatedEvent env room} {id : EventId}
    (hw : (m.ingest v).IsWaiting id) : m.IsWaiting id ∨ id = v.eventId := by
  obtain ⟨hknown, hnone⟩ := hw
  rcases (ingest_contains h.wf v id).mp hknown with hold | hid
  · refine Or.inl ⟨hold, ?_⟩
    by_contra hresult
    rw [h.ingest_result v hresult] at hnone
    exact hresult hnone
  · exact Or.inr hid

theorem not_isWaiting_of_accepted {id : EventId} (h : m.isAccepted id = true) : ¬ m.IsWaiting id :=
  fun hw => result_ne_none_of_accepted h hw.2

/-! ### The reported outcome -/

theorem outcome_accepted {id id' : EventId} {flags : List Flag} (h : m.outcome id = .accepted id' flags) :
    m.isAccepted id = true := by
  unfold outcome at h
  split at h
  · cases h
  · rename_i n hn
    split at h
    · rename_i hv
      simp [isAccepted, hn, Node.isAccepted, hv]
    · cases h
    · cases h

theorem outcome_rejected {id id' : EventId} {reason : RejectReason} (h : m.outcome id = .rejected id' reason) :
    m.result id ≠ none ∧ m.isAccepted id = false := by
  unfold outcome at h
  split at h
  · cases h
  · rename_i n hn
    split at h
    · cases h
    · rename_i hv
      simp [result, isAccepted, hn, Node.isAccepted, hv, Verdict.outcome]
    · cases h

theorem outcome_buffered {id id' : EventId} {missing : List EventId} (h : m.outcome id = .buffered id' missing) :
    m.result id = none := by
  unfold outcome at h
  split at h
  · rename_i hn
    simp [result, hn]
  · rename_i n hn
    split at h
    · cases h
    · cases h
    · rename_i hv
      simp [result, hn, hv, Verdict.outcome]

/-- In a settled state a waiting event has a parent without a verdict. -/
theorem Settled.waiting_parent (h : Settled m) {id : EventId} {n : Node env room} (hn : m.nodes.get? id = some n)
    (hnone : m.result id = none) : ∃ p ∈ n.event.event.prevEvents, m.result p = none := by
  by_contra hall
  push Not at hall
  exact List.not_mem_nil (h.saturated id n hn ((result_eq_none_iff hn).mp hnone) hall)

/-! ### What the fold reads -/

theorem entries_sorted (m : RoomMembership env room) : m.entries.Pairwise fun a b => a.id < b.id := by
  rw [entries, List.pairwise_map]
  exact m.nodes.sorted

/-- The accepted entries of some contents are settled by the verdicts of those contents. -/
theorem acceptedEntries_eq (keep : Content → Bool) (hwf : WF m) (hwf' : WF m')
    (hold : ∀ id, m.isAccepted id = true → m'.event? id = m.event? id ∧ m'.result id = m.result id)
    (hnew : ∀ id e, m'.isAccepted id = true → m'.event? id = some e → keep e.content = true → m.isAccepted id = true) :
    (m'.entries.filter fun e => e.accepted && keep e.event.content) =
      m.entries.filter fun e => e.accepted && keep e.event.content := by
  have hentry : ∀ id, m.isAccepted id = true → m'.entryOf id = m.entryOf id := by
    intro id hacc
    obtain ⟨hevent, hresult⟩ := hold id hacc
    rw [hwf'.entryOf_eq, hwf.entryOf_eq, lookOf, lookOf, hevent, hresult]
  have hmem : ∀ e, e ∈ (m'.entries.filter fun e => e.accepted && keep e.event.content) ↔
      e ∈ m.entries.filter fun e => e.accepted && keep e.event.content := by
    intro e
    simp only [List.mem_filter, mem_entries, Bool.and_eq_true]
    constructor
    · rintro ⟨hent, hacc, hkeep⟩
      obtain ⟨-, hevent, haccepted⟩ := entryOf_eq_some hent
      have hm := hnew e.id e.event (haccepted ▸ hacc) hevent hkeep
      exact ⟨(hentry e.id hm) ▸ hent, hacc, hkeep⟩
    · rintro ⟨hent, hacc, hkeep⟩
      obtain ⟨-, -, haccepted⟩ := entryOf_eq_some hent
      exact ⟨(hentry e.id (haccepted ▸ hacc)).trans hent, hacc, hkeep⟩
  have hsorted := (entries_sorted m).filter fun e => e.accepted && keep e.event.content
  have hsorted' := (entries_sorted m').filter fun e => e.accepted && keep e.event.content
  have hnodup : ∀ {l : List Entry}, (l.Pairwise fun a b => a.id < b.id) → l.Nodup :=
    fun hl => hl.imp fun hlt heq => absurd (congrArg Entry.id heq) hlt.ne
  exact List.Perm.eq_of_pairwise (fun _ _ _ _ hab hba => absurd hba (lt_asymm hab)) hsorted' hsorted
    ((List.perm_ext_iff_of_nodup (hnodup hsorted') (hnodup hsorted)).mpr hmem)

theorem touched_none_of_not_affects {e : SignedEvent} (h : affectsMembership e.content = false) : touched e = none := by
  unfold touched
  cases hc : e.content <;> simp_all [affectsMembership]

/-- The fold reads the events that affect membership only. -/
theorem fold_filter (scope : List Entry) :
    fold env room (scope.filter fun e => affectsMembership e.event.content) = fold env room scope := by
  have hgenesis : findGenesis (scope.filter fun e => affectsMembership e.event.content) = findGenesis scope := by
    unfold findGenesis
    rw [List.find?_filter]
    congr 2
    funext e
    cases e.event.content <;> simp [affectsMembership, Content.eventType]
  have htouch : ∀ s, touchEvents (scope.filter fun e => affectsMembership e.event.content) s = touchEvents scope s := by
    intro s
    unfold touchEvents
    rw [List.filter_filter]
    refine List.filter_congr fun e _ => ?_
    cases haff : affectsMembership e.event.content with
    | true => simp
    | false => simp [touched_none_of_not_affects haff]
  have hsubjects : ∀ a, subjects (scope.filter fun e => affectsMembership e.event.content) a = subjects scope a := by
    intro a
    refine OrdSet.eq_of_sorted ((OrdMap.keys_sorted _).filter _) ((OrdMap.keys_sorted _).filter _) fun s => ?_
    rw [mem_subjects, mem_subjects, htouch]
  have hstep : foldSubject (scope.filter fun e => affectsMembership e.event.content) = foldSubject scope := by
    funext st s
    unfold foldSubject resolveMember
    rw [htouch]
  simp only [fold, hgenesis, hsubjects, hstep]

/-- Nothing the room can read has changed when nothing was accepted. -/
theorem reads_of_no_new (hwf : WF m) (hwf' : WF m')
    (hold : ∀ id, m.isAccepted id = true → m'.event? id = m.event? id ∧ m'.result id = m.result id)
    (hnew : ∀ id, m'.isAccepted id = true → m.isAccepted id = true) :
    m'.snapshot = m.snapshot ∧ m'.adminDivergence = m.adminDivergence := by
  have hall := acceptedEntries_eq (fun _ => true) hwf hwf' hold fun id _ hacc _ _ => hnew id hacc
  simp only [Bool.and_true] at hall
  refine ⟨by rw [snapshot, snapshot, hall], ?_⟩
  have hwrites : m'.adminWrites = m.adminWrites := by
    funext admin
    have hsplit : ∀ m : RoomMembership env room, (m.entries.filter fun e => e.accepted && e.event.senderId == admin
        && (adminEffect e.event.content).isSome) = (m.entries.filter Entry.accepted).filter fun e =>
          e.event.senderId == admin && (adminEffect e.event.content).isSome := by
      intro m
      rw [List.filter_filter]
      refine List.filter_congr fun e _ => ?_
      rw [Bool.and_assoc, Bool.and_comm]
    rw [adminWrites, adminWrites, hsplit, hsplit, hall]
  funext admin
  rw [adminDivergence, adminDivergence, hwrites]

/-- A snapshot is untouched when nothing that affects membership was accepted. -/
theorem snapshot_of_no_membership (hwf : WF m) (hwf' : WF m')
    (hold : ∀ id, m.isAccepted id = true → m'.event? id = m.event? id ∧ m'.result id = m.result id)
    (hnew : ∀ id e, m'.isAccepted id = true → m'.event? id = some e → affectsMembership e.content = true →
      m.isAccepted id = true) : m'.snapshot = m.snapshot := by
  have hkept := acceptedEntries_eq affectsMembership hwf hwf' hold hnew
  have hsplit : ∀ m : RoomMembership env room, (m.entries.filter fun e => e.accepted && affectsMembership e.event.content)
      = (m.entries.filter Entry.accepted).filter fun e => affectsMembership e.event.content := by
    intro m
    rw [List.filter_filter]
    exact List.filter_congr fun e _ => Bool.and_comm _ _
  rw [hsplit, hsplit] at hkept
  rw [snapshot, snapshot, ← fold_filter, ← fold_filter (m.entries.filter _), hkept]

/-! ### The projection generation -/

/-- A transition bumps the generation exactly when it accepts an event that affects membership. -/
theorem tryClassify_generation {id : EventId} (h : m.tryClassify id = some m') :
    (m'.membershipProjectionGeneration = min (m.membershipProjectionGeneration + 1) u64Max ∧ m'.isAccepted id = true) ∨
      (m'.membershipProjectionGeneration = m.membershipProjectionGeneration ∧
        ∀ e, m'.isAccepted id = true → m'.event? id = some e → affectsMembership e.content = false) := by
  have hrecord : ∀ (m : RoomMembership env room) id,
      (m.recordSenderHead id).membershipProjectionGeneration = m.membershipProjectionGeneration := by
    intro m id
    unfold recordSenderHead
    split <;> rfl
  have hrejected : ∀ (m : RoomMembership env room) (n : Node env room), (∀ flags, n.verdict ≠ .accepted flags) →
      (m.setNode id n).isAccepted id = false := by
    intro m n hv
    rw [isAccepted]
    simp only [setNode, OrdMap.get?_insert_self, Node.isAccepted]
  have haccepted : ∀ (m : RoomMembership env room) (n : Node env room) (flags : List Flag), n.verdict = .accepted flags →
      ((m.setNode id n).recordSenderHead id).bumpGeneration.isAccepted id = true := by
    intro m n flags hv
    rw [isAccepted, bumpGeneration]
    dsimp only
    rw [recordSenderHead_nodes]
    simp [setNode, Node.isAccepted, hv]
  unfold tryClassify at h
  split at h
  · cases h
  · rename_i n hn
    split_ifs at h with hpend hparents haff
    · dsimp only at h
      split at h
      · rename_i flags hv
        rw [← Option.some.inj h]
        exact Or.inl ⟨congrArg (fun g => min (g + 1) u64Max) (hrecord _ _), haccepted _ _ flags hv⟩
      · rename_i hv
        rw [← Option.some.inj h]
        refine Or.inr ⟨rfl, fun e hacc _ => ?_⟩
        rw [hrejected _ _ hv] at hacc
        cases hacc
    · dsimp only at h
      split at h
      · rw [← Option.some.inj h]
        refine Or.inr ⟨hrecord _ _, fun e _ he => ?_⟩
        rw [event?, recordSenderHead_nodes] at he
        simp only [setNode, OrdMap.get?_insert_self, Option.map_some, Option.some.injEq] at he
        rw [← he]
        simpa using haff
      · rename_i hv
        rw [← Option.some.inj h]
        refine Or.inr ⟨rfl, fun e hacc _ => ?_⟩
        rw [hrejected _ _ hv] at hacc
        cases hacc

/-- A property kept by every transition is kept by a cascade. -/
theorem cascade_transitions {P : RoomMembership env room → Prop}
    (hstep : ∀ {m m' id}, m.tryClassify id = some m' → WF m → P m → P m') (fuel : Nat) :
    ∀ {m : RoomMembership env room} (work : List EventId), WF m → P m → P (cascade fuel m work) := by
  induction fuel with
  | zero => exact fun work _ hP => hP
  | succ fuel ih =>
    intro m work hwf hP
    cases work with
    | nil => exact hP
    | cons current work =>
      cases hc : m.tryClassify current with
      | none =>
        simp only [cascade, hc]
        exact ih work hwf hP
      | some m' =>
        simp only [cascade, hc]
        exact ih _ ((tryClassify_some hc).wf hwf) (hstep hc hwf hP)

/-- How the generation of `m'` compares with that of an earlier state `m`. -/
structure Advances (m m' : RoomMembership env room) : Prop where
  old : ∀ id, m.result id ≠ none → m'.result id = m.result id
  saturated : u64Max ≤ m.membershipProjectionGeneration → u64Max ≤ m'.membershipProjectionGeneration
  moved : m'.membershipProjectionGeneration ≠ m.membershipProjectionGeneration →
    ∃ id, m'.isAccepted id = true ∧ m.isAccepted id = false
  ahead : m.membershipProjectionGeneration < u64Max →
    m.membershipProjectionGeneration < m'.membershipProjectionGeneration ∨
      (m'.membershipProjectionGeneration = m.membershipProjectionGeneration ∧ ∀ id e, m'.isAccepted id = true →
        m'.event? id = some e → affectsMembership e.content = true → m.isAccepted id = true)

theorem Advances.step {m₀ : RoomMembership env room} (h : Advances m₀ m) {id : EventId}
    (hc : m.tryClassify id = some m') : Advances m₀ m' := by
  have hcl := tryClassify_some hc
  have hold : ∀ j, m₀.result j ≠ none → m'.result j = m₀.result j := by
    intro j hj
    rw [hcl.result_of_classified (h.old j hj ▸ hj), h.old j hj]
  -- an event that transitions now had no verdict at the start
  have hfresh : m₀.isAccepted id = false := by
    rw [Bool.eq_false_iff]
    intro hacc
    have hr := result_ne_none_of_accepted hacc
    rw [← h.old id hr] at hr
    exact hr hcl.result_before
  have hkeep : ∀ {j}, m.isAccepted j = true → m'.isAccepted j = true := by
    intro j hj
    obtain ⟨s, hs⟩ := isAccepted_iff.mp hj
    exact isAccepted_iff.mpr ⟨s, (hcl.result_of_classified (by simp [hs])).trans hs⟩
  have hother : ∀ {j}, j ≠ id → m'.isAccepted j = true → m.isAccepted j = true := by
    intro j hj hacc
    obtain ⟨s, hs⟩ := isAccepted_iff.mp hacc
    exact isAccepted_iff.mpr ⟨s, (hcl.result_ne hj).symm.trans hs⟩
  rcases tryClassify_generation hc with ⟨hgen, hacc⟩ | ⟨hgen, hnone⟩
  · refine ⟨hold, fun hmax => ?_, fun _ => ⟨id, hacc, hfresh⟩, fun hlt => Or.inl ?_⟩
    · have := h.saturated hmax
      omega
    · rcases h.ahead hlt with hahead | ⟨heq, -⟩
      · omega
      · omega
  · refine ⟨hold, fun hmax => hgen ▸ h.saturated hmax, fun hmoved => ?_, fun hlt => ?_⟩
    · obtain ⟨j, hj, hj₀⟩ := h.moved (hgen ▸ hmoved)
      exact ⟨j, hkeep hj, hj₀⟩
    · rw [hgen]
      rcases h.ahead hlt with hahead | ⟨heq, hmem⟩
      · exact Or.inl hahead
      · refine Or.inr ⟨heq, fun j e hj he haff => ?_⟩
        by_cases hid : j = id
        · subst hid
          rw [hnone e hj he] at haff
          cases haff
        · rw [hcl.event?_eq] at he
          exact hmem j e (hother hid hj) he haff

theorem Settled.ingest_advances (h : Settled m) (v : ValidatedEvent env room) : Advances m (m.ingest v) := by
  have hrefl : Advances m m := ⟨fun _ _ => rfl, id, fun hne => absurd rfl hne, fun _ => Or.inr ⟨rfl, fun _ _ hacc _ _ => hacc⟩⟩
  unfold RoomMembership.ingest
  split_ifs with hknown
  · exact hrefl
  · have hnew : m.nodes.get? v.eventId = none := by simpa [OrdMap.contains] using hknown
    have hresult := track_result hnew
    have hacc : ∀ id, (m.track v).isAccepted id = true → m.isAccepted id = true := by
      intro id ha
      obtain ⟨s, hs⟩ := isAccepted_iff.mp ha
      exact isAccepted_iff.mpr ⟨s, (hresult id).symm.trans hs⟩
    have htrack : Advances m (m.track v) :=
      ⟨fun id _ => hresult id, fun hmax => hmax, fun hne => absurd rfl hne,
        fun _ => Or.inr ⟨rfl, fun id _ ha _ _ => hacc id ha⟩⟩
    exact cascade_transitions (fun hc _ hP => hP.step hc) _ _ (track_wf hnew h.wf) htrack

/-! ### The generation counts accepted events -/

/-- The ids of the accepted events. -/
def acceptedIds (m : RoomMembership env room) : Finset EventId :=
  m.nodes.keys.toFinset.filter fun id => m.isAccepted id = true

theorem mem_acceptedIds {id : EventId} : id ∈ m.acceptedIds ↔ m.isAccepted id = true := by
  rw [acceptedIds, Finset.mem_filter, List.mem_toFinset, OrdMap.mem_keys]
  exact ⟨fun h => h.2, fun h => ⟨contains_of_result (result_ne_none_of_accepted h), h⟩⟩

theorem card_acceptedIds_le (m : RoomMembership env room) : m.acceptedIds.card ≤ m.nodes.entries.length := by
  calc m.acceptedIds.card ≤ m.nodes.keys.toFinset.card := Finset.card_filter_le _ _
    _ ≤ m.nodes.keys.length := List.toFinset_card_le _
    _ = m.nodes.entries.length := List.length_map _

/-- No generation without an accepted event. -/
def Counted (m : RoomMembership env room) : Prop := m.membershipProjectionGeneration ≤ m.acceptedIds.card

theorem Counted.of_isAccepted (h : Counted m) (hgen : m'.membershipProjectionGeneration = m.membershipProjectionGeneration)
    (hkeep : ∀ id, m.isAccepted id = true → m'.isAccepted id = true) : Counted m' := by
  unfold Counted
  rw [hgen]
  refine le_trans h (Finset.card_le_card fun id hid => ?_)
  rw [mem_acceptedIds] at hid ⊢
  exact hkeep id hid

theorem Counted.step (h : Counted m) {id : EventId} (hc : m.tryClassify id = some m') : Counted m' := by
  have hcl := tryClassify_some hc
  have hkeep : ∀ j, m.isAccepted j = true → m'.isAccepted j = true := by
    intro j hj
    obtain ⟨s, hs⟩ := isAccepted_iff.mp hj
    exact isAccepted_iff.mpr ⟨s, (hcl.result_of_classified (by simp [hs])).trans hs⟩
  rcases tryClassify_generation hc with ⟨hgen, hacc⟩ | ⟨hgen, -⟩
  · have hnew : id ∉ m.acceptedIds := by
      rw [mem_acceptedIds]
      exact fun hold => result_ne_none_of_accepted hold hcl.result_before
    have hinsert : insert id m.acceptedIds ⊆ m'.acceptedIds := by
      intro j hj
      rcases Finset.mem_insert.mp hj with rfl | hj
      · exact mem_acceptedIds.mpr hacc
      · exact mem_acceptedIds.mpr (hkeep j (mem_acceptedIds.mp hj))
    have hcard := Finset.card_le_card hinsert
    rw [Finset.card_insert_of_notMem hnew] at hcard
    unfold Counted at h ⊢
    omega
  · exact h.of_isAccepted hgen hkeep

theorem Counted.ingest (h : Counted m) (hwf : WF m) (v : ValidatedEvent env room) : Counted (m.ingest v) := by
  unfold RoomMembership.ingest
  split_ifs with hknown
  · exact h
  · have hnew : m.nodes.get? v.eventId = none := by simpa [OrdMap.contains] using hknown
    have htrack : Counted (m.track v) := by
      have hgen : (m.track v).membershipProjectionGeneration = m.membershipProjectionGeneration := rfl
      apply h.of_isAccepted hgen
      intro id hid
      obtain ⟨s, hs⟩ := isAccepted_iff.mp hid
      exact isAccepted_iff.mpr ⟨s, (track_result hnew id).trans hs⟩
    exact cascade_transitions (fun hc _ hP => hP.step hc) _ _ (track_wf hnew hwf) htrack

theorem counted_fromEvents (events : List (ValidatedEvent env room)) : Counted (fromEvents events) := by
  have hrun : ∀ (l : List (ValidatedEvent env room)) (m : RoomMembership env room), Settled m → Counted m →
      Counted (l.foldl RoomMembership.ingest m) := by
    intro l
    induction l with
    | nil => exact fun m _ hm => hm
    | cons v l ih => exact fun m hs hm => ih _ (hs.ingest v) (hm.ingest hs.wf v)
  exact hrun events new settled_new (Nat.zero_le _)

end RoomMembership

end IrohRooms
