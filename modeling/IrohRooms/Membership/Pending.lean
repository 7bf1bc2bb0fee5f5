import IrohRooms.Membership.Progress

/-!
# Pending events

An event waits exactly while one of its parents is absent or waits itself. `Cascades` is the loop of `ingest` without
the fuel of `cascade`: it has one outcome, which the fuel that `ingest` hands out always reaches.
-/

namespace IrohRooms

namespace RoomMembership

variable {env : Env} {room : RoomId} {m m' : RoomMembership env room}

/-! ### The loop -/

/-- The loop run on a stack comes to an end in the last state. -/
inductive Cascades : RoomMembership env room → List EventId → RoomMembership env room → Prop
  | done (m : RoomMembership env room) : Cascades m [] m
  | transition {m m' last : RoomMembership env room} {current : EventId} {work : List EventId}
      (hc : m.tryClassify current = some m')
      (hrest : Cascades m' (((m'.children.get? current).getD []).reverse ++ work) last) :
      Cascades m (current :: work) last
  | skip {m last : RoomMembership env room} {current : EventId} {work : List EventId}
      (hc : m.tryClassify current = none) (hrest : Cascades m work last) : Cascades m (current :: work) last

theorem Cascades.unique {work : List EventId} {last last' : RoomMembership env room} (h : Cascades m work last)
    (h' : Cascades m work last') : last = last' := by
  induction h with
  | done m =>
    cases h'
    rfl
  | transition hc _ ih =>
    cases h' with
    | transition hc' hrest' =>
      rw [hc, Option.some.injEq] at hc'
      subst hc'
      exact ih hrest'
    | skip hc' _ => simp [hc] at hc'
  | skip hc _ ih =>
    cases h' with
    | transition hc' _ => simp [hc] at hc'
    | skip _ hrest' => exact ih hrest'

/-- Fuel for every pop lets the loop end. -/
theorem cascades_cascade (fuel : Nat) : ∀ {m : RoomMembership env room} (work : List EventId), WF m →
    m.potential work ≤ fuel → Cascades m work (cascade fuel m work) := by
  induction fuel with
  | zero =>
    intro m work _ hle
    have hnil : work = [] := List.eq_nil_of_length_eq_zero (by unfold potential at hle; omega)
    subst hnil
    exact .done m
  | succ fuel ih =>
    intro m work hwf hle
    cases work with
    | nil => exact .done m
    | cons current work =>
      cases hc : m.tryClassify current with
      | none =>
        simp only [cascade, hc]
        refine .skip hc (ih work hwf ?_)
        simp only [potential, List.length_cons] at hle ⊢
        omega
      | some m' =>
        have hcl := tryClassify_some hc
        have hpot := hcl.potential hwf work
        simp only [cascade, hc]
        refine .transition hc (ih _ (hcl.wf hwf) ?_)
        omega

/-- The loop of an ingest ends, and in the state `ingest` returns. -/
theorem WF.cascades_ingest (h : WF m) {v : ValidatedEvent env room} (hnew : m.nodes.contains v.eventId = false)
    (last : RoomMembership env room) : Cascades (m.track v) [v.eventId] last ↔ last = m.ingest v := by
  have hget : m.nodes.get? v.eventId = none := by simpa [OrdMap.contains] using hnew
  have hrun : Cascades (m.track v) [v.eventId] (m.ingest v) := by
    rw [RoomMembership.ingest, if_neg (by simp [hnew])]
    exact cascades_cascade _ _ (track_wf hget h) (potential_le_cascadeFuel _ _)
  constructor
  · exact fun hlast => hlast.unique hrun
  · rintro rfl
    exact hrun

/-! ### Who waits -/

/-- A parent that holds its children back: absent, or pending itself. -/
def Blocks (m : RoomMembership env room) (p : EventId) : Prop :=
  m.nodes.get? p = none ∨ ∃ n, m.nodes.get? p = some n ∧ n.verdict = .pending

theorem blocks_iff {p : EventId} : m.Blocks p ↔ m.result p = none := by
  cases hp : m.nodes.get? p with
  | none => simp [Blocks, result, hp]
  | some n => simp [Blocks, result_eq_none_iff hp, hp]

theorem Settled.pending_iff (h : Settled m) {id : EventId} {n : Node env room} (hn : m.nodes.get? id = some n) :
    n.verdict = .pending ↔ ∃ p ∈ n.event.event.prevEvents, m.Blocks p := by
  simp only [blocks_iff, ← result_eq_none_iff hn]
  constructor
  · exact h.waiting_parent hn
  · rintro ⟨p, hp, hnone⟩
    by_contra hresult
    exact h.wf.parents hresult (show m.event? id = some n.event.event by simp [event?, hn]) p hp hnone

/-- In every run an event is pending exactly while a parent is absent or pending. Ingesting a new event runs a loop
that ends, and leaves no event pending whose parents are all classified; ingesting a tracked one changes nothing. -/
theorem fromEvents_pending_exact (events : List (ValidatedEvent env room)) (v : ValidatedEvent env room) :
    let m := fromEvents events
    (∀ id n, m.nodes.get? id = some n →
      (n.verdict = .pending ↔ ∃ p ∈ n.event.event.prevEvents, m.Blocks p)) ∧
    (m.nodes.contains v.eventId = false → ∀ last, Cascades (m.track v) [v.eventId] last ↔ last = m.ingest v) ∧
    (∀ id n, (m.ingest v).nodes.get? id = some n → (∀ p ∈ n.event.event.prevEvents, ¬ (m.ingest v).Blocks p) →
      n.verdict ≠ .pending) ∧
    (m.nodes.contains v.eventId = true → (m.ingest v).nodes = m.nodes ∧ (m.ingest v).snapshot = m.snapshot ∧
      ∀ id, (m.ingest v).outcome id = m.outcome id) := by
  have hs := settled_fromEvents events
  refine ⟨fun id n hn => hs.pending_iff hn, hs.wf.cascades_ingest, fun id n hn hparents hpending => ?_, fun hknown => ?_⟩
  · obtain ⟨p, hp, hblocks⟩ := ((hs.ingest v).pending_iff hn).mp hpending
    exact hparents p hp hblocks
  · have hsame : (fromEvents events).ingest v = fromEvents events := by
      rw [RoomMembership.ingest, if_pos hknown]
    rw [hsame]
    exact ⟨rfl, rfl, fun _ => rfl⟩

end RoomMembership

end IrohRooms
