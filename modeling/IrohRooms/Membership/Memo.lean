import IrohRooms.Membership.Heads
import IrohRooms.Membership.Progress

/-!
# The membership-ancestor memo

An event keeps the set of the membership events below it, built once from its parents' sets. The set is exact in every
reachable state, and nothing is lost by folding it in place of all ancestors: `fold` reads a scope through the genesis
it holds and through the events that touch a subject, all of them membership events (`fold_filter`).
-/

namespace IrohRooms

variable {env : Env} {room : RoomId}

namespace RoomMembership

/-- Every ancestor of an event, ascending. -/
def fullAncestors (m : RoomMembership env room) (id : EventId) : OrdSet EventId :=
  OrdSet.ofList (m.nodes.keys.filter fun a => m.isStructuralAncestor a id)

variable {m : RoomMembership env room}

theorem WF.mem_fullAncestors (h : WF m) {a id : EventId} (hid : m.result id ≠ none) :
    a ∈ m.fullAncestors id ↔ Staged.Below m.deps a id := by
  rw [fullAncestors, OrdSet.mem_ofList, List.mem_filter, isStructuralAncestor_iff]
  refine and_iff_right_of_imp fun hb => ?_
  obtain ⟨n, hn⟩ := node_of_result (h.classified_of_below hb hid)
  exact OrdMap.mem_keys.mpr (by simp [hn])

/-- Resolving the members of a set that affect membership is keeping those of the resolved entries. -/
theorem resolve_filter {ids memo : OrdSet EventId}
    (hmemo : ∀ a, a ∈ memo ↔ a ∈ ids ∧ ∃ e, m.event? a = some e ∧ affectsMembership e.content = true) :
    m.resolve memo = (m.resolve ids).filter fun e => affectsMembership e.event.content := by
  have heq : memo = ids.filter fun a => (m.entryOf a).any fun e => affectsMembership e.event.content := by
    refine OrdSet.ext_mem fun a => ?_
    rw [hmemo, OrdSet.mem_filter]
    refine and_congr_right fun _ => ?_
    cases hn : m.nodes.get? a with
    | none => simp [entryOf, event?, hn]
    | some n => simp [entryOf, event?, hn, Node.entry]
  have hlist : memo.toList =
      ids.toList.filter fun a => (m.entryOf a).any fun e => affectsMembership e.event.content := by
    rw [heq, OrdSet.toList, OrdSet.toList, OrdMap.keys, OrdMap.keys, List.filter_map]
    rfl
  rw [resolve, resolve, hlist, List.filterMap_filter, List.filter_filterMap]
  refine List.filterMap_congr fun a _ => ?_
  cases hent : m.entryOf a with
  | none => rfl
  | some ent => simp [Option.filter]

/-- The memo of a classified event holds exactly the membership events below it, and folds as all of its ancestors. -/
theorem membership_memo_exact (h : Reachable m) {id : EventId} {n : Node env room} (hn : m.nodes.get? id = some n)
    (hclassified : n.isPending = false) :
    (∀ a, a ∈ n.membershipAncestors ↔
      Staged.Below m.deps a id ∧ ∃ e, m.event? a = some e ∧ affectsMembership e.content = true) ∧
    (∀ a, a ∈ m.fullAncestors id ↔ Staged.Below m.deps a id) ∧
    fold env room (acceptedAncestors (m.resolve n.membershipAncestors)) =
      fold env room (acceptedAncestors (m.resolve (m.fullAncestors id))) := by
  have hid : m.result id ≠ none := by
    rw [ne_eq, result_eq_none_iff hn]
    simpa [Node.isPending] using hclassified
  have hent : m.entryOf id = some (n.entry id) := by simp [entryOf, hn]
  have hmemo : ∀ a, a ∈ n.membershipAncestors ↔
      Staged.Below m.deps a id ∧ ∃ e, m.event? a = some e ∧ affectsMembership e.content = true :=
    fun a => h.wf.mem_entry_memo hent hid
  have hfull : ∀ a, a ∈ m.fullAncestors id ↔ Staged.Below m.deps a id := fun a => h.wf.mem_fullAncestors hid
  refine ⟨hmemo, hfull, ?_⟩
  rw [resolve_filter fun a => (hmemo a).trans (and_congr_left' (hfull a).symm), acceptedAncestors,
    List.filter_comm, fold_filter, acceptedAncestors]

/-- The second message of the fork folds the same from its memo as from all its ancestors. -/
theorem membership_memo_exact_forked :
    ∃ n, (fromEvents Toy.forked).nodes.get? (Bytes32.ofNat 14) = some n ∧
      fold toyEnv Toy.room (acceptedAncestors ((fromEvents Toy.forked).resolve n.membershipAncestors)) =
        fold toyEnv Toy.room (acceptedAncestors
          ((fromEvents Toy.forked).resolve ((fromEvents Toy.forked).fullAncestors (Bytes32.ofNat 14)))) := by
  obtain ⟨n, hn, hclassified⟩ : ∃ n, (fromEvents Toy.forked).nodes.get? (Bytes32.ofNat 14) = some n ∧
      n.isPending = false := Option.map_eq_some_iff.mp (by decide +kernel)
  exact ⟨n, hn, (membership_memo_exact (reachable_fromEvents fun v hv => Toy.validated_of_mem_log hv) hn
    hclassified).2.2⟩

end RoomMembership

end IrohRooms
