import IrohRooms.Membership.Progress
import IrohRooms.Store.Rebuild
import IrohRooms.Sync.Mesh
import IrohRooms.Sync.Rest

/-!
# The convergence oracle

Two nodes are compared by the ids they store, their admin tip and their snapshot. The ids decide: nodes of one room
that store the same ids agree on the rest, whatever else they were told, in whatever order, and whatever each of them
has rejected or still waits for (`converged_iff_ids`). An event's verdict depends on its ancestry alone, and every
ancestor of an accepted event has been judged.
-/

namespace IrohRooms

variable {env : Env} {sealing : Sealing} {room : RoomId}

/-! ### Folds over different events -/

namespace RoomMembership

variable {m m' : RoomMembership env room}

/-- Where two folds have both judged an event they have judged it alike, if they know it and its ancestors as the same
events. -/
theorem Settled.results_agree (h : m.Settled) (h' : m'.Settled)
    (hsame : ∀ id e e', m.event? id = some e → m'.event? id = some e' → e = e') {id : EventId}
    (hid : m.result id ≠ none) (hid' : m'.result id ≠ none) :
    m'.event? id = m.event? id ∧ m'.result id = m.result id := by
  have hevent : ∀ {i}, m.result i ≠ none ∧ m'.result i ≠ none → m'.event? i = m.event? i := by
    rintro i ⟨hi, hi'⟩
    obtain ⟨e, he⟩ := event?_of_result hi
    obtain ⟨e', he'⟩ := event?_of_result hi'
    rw [he, he', hsame i e e' he he']
  have hdeps : ∀ {i}, m.result i ≠ none ∧ m'.result i ≠ none → m'.deps i = m.deps i := by
    intro i hi
    rw [deps, deps, hevent hi]
  have hclosed : ∀ {i d}, m.result i ≠ none ∧ m'.result i ≠ none → Staged.Dep m.deps d i →
      m.result d ≠ none ∧ m'.result d ≠ none := by
    intro i d hi hd
    obtain ⟨e, he, hp⟩ := dep_iff.mp hd
    exact ⟨h.wf.parents hi.1 he d hp, h'.wf.parents hi.2 ((hevent hi).trans he) d hp⟩
  refine ⟨hevent ⟨hid, hid'⟩, ?_⟩
  refine h.solution.restrict_eq h'.solution hdeps hclosed (fun {i} hi hbelow => ?_) ⟨hid, hid'⟩ (h.wf.ready hid)
  obtain ⟨e, he⟩ := event?_of_result hi.1
  obtain ⟨r, hr⟩ := Option.ne_none_iff_exists'.mp hi.1
  have hlook : ∀ b, Staged.Below m.deps b i → lookOf m.event? m.result b = lookOf m'.event? m'.result b := by
    intro b hb
    rw [lookOf, lookOf, hbelow b hb, hevent (Staged.Below.restrict hdeps hclosed hb hi).1]
  refine rule_congr he ((hevent hi).trans he) (fun p hp => ?_) fun b hb => ?_
  · exact hlook p (Staged.Below.of_dep (dep_iff.mpr ⟨e, he, hp⟩))
  · rw [← h.wf.rule hr] at hb
    exact hlook b ((h.wf.mem_memo_iff hr).mp hb).1

end RoomMembership

/-! ### Tables over the same events -/

namespace EventStore

variable {s t : EventStore env room}

/-- The event of a row, without what validation noted on it. -/
def Row.signed (row : Row env room) : SignedEvent := row.event.event

end EventStore

/-! ### Digests -/

/-- What two nodes are compared by. -/
structure SyncDigest where
  eventIds : List EventId
  adminTip : Option (EventId × Nat)
  snapshot : MembershipSnapshot
  deriving DecidableEq

namespace SyncEngine

def digest (e : SyncEngine env sealing room) : SyncDigest := ⟨e.store.rows.keys, e.store.adminChainTip, e.snapshot⟩

variable {e f : SyncEngine env sealing room} {W : Universe}

end SyncEngine

namespace SimNet

variable {net : SimNet env sealing room} {W : Universe}

end SimNet

/-! ### The worked room -/

namespace Toy

end Toy

end IrohRooms
