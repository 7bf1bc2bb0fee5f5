import Mathlib.Data.List.Perm.Basic
import Mathlib.Algebra.BigOperators.Group.List.Basic
import Mathlib.Algebra.Order.Ring.Nat

/-!
# Priority lanes

A queue with priorities that is kept as one first-in first-out lane per priority. What it stands for is the list of the
waiting items in the order they came: each lane is the part of the list with its priority. Taking from the first lane
that is not empty is taking the oldest item of the highest priority.
-/

namespace Lanes

variable {α π κ : Type} [DecidableEq π] (prio : α → π)

/-- The lanes of a list of items. -/
def Holds (lanes : π → List α) (queued : List α) : Prop := ∀ p, lanes p = queued.filter fun a => prio a = p

def push (lanes : π → List α) (a : α) : π → List α := fun p => if p = prio a then lanes p ++ [a] else lanes p

/-- Take the front of the first lane in the order that is not empty. -/
def pop (lanes : π → List α) : List π → Option (α × (π → List α))
  | [] => none
  | p :: order =>
    match lanes p with
    | a :: rest => some (a, fun q => if q = p then rest else lanes q)
    | [] => pop lanes order

variable {prio} {lanes lanes' : π → List α} {queued : List α} {a : α} {order : List π}

theorem holds_nil : Holds prio (fun _ => []) [] := fun _ => rfl

theorem Holds.push (h : Holds prio lanes queued) (a : α) : Holds prio (push prio lanes a) (queued ++ [a]) := by
  intro p
  rw [Lanes.push, List.filter_append, ← h p]
  split_ifs with hp
  · rw [List.filter_cons_of_pos (by simpa using hp.symm)]
    rfl
  · rw [List.filter_cons_of_neg (by simpa using Ne.symm hp)]
    exact (List.append_nil _).symm

/-- Before the item taken stand no items of its priority, and none anywhere of a priority that comes first. -/
theorem Holds.pop (h : Holds prio lanes queued) (hpop : Lanes.pop lanes order = some (a, lanes')) :
    ∃ front back, queued = front ++ a :: back ∧ Holds prio lanes' (front ++ back) ∧
      (∀ b ∈ front, prio b ≠ prio a) ∧
      ∃ higher lower, order = higher ++ prio a :: lower ∧ ∀ b ∈ queued, prio b ∉ higher := by
  induction order with
  | nil => cases hpop
  | cons p order ih =>
    rw [Lanes.pop] at hpop
    split at hpop
    · rename_i first rest hlane
      cases hpop
      rw [h p] at hlane
      obtain ⟨front, back, hqueued, hfront, hprio, hback⟩ := List.filter_eq_cons_iff.mp hlane
      have hprio : prio a = p := by simpa using hprio
      have hfront : ∀ b ∈ front, prio b ≠ p := fun b hb => by simpa using hfront b hb
      refine ⟨front, back, hqueued, fun q => ?_, hprio ▸ hfront, [], order, by rw [hprio]; rfl, by simp⟩
      rw [List.filter_append]
      dsimp only
      split_ifs with hq
      · have hnone : (front.filter fun b => prio b = q) = [] := by
          refine List.filter_eq_nil_iff.mpr fun b hb => ?_
          simpa [hq] using hfront b hb
        rw [hnone, List.nil_append, hq, hback]
      · rw [h q, hqueued, List.filter_append, List.filter_cons_of_neg (by simpa [hprio] using Ne.symm hq)]
    · rename_i hlane
      obtain ⟨front, back, hqueued, hholds, hfront, higher, lower, horder, hhigher⟩ := ih hpop
      refine ⟨front, back, hqueued, hholds, hfront, p :: higher, lower, by rw [horder]; rfl, fun b hb => ?_⟩
      rw [h p] at hlane
      have hp : prio b ≠ p := by simpa using List.filter_eq_nil_iff.mp hlane b hb
      exact List.not_mem_cons_of_ne_of_not_mem hp (hhigher b hb)

/-- Nothing is taken only if nothing waits. -/
theorem Holds.eq_nil_of_pop (h : Holds prio lanes queued) (hpop : Lanes.pop lanes order = none) :
    ∀ b ∈ queued, prio b ∉ order := by
  induction order with
  | nil => exact fun b _ => List.not_mem_nil
  | cons p order ih =>
    rw [Lanes.pop] at hpop
    split at hpop
    · cases hpop
    · rename_i hlane
      intro b hb
      rw [h p] at hlane
      have hp : prio b ≠ p := by simpa using List.filter_eq_nil_iff.mp hlane b hb
      exact List.not_mem_cons_of_ne_of_not_mem hp (ih hpop b hb)

/-! ### Sums by key -/

/-- The part of a sum that belongs to a key. -/
def sumAt [DecidableEq κ] (key : α → κ) (size : α → Nat) (k : κ) (l : List α) : Nat :=
  ((l.filter fun a => key a = k).map size).sum

section Sum

variable [DecidableEq κ] (key : α → κ) (size : α → Nat) (k : κ)

@[simp] theorem sumAt_nil : sumAt key size k [] = 0 := rfl

theorem sumAt_append (l l' : List α) : sumAt key size k (l ++ l') = sumAt key size k l + sumAt key size k l' := by
  rw [sumAt, List.filter_append, List.map_append, List.sum_append]
  rfl

theorem sumAt_singleton (a : α) : sumAt key size k [a] = if key a = k then size a else 0 := by
  unfold sumAt
  split_ifs with hkey
  · rw [List.filter_cons_of_pos (by simpa using hkey)]
    simp
  · rw [List.filter_cons_of_neg (by simpa using hkey)]
    rfl

/-- Where an item stands does not matter. -/
theorem sumAt_insert (front back : List α) (a : α) :
    sumAt key size k (front ++ a :: back) = sumAt key size k (front ++ back) + if key a = k then size a else 0 := by
  rw [← sumAt_singleton, List.append_cons, sumAt_append, sumAt_append, sumAt_append]
  omega

theorem sumAt_congr {size' : α → Nat} {l : List α} (h : ∀ a ∈ l, size a = size' a) :
    sumAt key size k l = sumAt key size' k l := by
  unfold sumAt
  rw [List.map_congr_left fun a ha => h a (List.mem_of_mem_filter ha)]

theorem sumAt_eq_zero {l : List α} (hsize : ∀ a ∈ l, 0 < size a) (h : ∀ k, sumAt key size k l = 0) : l = [] := by
  cases l with
  | nil => rfl
  | cons a l =>
    have hzero := h (key a)
    rw [← List.nil_append (a :: l), sumAt_insert, if_pos rfl] at hzero
    have hpos := hsize a List.mem_cons_self
    omega

/-- One more item counts for one key. -/
theorem sum_sumAt_cons {keys : List κ} (hkeys : keys.Nodup) (a : α) (l : List α) :
    (keys.map fun k => sumAt key size k (a :: l)).sum =
      (keys.map fun k => sumAt key size k l).sum + if key a ∈ keys then size a else 0 := by
  have hcons : ∀ k, sumAt key size k (a :: l) = sumAt key size k l + if key a = k then size a else 0 :=
    fun k => sumAt_insert key size k [] l a
  induction keys with
  | nil => simp
  | cons k keys ih =>
    obtain ⟨hk, hrest⟩ := List.nodup_cons.mp hkeys
    rw [List.map_cons, List.sum_cons, List.map_cons, List.sum_cons, ih hrest, hcons]
    by_cases hkey : key a = k
    · have hnot : key a ∉ keys := hkey ▸ hk
      rw [if_pos hkey, if_neg hnot, if_pos (by simp [hkey])]
      omega
    · have hmem : key a ∈ k :: keys ↔ key a ∈ keys := by simp [hkey]
      rw [if_neg hkey]
      simp only [hmem]
      omega

/-- The parts of all keys are the whole. -/
theorem sum_sumAt {keys : List κ} (hkeys : keys.Nodup) {l : List α} (hall : ∀ a ∈ l, key a ∈ keys) :
    (keys.map fun k => sumAt key size k l).sum = (l.map size).sum := by
  induction l with
  | nil => simp
  | cons a l ih =>
    rw [List.forall_mem_cons] at hall
    rw [sum_sumAt_cons key size hkeys, ih hall.2, if_pos hall.1, List.map_cons, List.sum_cons, Nat.add_comm]

/-- The parts of different keys are not more than the whole. -/
theorem sum_sumAt_le {keys : List κ} (hkeys : keys.Nodup) (l : List α) :
    (keys.map fun k => sumAt key size k l).sum ≤ (l.map size).sum := by
  induction l with
  | nil => simp
  | cons a l ih =>
    rw [sum_sumAt_cons key size hkeys, List.map_cons, List.sum_cons]
    split_ifs <;> omega

end Sum

end Lanes
