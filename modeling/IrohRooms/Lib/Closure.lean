import Mathlib.Logic.Relation
import IrohRooms.Lib.OrdMap

/-!
# Closing a set under edges

A search with a stack closes a set under the admitted ends of its edges: it takes an item off the stack, enters the ends
that are new, and puts them on the stack. Every entered item comes from a new one of a finite supply, so with fuel for
the stack and the supply the result is exactly what is reached from the set (`mem_close_iff`).
-/

universe u

namespace Closure

variable {κ : Type u} [LinearOrder κ] (edges : κ → List κ) (admits : κ → Bool)

/-- Enter an item that is new and admitted, and put it on the stack. -/
def push (st : OrdSet κ × List κ) (x : κ) : OrdSet κ × List κ :=
  if !decide (x ∈ st.1) && admits x then (st.1.add x, x :: st.2) else st

def close : Nat → OrdSet κ × List κ → OrdSet κ
  | 0, st => st.1
  | fuel + 1, st =>
    match st.2 with
    | [] => st.1
    | x :: stack => close fuel ((edges x).foldl (push admits) (st.1, stack))

/-- One admitted edge. -/
def Edge (a b : κ) : Prop := b ∈ edges a ∧ admits b = true

/-- `b` is reached from `a` along admitted edges. -/
def Reaches : κ → κ → Prop := Relation.ReflTransGen (Edge edges admits)

/-- The search is at a point where everything entered comes from `start` and only items on the stack have edges left. -/
structure Searching (start : OrdSet κ) (st : OrdSet κ × List κ) : Prop where
  kept : ∀ x ∈ start, x ∈ st.1
  stacked : ∀ x ∈ st.2, x ∈ st.1
  reached : ∀ x ∈ st.1, ∃ s ∈ start, Reaches edges admits s x
  done : ∀ x ∈ st.1, x ∉ st.2 → ∀ y, Edge edges admits x y → y ∈ st.1

/-- The items of the supply that are not entered. -/
def left (supply : List κ) (seen : OrdSet κ) : List κ := supply.filter fun x => !decide (x ∈ seen)

variable {edges admits} {start : OrdSet κ} {st : OrdSet κ × List κ}

/-! ### Entering the ends of an item -/

theorem push_of_new {x : κ} (hnew : x ∉ st.1) (hadmits : admits x = true) :
    push admits st x = (st.1.add x, x :: st.2) := by
  unfold push
  rw [decide_eq_false hnew, hadmits]
  rfl

theorem push_of_not {x : κ} (h : ¬ (x ∉ st.1 ∧ admits x = true)) : push admits st x = st := by
  unfold push
  refine if_neg fun hnew => h ?_
  rw [Bool.and_eq_true, Bool.not_eq_true', decide_eq_false_iff_not] at hnew
  exact hnew

/-- What is entered and stacked after the ends of an item: what was, and the new admitted ends. -/
theorem mem_foldl_push (ends : List κ) (st : OrdSet κ × List κ) (y : κ) :
    (y ∈ (ends.foldl (push admits) st).1 ↔ y ∈ st.1 ∨ (y ∈ ends ∧ admits y = true)) ∧
      (y ∈ (ends.foldl (push admits) st).2 ↔ y ∈ st.2 ∨ (y ∉ st.1 ∧ y ∈ ends ∧ admits y = true)) := by
  induction ends generalizing st with
  | nil => simp
  | cons x ends ih =>
    obtain ⟨hseen, hstack⟩ := ih (push admits st x)
    rw [List.foldl_cons, hseen, hstack]
    by_cases hnew : x ∉ st.1 ∧ admits x = true
    · rw [push_of_new hnew.1 hnew.2]
      simp only [OrdSet.mem_add, List.mem_cons]
      by_cases hy : y = x
      · subst hy
        simp [hnew.1, hnew.2]
      · simp [hy]
    · rw [push_of_not hnew]
      simp only [List.mem_cons]
      by_cases hy : y = x
      · subst hy
        by_cases hmem : y ∈ st.1
        · simp [hmem]
        · have hnot : admits y = false := by simpa [hmem] using hnew
          simp [hnot]
      · simp [hy]

theorem length_left_add_lt {supply : List κ} {seen : OrdSet κ} {x : κ} (hx : x ∈ supply) (hnew : x ∉ seen) :
    (left supply (seen.add x)).length < (left supply seen).length := by
  have hsub : left supply (seen.add x) = (left supply seen).filter fun y => decide (y ≠ x) := by
    unfold left
    rw [List.filter_filter]
    refine List.filter_congr fun y _ => ?_
    by_cases hy : y = x <;> simp [hy]
  rw [hsub]
  refine List.length_filter_lt_length_iff_exists.mpr ⟨x, ?_, by simp⟩
  exact List.mem_filter.mpr ⟨hx, by simpa using hnew⟩

/-- An entered item costs a place on the stack and frees one in the supply. -/
theorem cost_foldl_push {supply : List κ} (ends : List κ) (hsupply : ∀ y ∈ ends, admits y = true → y ∈ supply)
    (st : OrdSet κ × List κ) :
    (ends.foldl (push admits) st).2.length + (left supply (ends.foldl (push admits) st).1).length ≤
      st.2.length + (left supply st.1).length := by
  induction ends generalizing st with
  | nil => exact Nat.le_refl _
  | cons x ends ih =>
    rw [List.foldl_cons]
    refine (ih (fun y hy => hsupply y (List.mem_cons_of_mem _ hy)) _).trans ?_
    by_cases hnew : x ∉ st.1 ∧ admits x = true
    · rw [push_of_new hnew.1 hnew.2]
      have hless := length_left_add_lt (hsupply x List.mem_cons_self hnew.2) hnew.1
      dsimp only
      rw [List.length_cons]
      omega
    · rw [push_of_not hnew]

/-! ### The search -/

theorem searching_start (hstack : ∀ x, x ∈ start ↔ x ∈ st.2) (hseen : st.1 = start) :
    Searching edges admits start st := by
  refine ⟨fun x hx => hseen ▸ hx, fun x hx => hseen ▸ (hstack x).mpr hx, fun x hx => ?_, fun x hx hnot => ?_⟩
  · exact ⟨x, hseen ▸ hx, Relation.ReflTransGen.refl⟩
  · exact absurd ((hstack x).mp (hseen ▸ hx)) hnot

theorem Searching.step {x : κ} {seen : OrdSet κ} {stack : List κ}
    (h : Searching edges admits start (seen, x :: stack)) :
    Searching edges admits start ((edges x).foldl (push admits) (seen, stack)) := by
  have hmem := fun y => @mem_foldl_push _ _ admits (edges x) (seen, stack) y
  have hx : x ∈ seen := h.stacked x List.mem_cons_self
  refine ⟨fun y hy => (hmem y).1.mpr (Or.inl (h.kept y hy)), fun y hy => (hmem y).1.mpr ?_, fun y hy => ?_,
    fun y hy hnot z hz => (hmem z).1.mpr ?_⟩
  · rcases (hmem y).2.mp hy with hold | ⟨-, hnew⟩
    · exact Or.inl (h.stacked y (List.mem_cons_of_mem _ hold))
    · exact Or.inr hnew
  · rcases (hmem y).1.mp hy with hold | hnew
    · exact h.reached y hold
    · obtain ⟨s, hs, hreach⟩ := h.reached x hx
      exact ⟨s, hs, hreach.tail hnew⟩
  · -- an item off the stack is the one just taken, or had no edges left before
    rw [(hmem y).2, not_or, not_and] at hnot
    by_cases hyx : y = x
    · subst hyx
      exact Or.inr hz
    · have hold : y ∈ seen := by
        by_contra hnew
        rcases (hmem y).1.mp hy with hold | hentered
        · exact hnew hold
        · exact hnot.2 hnew hentered
      refine Or.inl (h.done y hold ?_ z hz)
      rw [List.mem_cons, not_or]
      exact ⟨hyx, hnot.1⟩

/-- With fuel for the stack and the supply, the search ends with nothing left on the stack. -/
theorem Searching.close {supply : List κ} (hsupply : ∀ x y, Edge edges admits x y → y ∈ supply) (fuel : Nat)
    (h : Searching edges admits start st) (hfuel : st.2.length + (left supply st.1).length ≤ fuel) :
    Searching edges admits start (Closure.close edges admits fuel st, []) := by
  induction fuel generalizing st with
  | zero =>
    have hnil : st.2 = [] := List.length_eq_zero_iff.mp (by omega)
    unfold Closure.close
    rw [← hnil]
    exact h
  | succ fuel ih =>
    obtain ⟨seen, stack⟩ := st
    unfold Closure.close
    cases stack with
    | nil => exact h
    | cons x stack =>
      refine ih h.step ?_
      have hcost := cost_foldl_push (edges x) (fun y hy hadmits => hsupply x y ⟨hy, hadmits⟩) (seen, stack)
      rw [List.length_cons] at hfuel
      dsimp only at hcost hfuel ⊢
      omega

/-- The closed set is what is reached from the set. -/
theorem mem_close_iff {supply : List κ} (hsupply : ∀ x y, Edge edges admits x y → y ∈ supply) {fuel : Nat}
    (hstack : ∀ x, x ∈ start ↔ x ∈ st.2) (hseen : st.1 = start) (hfuel : st.2.length + supply.length ≤ fuel) {y : κ} :
    y ∈ close edges admits fuel st ↔ ∃ s ∈ start, Reaches edges admits s y := by
  have hleft : (left supply st.1).length ≤ supply.length := List.length_filter_le _ _
  have hend := (searching_start hstack hseen).close hsupply fuel (by omega)
  refine ⟨hend.reached y, ?_⟩
  rintro ⟨s, hs, hreach⟩
  induction hreach with
  | refl => exact hend.kept s hs
  | tail _ hedge ih => exact hend.done _ ih List.not_mem_nil _ hedge

end Closure
