import IrohRooms.Lib.OrdMap
import Mathlib.Algebra.Order.BigOperators.Group.List
import Mathlib.Algebra.Order.Ring.Nat
import Mathlib.Logic.Relation

/-!
# Looking for an item along edges

A depth-first search for a target takes an item off the stack, skips it if it was seen before, stops if it is the target,
and otherwise puts its edges on the stack. An item may be stacked many times, but its edges are stacked once: with fuel
for the stack and for the edges of the items not seen yet, the search finds the target exactly if some stacked item
reaches it (`search_iff`).
-/

universe u

namespace Search

variable {κ : Type u} [LinearOrder κ] (edges : κ → List κ) (target : κ)

def search : Nat → List κ → OrdSet κ → Bool
  | 0, _, _ => false
  | _ + 1, [], _ => false
  | fuel + 1, current :: stack, seen =>
    if current ∈ seen then search fuel stack seen
    else if current = target then true
    else search fuel ((edges current).reverse ++ stack) (seen.add current)

/-- `b` is reached from `a` along zero or more edges. -/
def Reaches : κ → κ → Prop := Relation.ReflTransGen fun a b => b ∈ edges a

/-- The edges that may still be stacked. -/
def unseen (supply : List κ) (seen : OrdSet κ) : Nat :=
  (supply.map fun x => if x ∈ seen then 0 else (edges x).length).sum

/-- The edges of a seen item are seen or stacked, and the target is not seen. -/
structure Pending (stack : List κ) (seen : OrdSet κ) : Prop where
  closed : ∀ x ∈ seen, ∀ y ∈ edges x, y ∈ seen ∨ y ∈ stack
  missing : target ∉ seen

variable {edges target} {stack : List κ} {seen : OrdSet κ}

theorem exists_of_search {fuel : Nat} (h : search edges target fuel stack seen = true) :
    ∃ s ∈ stack, Reaches edges s target := by
  induction fuel generalizing stack seen with
  | zero => simp [search] at h
  | succ fuel ih =>
    cases stack with
    | nil => simp [search] at h
    | cons current stack =>
      rw [search] at h
      split_ifs at h with hseen htarget
      · obtain ⟨s, hs, hreach⟩ := ih h
        exact ⟨s, List.mem_cons_of_mem _ hs, hreach⟩
      · exact ⟨current, List.mem_cons_self, htarget ▸ Relation.ReflTransGen.refl⟩
      · obtain ⟨s, hs, hreach⟩ := ih h
        rcases List.mem_append.mp hs with hedge | hold
        · exact ⟨current, List.mem_cons_self, Relation.ReflTransGen.head (List.mem_reverse.mp hedge) hreach⟩
        · exact ⟨s, List.mem_cons_of_mem _ hold, hreach⟩

/-- Seeing an item pays for its edges. -/
theorem unseen_add {supply : List κ} {x : κ} (hsupply : edges x ≠ [] → x ∈ supply) (hnew : x ∉ seen) :
    unseen edges supply (seen.add x) + (edges x).length ≤ unseen edges supply seen := by
  have hle : ∀ l : List κ, unseen edges l (seen.add x) ≤ unseen edges l seen := by
    intro l
    refine List.sum_le_sum fun y _ => ?_
    by_cases hy : y ∈ seen <;> by_cases hyx : y = x <;> simp [hy, hyx, OrdSet.mem_add]
  by_cases hnil : edges x = []
  · rw [hnil]
    exact hle supply
  · obtain ⟨l, r, rfl⟩ := List.append_of_mem (hsupply hnil)
    have hl := hle l
    have hr := hle r
    simp only [unseen, List.map_append, List.sum_append, List.map_cons, List.sum_cons, OrdSet.mem_add, true_or,
      if_true, hnew, if_false] at hl hr ⊢
    omega

theorem Pending.skip {current : κ} (h : Pending edges target (current :: stack) seen) (hseen : current ∈ seen) :
    Pending edges target stack seen := by
  refine ⟨fun x hx y hy => ?_, h.missing⟩
  rcases h.closed x hx y hy with hin | hstacked
  · exact Or.inl hin
  · rcases List.mem_cons.mp hstacked with rfl | hold
    · exact Or.inl hseen
    · exact Or.inr hold

theorem Pending.expand {current : κ} (h : Pending edges target (current :: stack) seen) (hne : current ≠ target) :
    Pending edges target ((edges current).reverse ++ stack) (seen.add current) := by
  refine ⟨fun x hx y hy => ?_, fun hmem => ?_⟩
  · rw [OrdSet.mem_add, List.mem_append, List.mem_reverse]
    rcases OrdSet.mem_add.mp hx with rfl | hold
    · exact Or.inr (Or.inl hy)
    · rcases h.closed x hold y hy with hin | hstacked
      · exact Or.inl (Or.inr hin)
      · rcases List.mem_cons.mp hstacked with rfl | hin
        · exact Or.inl (Or.inl rfl)
        · exact Or.inr (Or.inr hin)
  · rcases OrdSet.mem_add.mp hmem with heq | hold
    · exact hne heq.symm
    · exact h.missing hold

/-- With nothing stacked, no seen item reaches the target. -/
theorem Pending.not_reaches (h : Pending edges target [] seen) {s : κ} (hs : s ∈ seen) : ¬ Reaches edges s target := by
  intro hreach
  have hstay : ∀ t, Reaches edges s t → t ∈ seen := by
    intro t ht
    induction ht with
    | refl => exact hs
    | tail _ hedge ih => exact (h.closed _ ih _ hedge).resolve_right List.not_mem_nil
  exact h.missing (hstay target hreach)

theorem search_of_reaches {supply : List κ} (hsupply : ∀ x, edges x ≠ [] → x ∈ supply) {fuel : Nat}
    (h : Pending edges target stack seen) (hfuel : stack.length + unseen edges supply seen < fuel) {s : κ}
    (hs : s ∈ seen ∨ s ∈ stack) (hreach : Reaches edges s target) : search edges target fuel stack seen = true := by
  induction fuel generalizing stack seen s with
  | zero => omega
  | succ fuel ih =>
    cases stack with
    | nil => exact absurd hreach (h.not_reaches (hs.resolve_right List.not_mem_nil))
    | cons current stack =>
      rw [List.length_cons] at hfuel
      rw [search]
      split_ifs with hseen htarget
      · refine ih (h.skip hseen) (by omega) ?_ hreach
        rcases hs with hin | hstacked
        · exact Or.inl hin
        · rcases List.mem_cons.mp hstacked with rfl | hold
          · exact Or.inl hseen
          · exact Or.inr hold
      · rfl
      · have hpaid := unseen_add (hsupply current) hseen
        refine ih (h.expand htarget) ?_ ?_ hreach
        · rw [List.length_append, List.length_reverse]
          omega
        · rw [OrdSet.mem_add, List.mem_append]
          rcases hs with hin | hstacked
          · exact Or.inl (Or.inr hin)
          · rcases List.mem_cons.mp hstacked with rfl | hold
            · exact Or.inl (Or.inl rfl)
            · exact Or.inr (Or.inr hold)

/-- From nothing seen, the search finds what the stacked items reach. -/
theorem search_iff {supply : List κ} (hsupply : ∀ x, edges x ≠ [] → x ∈ supply) {fuel : Nat}
    (hfuel : stack.length + (supply.map fun x => (edges x).length).sum < fuel) :
    search edges target fuel stack OrdMap.empty = true ↔ ∃ s ∈ stack, Reaches edges s target := by
  refine ⟨exists_of_search, ?_⟩
  rintro ⟨s, hs, hreach⟩
  have hempty : ∀ x : κ, x ∉ (OrdMap.empty : OrdSet κ) := fun x => by simp
  have hstart : Pending edges target stack OrdMap.empty := ⟨fun x hx => absurd hx (hempty x), hempty target⟩
  have hunseen : unseen edges supply OrdMap.empty = (supply.map fun x => (edges x).length).sum := by
    simp only [unseen, hempty, if_false]
  exact search_of_reaches hsupply hstart (hunseen ▸ hfuel) (Or.inr hs) hreach

end Search
