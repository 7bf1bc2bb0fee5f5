import Mathlib.Data.Finset.Card
import Mathlib.Algebra.Order.BigOperators.Group.List
import Mathlib.Algebra.Order.Ring.Nat
import Mathlib.Algebra.Group.Action.Defs

/-!
# Depth-first worklists

`Worklist.run` pops an item, tries to change the state at it, and pushes the item's children whenever the state
changed. An item may be pushed again and again, so termination is not a matter of visiting each item once: over
an acyclic graph the weight `(b + 1) ^ (n - rank)` of an item exceeds the weights of its children together
(`sum_weight_children`), and the weight of the stack bounds the pops. `run_induction` is the loop rule: what every
pop preserves holds of the final state with an empty stack.
-/

namespace Worklist

variable {σ κ : Type*}

section Run

variable (step : σ → κ → Option σ) (children : κ → List κ)

/-- Pop from the top of the stack; a popped item that changes the state pushes its children. -/
def run : Nat → σ → List κ → σ
  | 0, s, _ => s
  | _ + 1, s, [] => s
  | fuel + 1, s, x :: work =>
    match step s x with
    | some s' => run fuel s' ((children x).reverse ++ work)
    | none => run fuel s work

variable {step children}

/-- The loop rule: an invariant of state and stack, under a weight that each pop decreases. -/
theorem run_induction {P : σ → List κ → Prop} {weight : κ → Nat}
    (hskip : ∀ {s x work}, P s (x :: work) → step s x = none → P s work)
    (hstep : ∀ {s s' x work}, P s (x :: work) → step s x = some s' → P s' ((children x).reverse ++ work))
    (hweight : ∀ {s x work}, P s (x :: work) → ((children x).map weight).sum < weight x)
    (fuel : Nat) {s : σ} {work : List κ} (hP : P s work) (hfuel : (work.map weight).sum < fuel) :
    P (run step children fuel s work) [] := by
  induction fuel generalizing s work with
  | zero => omega
  | succ fuel ih =>
    cases work with
    | nil => exact hP
    | cons x work =>
      have hx := hweight hP
      rw [List.map_cons, List.sum_cons] at hfuel
      cases hs : step s x with
      | none =>
        simp only [run, hs]
        exact ih (hskip hP hs) (by omega)
      | some s' =>
        simp only [run, hs]
        refine ih (hstep hP hs) ?_
        rw [List.map_append, List.sum_append, List.map_reverse, List.sum_reverse]
        omega

end Run

/-! ### Weights over an acyclic graph -/

/-- The weight of an item of the given rank, in a graph with ranks below `n` and at most `b` children an item. -/
def weight (n b rank : Nat) : Nat := (b + 1) ^ (n - rank)

theorem weight_pos (n b rank : Nat) : 0 < weight n b rank := Nat.pow_pos (Nat.succ_pos b)

/-- An item outweighs its children, which rank above it. -/
theorem sum_weight_children {n b : Nat} {rank : κ → Nat} {x : κ} {kids : List κ} (hlen : kids.length ≤ b)
    (hrank : ∀ c ∈ kids, rank x < rank c ∧ rank c < n) :
    (kids.map fun c => weight n b (rank c)).sum < weight n b (rank x) := by
  rcases kids.eq_nil_or_concat with hnil | ⟨init, last, hlast⟩
  · rw [hnil]
    exact weight_pos n b (rank x)
  · have hlastRank := hrank last (by simp [hlast])
    have hle : ∀ w ∈ kids.map (fun c => weight n b (rank c)), w ≤ (b + 1) ^ (n - rank x - 1) := by
      intro w hw
      obtain ⟨c, hc, rfl⟩ := List.mem_map.mp hw
      have hcRank := hrank c hc
      exact Nat.pow_le_pow_right (Nat.succ_pos b) (by omega)
    have hsum := List.sum_le_card_nsmul _ _ hle
    rw [List.length_map, smul_eq_mul] at hsum
    have hpow : weight n b (rank x) = (b + 1) ^ (n - rank x - 1) * (b + 1) := by
      rw [weight, ← pow_succ]
      congr 1
      omega
    have hpos : 0 < (b + 1) ^ (n - rank x - 1) := Nat.pow_pos (Nat.succ_pos b)
    calc (kids.map fun c => weight n b (rank c)).sum
        ≤ kids.length * (b + 1) ^ (n - rank x - 1) := hsum
      _ ≤ b * (b + 1) ^ (n - rank x - 1) := Nat.mul_le_mul_right _ hlen
      _ < (b + 1) * (b + 1) ^ (n - rank x - 1) := Nat.mul_lt_mul_of_pos_right (Nat.lt_succ_self b) hpos
      _ = weight n b (rank x) := by rw [hpow, Nat.mul_comm]

open scoped Classical in
/-- A strict order on a finite set has ranks below the set's size. -/
theorem exists_rank (nodes : Finset κ) (lt : κ → κ → Prop) (htrans : ∀ {a b c}, lt a b → lt b c → lt a c)
    (hirrefl : ∀ a ∈ nodes, ¬ lt a a) :
    ∃ rank : κ → Nat, (∀ a ∈ nodes, rank a < nodes.card) ∧ ∀ a ∈ nodes, ∀ b, lt a b → rank a < rank b := by
  refine ⟨fun a => (nodes.filter fun y => lt y a).card, fun a ha => ?_, fun a ha b hab => ?_⟩
  · refine Finset.card_lt_card (Finset.filter_ssubset.mpr ⟨a, ha, hirrefl a ha⟩)
  · refine Finset.card_lt_card (Finset.ssubset_iff_of_subset ?_ |>.mpr ⟨a, ?_, ?_⟩)
    · intro y hy
      obtain ⟨hyn, hya⟩ := Finset.mem_filter.mp hy
      exact Finset.mem_filter.mpr ⟨hyn, htrans hya hab⟩
    · exact Finset.mem_filter.mpr ⟨ha, hab⟩
    · intro h
      exact hirrefl a ha (Finset.mem_filter.mp h).2

end Worklist
