import IrohRooms.Lib.OrdMap

/-!
# Sweeping a system of equations to its fixpoint

`Sweep.pass` runs over the keys once and overwrites each value by its equation at the values so far, noting whether
anything changed; `Sweep.loop` repeats it until a pass changes nothing. When each equation reads only keys of a lower
rank, a pass settles one more rank, so one pass for each rank and one to notice reach the solution (`loop_get?`),
whatever the order of the keys.
-/

universe u v

namespace Sweep

variable {κ : Type u} {ν : Type v} [LinearOrder κ] [DecidableEq ν] (eqn : (κ → Option ν) → κ → ν)

/-- Overwrite one value, and note whether it changed. -/
def visit (acc : OrdMap κ ν × Bool) (k : κ) : OrdMap κ ν × Bool :=
  let new := eqn acc.1.get? k
  if acc.1.get? k = some new then acc else (acc.1.insert k new, true)

def pass (keys : List κ) (vals : OrdMap κ ν) : OrdMap κ ν × Bool := keys.foldl (visit eqn) (vals, false)

/-- Pass after pass until nothing changes. -/
def loop (keys : List κ) : Nat → OrdMap κ ν → OrdMap κ ν
  | 0, vals => vals
  | fuel + 1, vals => if (pass eqn keys vals).2 then loop keys fuel (pass eqn keys vals).1 else (pass eqn keys vals).1

variable {eqn}

theorem visit_get? (acc : OrdMap κ ν × Bool) (k k' : κ) :
    (visit eqn acc k).1.get? k' = if k' = k then some (eqn acc.1.get? k) else acc.1.get? k' := by
  unfold visit
  by_cases hsame : acc.1.get? k = some (eqn acc.1.get? k)
  · rw [if_pos hsame]
    by_cases hk : k' = k
    · rw [if_pos hk, hk]
      exact hsame
    · rw [if_neg hk]
  · rw [if_neg hsame]
    exact OrdMap.get?_insert _ _ _ _

/-- A run that ends unchanged was at a fixpoint all along. -/
theorem foldl_visit_unchanged {keys : List κ} {acc : OrdMap κ ν × Bool} (h : (keys.foldl (visit eqn) acc).2 = false) :
    keys.foldl (visit eqn) acc = acc := by
  induction keys generalizing acc with
  | nil => rfl
  | cons k keys ih =>
    rw [List.foldl_cons] at h ⊢
    have htail := ih h
    rw [htail] at h ⊢
    unfold visit at h ⊢
    by_cases hsame : acc.1.get? k = some (eqn acc.1.get? k)
    · rw [if_pos hsame]
    · rw [if_neg hsame] at h
      cases h

section Solution

variable {keys : List κ} {reads : κ → κ → Prop} {rank : κ → Nat} {sol : κ → Option ν}

/-- The values of the keys below rank `n` are the solution's, and no other key has a value. -/
structure Solved (keys : List κ) (rank : κ → Nat) (sol : κ → Option ν) (n : Nat) (vals : OrdMap κ ν) : Prop where
  low : ∀ k ∈ keys, rank k < n → vals.get? k = sol k
  dom : ∀ k, k ∉ keys → vals.get? k = none

variable (hreads : ∀ k ∈ keys, ∀ f g : κ → Option ν, (∀ p, reads k p → f p = g p) → eqn f k = eqn g k)
  (hrank : ∀ k ∈ keys, ∀ p ∈ keys, reads k p → rank p < rank k)
  (hsol : ∀ k ∈ keys, sol k = some (eqn sol k)) (hnone : ∀ k, k ∉ keys → sol k = none)
include hreads hrank hsol hnone

omit [DecidableEq ν] in
/-- A key whose lower ranks are solved gets its solution. -/
theorem Solved.eqn_eq {n : Nat} {vals : OrdMap κ ν} (h : Solved keys rank sol n vals) {k : κ} (hk : k ∈ keys)
    (hle : rank k ≤ n) : some (eqn vals.get? k) = sol k := by
  have heq : eqn vals.get? k = eqn sol k := by
    refine hreads k hk _ _ fun p hp => ?_
    by_cases hmem : p ∈ keys
    · have hlt := hrank k hk p hmem hp
      exact h.low p hmem (by omega)
    · rw [h.dom p hmem, hnone p hmem]
  rw [heq, hsol k hk]

theorem Solved.visit {n : Nat} {acc : OrdMap κ ν × Bool} (h : Solved keys rank sol n acc.1) {k : κ} (hk : k ∈ keys) :
    Solved keys rank sol n (Sweep.visit eqn acc k).1 := by
  refine ⟨fun k' hk' hlt => ?_, fun k' hk' => ?_⟩
  · rw [visit_get?]
    split_ifs with heq
    · rw [heq] at hlt ⊢
      exact h.eqn_eq hreads hrank hsol hnone hk (by omega)
    · exact h.low k' hk' hlt
  · rw [visit_get?, if_neg fun heq => hk' (by rwa [heq])]
    exact h.dom k' hk'

/-- One pass settles the keys of the next rank among those it has visited. -/
theorem foldl_visit_solved {n : Nat} (todo : List κ) : ∀ (acc : OrdMap κ ν × Bool), (∀ k ∈ todo, k ∈ keys) →
    Solved keys rank sol n acc.1 → Solved keys rank sol n (todo.foldl (visit eqn) acc).1 ∧
      ∀ k ∈ keys, rank k = n → k ∈ todo ∨ acc.1.get? k = sol k →
        (todo.foldl (visit eqn) acc).1.get? k = sol k := by
  induction todo with
  | nil => exact fun _ _ h => ⟨h, fun k _ _ hk => hk.resolve_left List.not_mem_nil⟩
  | cons k₀ todo ih =>
    intro acc htodo h
    have hk₀ := htodo k₀ List.mem_cons_self
    have hnext := h.visit hreads hrank hsol hnone hk₀
    obtain ⟨hsolved, hdone⟩ := ih _ (fun k hk => htodo k (List.mem_cons_of_mem _ hk)) hnext
    refine ⟨hsolved, fun k hk hn hmem => hdone k hk hn ?_⟩
    -- the visited key itself has its value now, and keeps it
    by_cases heq : k = k₀
    · refine Or.inr ?_
      rw [visit_get?, if_pos heq, heq]
      exact h.eqn_eq hreads hrank hsol hnone hk₀ (by rw [← heq, hn])
    · rcases hmem with hmem | hval
      · exact Or.inl ((List.mem_cons.mp hmem).resolve_left heq)
      · exact Or.inr (by rw [visit_get?, if_neg heq, hval])

theorem Solved.pass {n : Nat} {vals : OrdMap κ ν} (h : Solved keys rank sol n vals) :
    Solved keys rank sol (n + 1) (Sweep.pass eqn keys vals).1 := by
  obtain ⟨hsolved, hdone⟩ := foldl_visit_solved hreads hrank hsol hnone keys (vals, false)
    (fun k hk => hk) h
  refine ⟨fun k hk hlt => ?_, hsolved.dom⟩
  rcases Nat.lt_or_eq_of_le (Nat.le_of_lt_succ hlt) with hlt' | heq
  · exact hsolved.low k hk hlt'
  · exact hdone k hk heq (Or.inl hk)

/-- At a fixpoint every rank is settled. -/
theorem Solved.of_unchanged {vals : OrdMap κ ν} (hsame : (Sweep.pass eqn keys vals).1 = vals)
    (h : Solved keys rank sol 0 vals) (n : Nat) : Solved keys rank sol n vals := by
  induction n with
  | zero => exact h
  | succ n ih =>
    have hpass := ih.pass hreads hrank hsol hnone
    rwa [hsame] at hpass

/-- With a pass for each rank and one more, the loop returns the solution. -/
theorem loop_get? {bound : Nat} (hbound : ∀ k ∈ keys, rank k < bound) (fuel n : Nat) {vals : OrdMap κ ν}
    (hfuel : bound ≤ n + fuel) (h : Solved keys rank sol n vals) (k : κ) :
    (loop eqn keys fuel vals).get? k = sol k := by
  have hfinish : ∀ {vals : OrdMap κ ν}, Solved keys rank sol bound vals → vals.get? k = sol k := by
    intro vals h
    by_cases hk : k ∈ keys
    · exact h.low k hk (hbound k hk)
    · rw [h.dom k hk, hnone k hk]
  induction fuel generalizing n vals with
  | zero => exact hfinish ⟨fun k hk _ => h.low k hk (by have := hbound k hk; omega), h.dom⟩
  | succ fuel ih =>
    unfold loop
    split_ifs with hchanged
    · exact ih (n + 1) (by omega) (h.pass hreads hrank hsol hnone)
    · have hsame : Sweep.pass eqn keys vals = (vals, false) := foldl_visit_unchanged (by simpa [Sweep.pass] using hchanged)
      rw [hsame]
      exact hfinish (Solved.of_unchanged hreads hrank hsol hnone (congrArg Prod.fst hsame)
        ⟨fun k _ hlt => absurd hlt (Nat.not_lt_zero _), h.dom⟩ bound)

end Solution

end Sweep
