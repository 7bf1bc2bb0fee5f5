import Mathlib.Algebra.BigOperators.Group.List.Basic
import Mathlib.Algebra.Order.Ring.Nat

/-!
# Cutting a list into batches

Items are put into the open batch as long as the batch stays within a budget, and a batch that holds something is closed
before it would exceed it. Nothing is lost or moved, no batch is empty, and only a batch of one item may exceed the
budget.
-/

namespace Batching

variable {α : Type} (cost : α → Nat) (budget : Nat)

/-- What a batch costs. -/
def total (batch : List α) : Nat := (batch.map cost).sum

/-- The batches that are closed, from the items to come and the open batch. -/
def cut : List α → List α → List (List α)
  | [], batch => if batch.isEmpty then [] else [batch]
  | x :: items, batch =>
    if !batch.isEmpty && decide (total cost batch + cost x > budget) then batch :: cut items [x]
    else cut items (batch ++ [x])

/-- Only a single item may exceed the budget. -/
def Fits (batch : List α) : Prop := batch.length ≤ 1 ∨ total cost batch ≤ budget

variable {cost budget}

theorem total_append (batch batch' : List α) : total cost (batch ++ batch') = total cost batch + total cost batch' := by
  simp [total]

theorem fits_nil : Fits cost budget ([] : List α) := Or.inl (Nat.zero_le 1)

theorem fits_singleton (x : α) : Fits cost budget [x] := Or.inl (Nat.le_refl 1)

theorem flatten_cut (items batch : List α) : (cut cost budget items batch).flatten = batch ++ items := by
  induction items generalizing batch with
  | nil =>
    unfold cut
    split_ifs with hempty
    · simp [List.isEmpty_iff.mp hempty]
    · simp
  | cons x items ih =>
    unfold cut
    split_ifs with hfull
    · rw [List.flatten_cons, ih]
      rfl
    · rw [ih, List.append_assoc]
      rfl

theorem ne_nil_of_mem_cut {items batch b : List α} (h : b ∈ cut cost budget items batch) : b ≠ [] := by
  induction items generalizing batch with
  | nil =>
    unfold cut at h
    split_ifs at h with hempty
    · cases h
    · rw [List.mem_singleton.mp h]
      simpa using hempty
  | cons x items ih =>
    unfold cut at h
    split_ifs at h with hfull
    · rcases List.mem_cons.mp h with rfl | h
      · rw [Bool.and_eq_true] at hfull
        simpa using hfull.1
      · exact ih h
    · exact ih h

theorem fits_of_mem_cut {items batch b : List α} (hbatch : Fits cost budget batch)
    (h : b ∈ cut cost budget items batch) : Fits cost budget b := by
  induction items generalizing batch with
  | nil =>
    unfold cut at h
    split_ifs at h with hempty
    · cases h
    · rwa [List.mem_singleton.mp h]
  | cons x items ih =>
    unfold cut at h
    split_ifs at h with hfull
    · rcases List.mem_cons.mp h with rfl | h
      · exact hbatch
      · exact ih (fits_singleton x) h
    · refine ih ?_ h
      -- the item is taken in because the batch was empty or has room for it
      by_cases hempty : batch = []
      · rw [hempty]
        exact fits_singleton x
      · have hroom : total cost batch + cost x ≤ budget := by simpa [hempty] using hfull
        refine Or.inr ?_
        rw [total_append]
        simpa [total] using hroom

end Batching
