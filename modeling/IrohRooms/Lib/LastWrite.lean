import Mathlib.Order.Bounds.Basic

/-!
# The last write wins

A table is filled by running over a list, each element writing at most one value for the key at hand. Reading the
key back gives the last value written; over elements in ascending order of what they write, that is the greatest.
-/

universe u v w

namespace LastWrite

variable {α : Type u} {β : Type v} {κ : Type w}

/-- A run of writes, of which each element makes at most one, reads back the last. -/
theorem foldl_read {step : β → α → β} {read : β → Option κ} {write : α → Option κ}
    (h : ∀ b a, read (step b a) = (write a).or (read b)) (l : List α) (b : β) :
    read (l.foldl step b) = (l.reverse.findSome? write).or (read b) := by
  induction l generalizing b with
  | nil => rfl
  | cons a l ih =>
    rw [List.foldl_cons, ih, h, List.reverse_cons, List.findSome?_append, Option.or_assoc]
    cases hw : write a with
    | none => simp [hw]
    | some k => simp [hw]

/-- The values a list writes. -/
def Written (write : α → Option κ) (l : List α) : Set κ := {k | ∃ a ∈ l, write a = some k}

theorem findSome?_eq_none {l : List α} {write : α → Option κ} :
    l.reverse.findSome? write = none ↔ Written write l = ∅ := by
  rw [List.findSome?_eq_none_iff, Set.eq_empty_iff_forall_notMem]
  simp only [List.mem_reverse, Written, Set.mem_ofPred_eq, not_exists, not_and]
  constructor
  · intro h k a ha hk
    rw [h a ha] at hk
    cases hk
  · intro h a ha
    exact Option.eq_none_iff_forall_ne_some.mpr fun k => h k a ha

variable [LinearOrder κ]

/-- Over elements in ascending order the last write is the greatest. -/
theorem isGreatest_of_findSome? {l : List α} {key : α → κ} {write : α → Option κ}
    (hsorted : l.Pairwise fun a b => key a < key b) (hwrite : ∀ a ∈ l, ∀ k, write a = some k → key a = k) {k : κ}
    (h : l.reverse.findSome? write = some k) : IsGreatest (Written write l) k := by
  obtain ⟨later, a, earlier, hl, ha, hlater⟩ := List.findSome?_eq_some_iff.mp h
  have hmem : ∀ b, b ∈ l ↔ b ∈ later ∨ b = a ∨ b ∈ earlier := by
    intro b
    rw [← List.mem_reverse, hl, List.mem_append, List.mem_cons]
  have haMem : a ∈ l := (hmem a).mpr (Or.inr (Or.inl rfl))
  refine ⟨⟨a, haMem, ha⟩, ?_⟩
  rintro k' ⟨b, hb, hbk⟩
  rcases (hmem b).mp hb with hb' | rfl | hb'
  · rw [hlater b hb'] at hbk
    cases hbk
  · exact le_of_eq (Option.some.inj (hbk.symm.trans ha))
  · have hrev : l.reverse.Pairwise fun a b => key b < key a := List.pairwise_reverse.mpr hsorted
    rw [hl, List.pairwise_append] at hrev
    have hlt := (List.pairwise_cons.mp hrev.2.1).1 b hb'
    rw [hwrite b hb k' hbk, hwrite a haMem k ha] at hlt
    exact hlt.le

/-- Reading back gives the greatest value written, or what was there when nothing was. -/
theorem foldl_read_eq_some {step : β → α → β} (read : β → Option κ) (write : α → Option κ) (key : α → κ)
    (h : ∀ b a, read (step b a) = (write a).or (read b)) {l : List α}
    (hsorted : l.Pairwise fun a b => key a < key b) (hwrite : ∀ a ∈ l, ∀ k, write a = some k → key a = k) {b : β}
    {k : κ} : read (l.foldl step b) = some k ↔
      IsGreatest (Written write l) k ∨ (Written write l = ∅ ∧ read b = some k) := by
  rw [foldl_read h]
  cases hlast : l.reverse.findSome? write with
  | none =>
    have hempty := findSome?_eq_none.mp hlast
    rw [Option.none_or, hempty]
    simp [IsGreatest]
  | some k' =>
    have hgreatest := isGreatest_of_findSome? hsorted hwrite hlast
    rw [Option.some_or, Option.some.injEq]
    constructor
    · rintro rfl
      exact Or.inl hgreatest
    · rintro (hk | ⟨hempty, -⟩)
      · exact hgreatest.unique hk
      · rw [hempty] at hgreatest
        exact absurd hgreatest.1 (Set.notMem_empty k')

end LastWrite
