import Mathlib.Data.List.Induction
import IrohRooms.Lib.OrdMap

/-!
# Indexing and grouping a list by a key

`indexBy` keeps the last element under each key, `groupBy` all of them in order. Both are read back by filtering the
list; a permutation can bring any element of a key to the end, so it can make any of them the one that is kept.
-/

universe u v w

namespace OrdMap

variable {α : Type u} {κ : Type v} [LinearOrder κ]

/-- The last element of each key. -/
def indexBy (key : α → κ) (l : List α) : OrdMap κ α := l.foldl (fun m x => m.insert (key x) x) empty

/-- The elements of each key, in the order of the list. -/
def groupBy (key : α → κ) (l : List α) : OrdMap κ (List α) :=
  l.foldl (fun m x => m.insert (key x) (((m.get? (key x)).getD []) ++ [x])) empty

variable (key : α → κ) (l : List α)

theorem indexBy_concat (x : α) : indexBy key (l ++ [x]) = (indexBy key l).insert (key x) x := by
  rw [indexBy, List.foldl_append]
  rfl

theorem groupBy_concat (x : α) : groupBy key (l ++ [x]) =
    (groupBy key l).insert (key x) ((((groupBy key l).get? (key x)).getD []) ++ [x]) := by
  rw [groupBy, List.foldl_append]
  rfl

theorem get?_indexBy (k : κ) : (indexBy key l).get? k = (l.filter fun x => key x = k).getLast? := by
  induction l using List.reverseRecOn with
  | nil => rfl
  | append_singleton l x ih =>
    rw [indexBy_concat, get?_insert, List.filter_append]
    split_ifs with h
    · simp [h]
    · simp [ih, Ne.symm h]

theorem get?_groupBy (k : κ) :
    (groupBy key l).get? k = if (l.filter fun x => key x = k) = [] then none else some (l.filter fun x => key x = k) := by
  induction l using List.reverseRecOn with
  | nil => rfl
  | append_singleton l x ih =>
    rw [groupBy_concat, get?_insert, List.filter_append]
    split_ifs with h hnil hnil
    · simp [h] at hnil
    · subst h
      rw [ih]
      split_ifs with hl <;> simp [hl]
    · have hl : (l.filter fun x => key x = k) = [] := (List.append_eq_nil_iff.mp hnil).1
      rw [ih, if_pos hl]
    · have hx : ([x].filter fun x => key x = k) = [] := by simp [Ne.symm h]
      rw [hx, List.append_nil] at hnil ⊢
      rw [ih, if_neg hnil]

variable {key l}

theorem mem_of_get?_indexBy {k : κ} {x : α} (h : (indexBy key l).get? k = some x) : x ∈ l ∧ key x = k := by
  rw [get?_indexBy] at h
  have hmem := List.mem_of_getLast? h
  rw [List.mem_filter, decide_eq_true_iff] at hmem
  exact hmem

theorem isSome_get?_indexBy {k : κ} : ((indexBy key l).get? k).isSome ↔ ∃ x ∈ l, key x = k := by
  rw [get?_indexBy, List.getLast?_isSome]
  constructor
  · intro h
    obtain ⟨x, hx⟩ := List.exists_mem_of_ne_nil _ h
    rw [List.mem_filter, decide_eq_true_iff] at hx
    exact ⟨x, hx⟩
  · rintro ⟨x, hx, hk⟩ hnil
    have : x ∈ l.filter fun x => key x = k := List.mem_filter.mpr ⟨hx, decide_eq_true hk⟩
    rw [hnil] at this
    exact absurd this List.not_mem_nil

theorem length_indexBy_le : (indexBy key l).entries.length ≤ l.length := by
  induction l using List.reverseRecOn with
  | nil => exact Nat.le_refl _
  | append_singleton l x ih =>
    rw [indexBy_concat, List.length_append]
    exact Nat.le_trans (length_insert_le _ _ _) (Nat.succ_le_succ ih)

theorem get?_groupBy_eq_some {k : κ} {g : List α} :
    (groupBy key l).get? k = some g ↔ g ≠ [] ∧ g = l.filter fun x => key x = k := by
  rw [get?_groupBy]
  split_ifs with h
  · refine iff_of_false (by simp) ?_
    rintro ⟨hne, rfl⟩
    exact hne h
  · rw [Option.some_inj, eq_comm]
    refine ⟨?_, And.right⟩
    rintro rfl
    exact ⟨h, rfl⟩

theorem getD_get?_groupBy (k : κ) : ((groupBy key l).get? k).getD [] = l.filter fun x => key x = k := by
  rw [get?_groupBy]
  split_ifs with h
  · exact h.symm
  · rfl

/-- Moved to the end, an element is the one that the index keeps. -/
theorem exists_perm_indexBy {x : α} (hx : x ∈ l) :
    ∃ l', l'.Perm l ∧ (indexBy key l').get? (key x) = some x := by
  obtain ⟨s, t, rfl⟩ := List.append_of_mem hx
  refine ⟨s ++ t ++ [x], ?_, ?_⟩
  · rw [List.append_assoc]
    exact (List.perm_append_comm).append_left s
  · rw [indexBy_concat, get?_insert_self]

/-- The index of a list whose values are in order of their keys. -/
theorem values_indexBy_sorted : (indexBy key l).values.Pairwise fun a b => key a < key b := by
  have hkey : ∀ e ∈ (indexBy key l).entries, key e.2 = e.1 := by
    intro e he
    exact (mem_of_get?_indexBy (mem_entries.mp he)).2
  rw [values, List.pairwise_map]
  refine (indexBy key l).sorted.imp_of_mem ?_
  intro a b ha hb hab
  rwa [hkey a ha, hkey b hb]

theorem mem_values_indexBy {x : α} : x ∈ (indexBy key l).values ↔ (indexBy key l).get? (key x) = some x := by
  rw [mem_values]
  constructor
  · rintro ⟨k, hk⟩
    rwa [(mem_of_get?_indexBy hk).2]
  · intro h
    exact ⟨key x, h⟩

/-- A list whose elements share their key is one group. -/
theorem values_groupBy_const {k : κ} (hne : l ≠ []) (hkey : ∀ x ∈ l, key x = k) : (groupBy key l).values = [l] := by
  have hself : (l.filter fun x => key x = k) = l := List.filter_eq_self.mpr fun x hx => decide_eq_true (hkey x hx)
  have hgroup : groupBy key l = empty.insert k l := by
    refine ext_get? fun k' => ?_
    rw [get?_insert]
    split_ifs with h
    · subst h
      rw [get?_groupBy, hself, if_neg hne]
    · have hnil : (l.filter fun x => key x = k') = [] :=
        List.filter_eq_nil_iff.mpr fun x hx hk => h ((of_decide_eq_true hk).symm.trans (hkey x hx))
      rw [get?_groupBy, if_pos hnil]
      rfl
  rw [hgroup]
  rfl

end OrdMap

namespace OrdMap

variable {κ : Type v} [LinearOrder κ] {ν : Type u} {β : Type w} {m : OrdMap κ ν} {f : ν → Option β}

theorem findSome?_values_eq_none : m.values.findSome? f = none ↔ ∀ k x, m.get? k = some x → f x = none := by
  rw [List.findSome?_eq_none_iff]
  constructor
  · intro h k x hx
    exact h x (mem_values.mpr ⟨k, hx⟩)
  · intro h x hx
    obtain ⟨k, hk⟩ := mem_values.mp hx
    exact h k x hk

/-- A search through the values in key order ends at the lowest key that has a result. -/
theorem findSome?_values_of_first {k : κ} {x : ν} {y : β} (hx : m.get? k = some x) (hf : f x = some y)
    (hfirst : ∀ k' < k, ∀ x', m.get? k' = some x' → f x' = none) : m.values.findSome? f = some y := by
  obtain ⟨s, t, hm⟩ := List.append_of_mem (mem_entries.mpr hx)
  have hvalues : m.values = s.map Prod.snd ++ x :: t.map Prod.snd := by simp [values, hm]
  have hsorted := m.sorted
  rw [hm, List.pairwise_append] at hsorted
  rw [hvalues, List.findSome?_append, List.findSome?_cons, hf]
  have hnone : (s.map Prod.snd).findSome? f = none := by
    rw [List.findSome?_eq_none_iff]
    intro x' hx'
    obtain ⟨e, he, rfl⟩ := List.mem_map.mp hx'
    have hmem : e ∈ m.entries := by rw [hm]; exact List.mem_append_left _ he
    exact hfirst e.1 (hsorted.2.2 e he _ List.mem_cons_self) e.2 (mem_entries.mp hmem)
  rw [hnone]
  rfl

/-! ### Values that name their key -/

section KeyedBy

variable {ν : Type u} {μ : Type w} {key : ν → κ} {m m' : OrdMap κ ν}

/-- Every value stands under the key that it names. -/
def KeyedBy (key : ν → κ) (m : OrdMap κ ν) : Prop := ∀ k x, m.get? k = some x → key x = k

theorem keyedBy_empty : KeyedBy key empty := fun k x h => by simp at h

theorem KeyedBy.insert (h : KeyedBy key m) {k : κ} {x : ν} (hx : key x = k) : KeyedBy key (m.insert k x) := by
  intro k' x' hget
  rw [get?_insert] at hget
  split_ifs at hget with heq
  · rw [heq, ← Option.some.inj hget, hx]
  · exact h k' x' hget

theorem KeyedBy.foldl {α : Type w} {f : α → ν} {g : α → κ} (hf : ∀ a, key (f a) = g a) (l : List α) (h : KeyedBy key m) :
    KeyedBy key (l.foldl (fun m a => m.insert (g a) (f a)) m) := by
  induction l generalizing m with
  | nil => exact h
  | cons a l ih => exact ih (h.insert (hf a))

theorem KeyedBy.entries_mapValues (h : KeyedBy key m) {f : ν → μ} {key' : μ → κ} (hf : ∀ x, key' (f x) = key x) :
    (m.mapValues f).entries = (m.values.map f).map fun y => (key' y, y) := by
  rw [mapValues, values, List.map_map, List.map_map]
  refine List.map_congr_left fun e he => ?_
  show (e.1, f e.2) = (key' (f e.2), f e.2)
  rw [hf, h e.1 e.2 (mem_entries.mp he)]

/-- Such a map is determined by the list of its values. -/
theorem KeyedBy.mapValues_eq (h : KeyedBy key m) (h' : KeyedBy key m') {f : ν → μ} {key' : μ → κ}
    (hf : ∀ x, key' (f x) = key x) (hvalues : m.values.map f = m'.values.map f) : m.mapValues f = m'.mapValues f := by
  have hentries := h.entries_mapValues hf
  rw [hvalues, ← h'.entries_mapValues hf] at hentries
  exact congrArg (fun e : { l : List (κ × μ) // l.Pairwise fun a b => a.1 < b.1 } => OrdMap.mk e.1 e.2)
    (Subtype.ext hentries : (⟨_, (m.mapValues f).sorted⟩ : { l : List (κ × μ) // _ }) = ⟨_, (m'.mapValues f).sorted⟩)

theorem KeyedBy.eq (h : KeyedBy key m) (h' : KeyedBy key m') (hvalues : m.values = m'.values) : m = m' := by
  have hmap := h.mapValues_eq h' (f := id) (fun _ => rfl) (by rw [hvalues])
  have hid : ∀ n : OrdMap κ ν, n.mapValues id = n := fun n => ext_get? fun k => by
    rw [get?_mapValues, Option.map_id]
    rfl
  rwa [hid, hid] at hmap

end KeyedBy

end OrdMap
