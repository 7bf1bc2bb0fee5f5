import Mathlib.Data.List.Basic
import Mathlib.Tactic.Common

/-!
# Length-prefixed frames

A stream of items over an alphabet, each written as its length in a fixed number of symbols and then itself. Reading
finds the items of any stream: what is left over after them is nothing, a frame that is cut short, or a head that
declares more than the cap (`readAll_spec`). The frames of a sequence of items, cut anywhere, read back as the items
that were written in full before the cut (`readAll_take`).
-/

namespace IrohRooms

/-- A way to write the lengths up to `cap` in `width` symbols. -/
structure LengthFraming (α : Type*) where
  width : Nat
  cap : Nat
  head : Nat → List α
  value : List α → Nat
  width_pos : 0 < width
  length_head : ∀ n, (head n).length = width
  value_head : ∀ n ≤ cap, value (head n) = n
  head_value : ∀ h : List α, h.length = width → value h ≤ cap → head (value h) = h

namespace LengthFraming

variable {α : Type*} (F : LengthFraming α)

/-- An item as it is written. -/
def frame (item : List α) : List α := F.head item.length ++ item

/-- The items one after the other. -/
def write (items : List (List α)) : List α := items.flatMap F.frame

/-- What a reader finds at the start of a stream. -/
inductive Turn (α : Type*)
  | finished
  | item (item rest : List α)
  | truncated
  | oversized (declared : Nat)
  deriving DecidableEq

/-- How the reading of a stream ends. -/
inductive Ending
  | finished
  | truncated
  | oversized (declared : Nat)
  deriving DecidableEq, Repr

/-- The turn in which a stream ends. -/
def Ending.turn : Ending → Turn α
  | .finished => .finished
  | .truncated => .truncated
  | .oversized n => .oversized n

def next (s : List α) : Turn α :=
  if s = [] then .finished
  else if s.length < F.width then .truncated
  else
    let n := F.value (s.take F.width)
    if n > F.cap then .oversized n
    else if (s.drop F.width).length < n then .truncated
    else .item ((s.drop F.width).take n) ((s.drop F.width).drop n)

@[simp] theorem write_nil : F.write [] = [] := rfl

@[simp] theorem write_cons (item : List α) (items : List (List α)) :
    F.write (item :: items) = F.frame item ++ F.write items := List.flatMap_cons

theorem length_frame (item : List α) : (F.frame item).length = F.width + item.length := by
  rw [frame, List.length_append, F.length_head]

/-- A whole frame at the start is read as its item. -/
theorem next_frame {item : List α} (h : item.length ≤ F.cap) (rest : List α) :
    F.next (F.frame item ++ rest) = .item item rest := by
  have hhead := F.length_head item.length
  have hlen : (F.frame item ++ rest).length = F.width + item.length + rest.length := by
    rw [List.length_append, length_frame]
  have htake : (F.frame item ++ rest).take F.width = F.head item.length := by
    rw [frame, List.append_assoc, ← hhead, List.take_left]
  have hdrop : (F.frame item ++ rest).drop F.width = item ++ rest := by
    rw [frame, List.append_assoc, ← hhead, List.drop_left]
  have hpos := F.width_pos
  have hne : F.frame item ++ rest ≠ [] := by
    intro hnil
    rw [hnil, List.length_nil] at hlen
    omega
  unfold next
  dsimp only
  rw [if_neg hne, if_neg (by omega), htake, hdrop, F.value_head _ h, if_neg (by omega), if_neg (by simp),
    List.take_left, List.drop_left]

/-- What is read as an item was written as one. -/
theorem frame_of_next {s item rest : List α} (h : F.next s = .item item rest) :
    s = F.frame item ++ rest ∧ item.length ≤ F.cap := by
  unfold next at h
  dsimp only at h
  split_ifs at h with hnil hshort hover hcut
  injection h with hitem hrest
  have hlen : item.length = F.value (s.take F.width) := by
    rw [← hitem, List.length_take]
    omega
  have hhead : F.head item.length = s.take F.width := by
    rw [hlen]
    exact F.head_value _ (by rw [List.length_take]; omega) (by omega)
  refine ⟨?_, by omega⟩
  rw [frame, hhead, ← hitem, ← hrest, List.append_assoc, List.take_append_drop, List.take_append_drop]

theorem length_of_next {s item rest : List α} (h : F.next s = .item item rest) : rest.length < s.length := by
  have hlen := congrArg List.length (F.frame_of_next h).1
  rw [List.length_append, length_frame] at hlen
  have hpos := F.width_pos
  omega

/-- The items of a stream and how it ends. -/
def readAll (s : List α) : List (List α) × Ending :=
  match _h : F.next s with
  | .finished => ([], .finished)
  | .truncated => ([], .truncated)
  | .oversized n => ([], .oversized n)
  | .item item rest => (item :: (readAll rest).1, (readAll rest).2)
termination_by s.length
decreasing_by all_goals exact F.length_of_next _h

/-- What is left of a stream after its items: nothing, a frame cut short in its head or its body, or a head that
declares too much. -/
def Leaves (rest : List α) : Ending → Prop
  | .finished => rest = []
  | .truncated => rest ≠ [] ∧ (rest.length < F.width ∨ F.value (rest.take F.width) ≤ F.cap ∧
      rest.length < F.width + F.value (rest.take F.width))
  | .oversized n => F.width ≤ rest.length ∧ F.value (rest.take F.width) = n ∧ F.cap < n

/-- A reader that finds no item ends as what is left says. -/
theorem next_of_leaves {rest : List α} {ending : Ending} (h : F.Leaves rest ending) :
    F.next rest = ending.turn := by
  unfold next
  dsimp only
  cases ending with
  | finished =>
    have hnil : rest = [] := h
    rw [if_pos hnil]
    rfl
  | truncated =>
    obtain ⟨hne, hcut⟩ := h
    rw [if_neg hne]
    by_cases hshort : rest.length < F.width
    · rw [if_pos hshort]
      rfl
    · obtain ⟨hcap, hbody⟩ := hcut.resolve_left hshort
      rw [if_neg hshort, if_neg (by omega), if_pos (by rw [List.length_drop]; omega)]
      rfl
  | oversized n =>
    obtain ⟨hlong, rfl, hover⟩ := h
    have hne : rest ≠ [] := by
      intro hnil
      rw [hnil, List.length_nil] at hlong
      have hpos := F.width_pos
      omega
    rw [if_neg hne, if_neg (by omega), if_pos hover]
    rfl

theorem readAll_of_leaves {rest : List α} {ending : Ending} (h : F.Leaves rest ending) :
    F.readAll rest = ([], ending) := by
  have hnext := F.next_of_leaves h
  rw [readAll]
  split
  all_goals
    rename_i hturn
    rw [hnext] at hturn
    cases ending with
    | finished => first | rfl | cases hturn
    | truncated => first | rfl | cases hturn
    | oversized n =>
      first
      | injection hturn with hn
        rw [hn]
      | cases hturn

theorem readAll_of_item {s item rest : List α} (h : F.next s = .item item rest) :
    F.readAll s = (item :: (F.readAll rest).1, (F.readAll rest).2) := by
  rw [readAll]
  split
  all_goals
    rename_i hturn
    rw [h] at hturn
  · cases hturn
  · cases hturn
  · cases hturn
  · injection hturn with hitem hrest
    rw [hitem, hrest]

/-- Where no item is found, something is left that explains it. -/
theorem leaves_of_next {s : List α} (h : ∀ item rest, F.next s ≠ .item item rest) : ∃ ending, F.Leaves s ending := by
  unfold next at h
  dsimp only at h
  by_cases hnil : s = []
  · exact ⟨.finished, hnil⟩
  by_cases hshort : s.length < F.width
  · exact ⟨.truncated, hnil, Or.inl hshort⟩
  by_cases hover : F.value (s.take F.width) > F.cap
  · exact ⟨.oversized _, by omega, rfl, hover⟩
  by_cases hcut : (s.drop F.width).length < F.value (s.take F.width)
  · rw [List.length_drop] at hcut
    exact ⟨.truncated, hnil, Or.inr ⟨by omega, by omega⟩⟩
  · rw [if_neg hnil, if_neg hshort, if_neg hover, if_neg hcut] at h
    exact absurd rfl (h _ _)

/-- Reading finds the items that were written, and what is left over says how it ends. -/
theorem readAll_iff {s : List α} {items : List (List α)} {ending : Ending} : F.readAll s = (items, ending) ↔
    (∀ item ∈ items, item.length ≤ F.cap) ∧ ∃ rest, s = F.write items ++ rest ∧ F.Leaves rest ending := by
  constructor
  · intro h
    -- the rest of the stream after an item is shorter
    induction hn : s.length using Nat.strongRecOn generalizing s items with
    | ind n ih =>
      by_cases hitem : ∃ item rest, F.next s = .item item rest
      · obtain ⟨item, rest, hnext⟩ := hitem
        obtain ⟨hs, hcap⟩ := F.frame_of_next hnext
        rw [F.readAll_of_item hnext] at h
        obtain ⟨rfl, rfl⟩ := Prod.mk.inj h
        obtain ⟨hall, left, hrest, hleaves⟩ := ih rest.length (hn ▸ F.length_of_next hnext) rfl rfl
        refine ⟨List.forall_mem_cons.mpr ⟨hcap, hall⟩, left, ?_, hleaves⟩
        rw [hs, write_cons, List.append_assoc, ← hrest]
      · obtain ⟨ending', hleaves⟩ := F.leaves_of_next fun item rest hnext => hitem ⟨item, rest, hnext⟩
        rw [F.readAll_of_leaves hleaves] at h
        obtain ⟨rfl, rfl⟩ := Prod.mk.inj h
        exact ⟨by simp, s, rfl, hleaves⟩
  · rintro ⟨hcap, rest, rfl, hleaves⟩
    induction items with
    | nil => exact F.readAll_of_leaves hleaves
    | cons item items ih =>
      have hnext : F.next (F.write (item :: items) ++ rest) = .item item (F.write items ++ rest) := by
        rw [write_cons, List.append_assoc]
        exact F.next_frame (hcap item List.mem_cons_self) _
      rw [F.readAll_of_item hnext, ih fun i hi => hcap i (List.mem_cons_of_mem _ hi)]

/-- The items that are written in full within the first `k` symbols. -/
def whole : Nat → List (List α) → List (List α)
  | _, [] => []
  | k, item :: items => if (F.frame item).length ≤ k then item :: whole (k - (F.frame item).length) items else []

theorem whole_prefix (k : Nat) (items : List (List α)) : F.whole k items <+: items := by
  induction items generalizing k with
  | nil => exact List.prefix_refl _
  | cons item items ih =>
    unfold whole
    split_ifs
    · exact (List.prefix_cons_inj item).mpr (ih _)
    · exact List.nil_prefix

/-- A frame that is cut leaves a cut frame, or nothing of it. -/
theorem leaves_take_frame {item : List α} (hcap : item.length ≤ F.cap) {k : Nat} (hk : k < (F.frame item).length)
    (rest : List α) :
    F.Leaves ((F.frame item ++ rest).take k) (if k = 0 then .finished else .truncated) := by
  rw [List.take_append_of_le_length (by omega)]
  have hlen : ((F.frame item).take k).length = k := by
    rw [List.length_take]
    omega
  split_ifs with hzero
  · rw [hzero]
    rfl
  · refine ⟨fun hnil => hzero ?_, ?_⟩
    · rw [← hlen, hnil, List.length_nil]
    · by_cases hshort : k < F.width
      · left
        rw [hlen]
        exact hshort
      · right
        have hhead : ((F.frame item).take k).take F.width = F.head item.length := by
          have hw := F.length_head item.length
          rw [List.take_take, Nat.min_eq_left (by omega), frame, ← hw, List.take_left]
        rw [hhead, F.value_head _ hcap, hlen]
        rw [length_frame] at hk
        exact ⟨hcap, hk⟩

/-- Frames that are cut anywhere read back as those written in full; the reading ends in order exactly at the end of a
frame. -/
theorem readAll_take {items : List (List α)} (hcap : ∀ item ∈ items, item.length ≤ F.cap) (k : Nat) :
    F.readAll ((F.write items).take k) = (F.whole k items,
      if (F.write (F.whole k items)).length = min k (F.write items).length then .finished else .truncated) := by
  rw [readAll_iff]
  refine ⟨fun item hitem => hcap item ((F.whole_prefix k items).subset hitem), ?_⟩
  induction items generalizing k with
  | nil => exact ⟨[], by simp [write, whole], by simp [write, whole, Leaves]⟩
  | cons item items ih =>
    have hrest : ∀ i ∈ items, i.length ≤ F.cap := fun i hi => hcap i (List.mem_cons_of_mem _ hi)
    rw [write_cons]
    by_cases hk : (F.frame item).length ≤ k
    · obtain ⟨rest, htake, hleaves⟩ := ih hrest (k - (F.frame item).length)
      refine ⟨rest, ?_, ?_⟩
      · rw [whole, if_pos hk, write_cons, List.append_assoc, ← htake, List.take_append, List.take_of_length_le hk]
      · rw [whole, if_pos hk, write_cons, List.length_append, List.length_append]
        have hsame : ((F.frame item).length + (F.write (F.whole (k - (F.frame item).length) items)).length =
            min k ((F.frame item).length + (F.write items).length)) ↔
            (F.write (F.whole (k - (F.frame item).length) items)).length =
              min (k - (F.frame item).length) (F.write items).length := by omega
        rw [if_congr hsame rfl rfl]
        exact hleaves
    · refine ⟨(F.frame item ++ F.write items).take k, ?_, ?_⟩
      · rw [whole, if_neg hk]
        rfl
      · have hleaves := F.leaves_take_frame (hcap item List.mem_cons_self) (by omega : k < _) (F.write items)
        rw [whole, if_neg hk, List.length_append]
        have hzero : ((F.write []).length = min k ((F.frame item).length + (F.write items).length)) ↔ k = 0 := by
          show 0 = _ ↔ _
          omega
        rw [if_congr hzero rfl rfl]
        exact hleaves

end LengthFraming

end IrohRooms
