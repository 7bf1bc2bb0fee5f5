import IrohRooms.Member.Levels

/-!
# What a member map keeps

Every map that the operations can produce has its leaves in strictly ascending order, each with a valid record under
its own key and the hash of that record, an index that finds each key at its position, and the levels of the tree over
the leaves.
-/

namespace IrohRooms.Member

open Governance MerkleTree

namespace Leaf

/-- Whether a leaf is the one of a key. -/
def isOf (id : PrincipalId) (leaf : Leaf) : Bool := decide (leaf.memberId = id)

/-- A leaf with a valid record under its own key. -/
structure Sound (env : Env) (leaf : Leaf) : Prop where
  keyed : validateKeyedRecord leaf.memberId leaf.canonical = .ok ()
  hash : leaf.hash = memberLeafHash env leaf.canonical

end Leaf

namespace SortedMerkleMap

variable {env : Env} {m m' : SortedMerkleMap} {memberId : PrincipalId} {canonical : Bytes}

variable (env) in
structure WellFormed (m : SortedMerkleMap) : Prop where
  sorted : m.leaves.Pairwise fun a b => a.memberId < b.memberId
  leaves : ∀ leaf ∈ m.leaves, Leaf.Sound env leaf
  index : ∀ id, m.index.get? id = m.leaves.findIdx? (Leaf.isOf id)
  levels : m.levels = levelsOf env (m.leaves.map Leaf.hash)

theorem wellFormed_new : WellFormed env new :=
  ⟨.nil, by simp [new], fun _ => rfl, rfl⟩

/-! ### Positions -/

theorem findIdx?_eq_none_of_forall_ne {id : PrincipalId} {l : List Leaf} (h : ∀ leaf ∈ l, leaf.memberId ≠ id) :
    l.findIdx? (Leaf.isOf id) = none := by
  rw [List.findIdx?_eq_none_iff]
  intro leaf hleaf
  exact decide_eq_false (h leaf hleaf)

/-- Leaves of different keys are found in the part that holds the key. -/
theorem findIdx?_split {before after : List Leaf}
    (hne : ∀ a ∈ before, ∀ b ∈ after, a.memberId ≠ b.memberId) (id : PrincipalId) :
    (before ++ after).findIdx? (Leaf.isOf id) =
      if id ∈ after.map Leaf.memberId then (after.findIdx? (Leaf.isOf id)).map (· + before.length)
      else before.findIdx? (Leaf.isOf id) := by
  rw [List.findIdx?_append]
  split_ifs with hmem
  · obtain ⟨leaf, hleaf, rfl⟩ := List.mem_map.mp hmem
    rw [findIdx?_eq_none_of_forall_ne fun a ha => hne a ha leaf hleaf]
    rfl
  · rw [findIdx?_eq_none_of_forall_ne fun leaf hleaf heq => hmem (List.mem_map.mpr ⟨leaf, hleaf, heq⟩)]
    simp

theorem positions_concat (l : List Leaf) (x : Leaf) : positions (l ++ [x]) = (positions l).insert x.memberId l.length := by
  rw [positions, List.zipIdx_append, List.foldl_append]
  simp [positions]

theorem get?_positions {l : List Leaf} (h : l.Pairwise fun a b => a.memberId < b.memberId) (id : PrincipalId) :
    (positions l).get? id = l.findIdx? (Leaf.isOf id) := by
  induction l using List.reverseRecOn with
  | nil => rfl
  | append_singleton l x ih =>
    rw [List.pairwise_append] at h
    have hfresh : ∀ leaf ∈ l, leaf.memberId < x.memberId := fun leaf hleaf =>
      h.2.2 leaf hleaf x (List.mem_singleton.mpr rfl)
    rw [positions_concat, OrdMap.get?_insert, List.findIdx?_append, ih h.1]
    split_ifs with hid
    · subst hid
      rw [findIdx?_eq_none_of_forall_ne fun leaf hleaf => (hfresh leaf hleaf).ne]
      simp [List.findIdx?_cons, Leaf.isOf]
    · have hnot : ([x].findIdx? (Leaf.isOf id)) = none :=
        findIdx?_eq_none_of_forall_ne fun leaf hleaf => by
          rw [List.mem_singleton.mp hleaf]
          exact Ne.symm hid
      rw [hnot]
      simp

theorem get?_shiftIndex {shift : Nat → Nat} {l : List Leaf} (hnodup : (l.map Leaf.memberId).Nodup)
    (index : OrdMap PrincipalId Nat) (id : PrincipalId) :
    (shiftIndex index shift l).get? id = if id ∈ l.map Leaf.memberId then (index.get? id).map shift else index.get? id := by
  induction l generalizing index with
  | nil => simp [shiftIndex]
  | cons x l ih =>
    obtain ⟨hx, hnodup⟩ := List.nodup_cons.mp hnodup
    have hstep : ∀ id', (shiftIndex index shift [x]).get? id' =
        if id' = x.memberId then (index.get? id').map shift else index.get? id' := by
      intro id'
      simp only [shiftIndex, List.foldl_cons, List.foldl_nil]
      cases hget : index.get? x.memberId with
      | none =>
        split_ifs with hid
        · rw [hid, hget]
          rfl
        · rfl
      | some slot =>
        rw [OrdMap.get?_insert]
        split_ifs with hid
        · rw [hid, hget]
          rfl
        · rfl
    have hcons : shiftIndex index shift (x :: l) = shiftIndex (shiftIndex index shift [x]) shift l := rfl
    rw [hcons, ih hnodup, hstep, List.map_cons]
    by_cases hid : id = x.memberId
    · subst hid
      simp [hx]
    · simp [hid]

/-! ### Splitting a map around a key -/

theorem nodup_of_sorted {l : List Leaf} (h : l.Pairwise fun a b => a.memberId < b.memberId) :
    (l.map Leaf.memberId).Nodup :=
  List.pairwise_map.mpr (h.imp fun hlt => hlt.ne)

/-- The leaf at the position that the index gives. -/
theorem WellFormed.split (h : m.WellFormed env) {id : PrincipalId} {pos : Nat} (hpos : m.index.get? id = some pos) :
    ∃ (before : List Leaf) (leaf : Leaf) (after : List Leaf), m.leaves = before ++ leaf :: after ∧
      before.length = pos ∧ leaf.memberId = id := by
  rw [h.index, List.findIdx?_eq_some_iff_getElem] at hpos
  obtain ⟨hlt, hleaf, -⟩ := hpos
  refine ⟨m.leaves.take pos, m.leaves[pos], m.leaves.drop (pos + 1), ?_, ?_, of_decide_eq_true hleaf⟩
  · rw [List.getElem_cons_drop, List.take_append_drop]
  · rw [List.length_take]
    omega

theorem WellFormed.mem_index (h : m.WellFormed env) {id : PrincipalId} :
    (m.index.get? id).isSome ↔ ∃ leaf ∈ m.leaves, leaf.memberId = id := by
  rw [h.index, List.findIdx?_isSome, List.any_eq_true]
  simp [Leaf.isOf]

/-- The leaves before the place of a new key have lower keys, the others higher ones. -/
theorem WellFormed.insertPos_spec (h : m.WellFormed env) (hnew : m.index.get? memberId = none) :
    ∃ before after, m.leaves = before ++ after ∧ before.length = m.insertPos memberId ∧
      (∀ leaf ∈ before, leaf.memberId < memberId) ∧ ∀ leaf ∈ after, memberId < leaf.memberId := by
  have hindex : ∀ leaf ∈ m.leaves, ∃ p, (leaf.memberId, p) ∈ m.index.entries := by
    intro leaf hleaf
    obtain ⟨p, hp⟩ := Option.isSome_iff_exists.mp (h.mem_index.mpr ⟨leaf, hleaf, rfl⟩)
    exact ⟨p, OrdMap.mem_entries.mpr hp⟩
  have hne : ∀ leaf ∈ m.leaves, leaf.memberId ≠ memberId := by
    intro leaf hleaf heq
    have := h.mem_index.mpr ⟨leaf, hleaf, heq⟩
    rw [hnew] at this
    cases this
  unfold insertPos
  cases hlast : (m.index.entries.filter fun e => decide (e.1 < memberId)).getLast? with
  | none =>
    rw [List.getLast?_eq_none_iff] at hlast
    refine ⟨[], m.leaves, rfl, rfl, by simp, fun leaf hleaf => ?_⟩
    obtain ⟨p, hp⟩ := hindex leaf hleaf
    have hnot : ¬ leaf.memberId < memberId := fun hlt => by
      have hmem : (leaf.memberId, p) ∈ m.index.entries.filter fun e => decide (e.1 < memberId) :=
        List.mem_filter.mpr ⟨hp, decide_eq_true hlt⟩
      rw [hlast] at hmem
      cases hmem
    exact lt_of_le_of_ne (not_lt.mp hnot) (Ne.symm (hne leaf hleaf))
  | some e =>
    obtain ⟨k, p⟩ := e
    obtain ⟨front, hfront⟩ := List.getLast?_eq_some_iff.mp hlast
    have hmem : (k, p) ∈ m.index.entries.filter fun e => decide (e.1 < memberId) := by
      rw [hfront]
      simp
    obtain ⟨hentry, hk⟩ := List.mem_filter.mp hmem
    have hk : k < memberId := of_decide_eq_true hk
    obtain ⟨before, leaf, after, hleaves, hlen, hid⟩ := h.split (OrdMap.mem_entries.mp hentry)
    have hsorted := h.sorted
    rw [hleaves, List.pairwise_append, List.pairwise_cons] at hsorted
    obtain ⟨-, ⟨hafter, -⟩, hbefore⟩ := hsorted
    refine ⟨before ++ [leaf], after, by simp [hleaves], by simp [hlen], fun x hx => ?_, fun x hx => ?_⟩
    · rw [List.mem_append, List.mem_singleton] at hx
      rcases hx with hx | rfl
      · exact (hid ▸ hbefore x hx leaf List.mem_cons_self).trans hk
      · rwa [hid]
    · have hmemx : x ∈ m.leaves := by
        rw [hleaves]
        exact List.mem_append_right _ (List.mem_cons_of_mem _ hx)
      -- a lower key would stand after the last of the lower ones
      have hnot : ¬ x.memberId < memberId := fun hlt => by
        obtain ⟨q, hq⟩ := hindex x hmemx
        have hmem : (x.memberId, q) ∈ m.index.entries.filter fun e => decide (e.1 < memberId) :=
          List.mem_filter.mpr ⟨hq, decide_eq_true hlt⟩
        have hsort := m.index.sorted.filter fun e => decide (e.1 < memberId)
        have hkx : k < x.memberId := hid ▸ hafter x hx
        rw [hfront, List.pairwise_append] at hsort
        rw [hfront, List.mem_append, List.mem_singleton] at hmem
        rcases hmem with hmem | hmem
        · exact absurd (hsort.2.2 _ hmem _ (List.mem_singleton.mpr rfl)) (not_lt.mpr hkx.le)
        · exact absurd (Prod.mk.inj hmem).1 hkx.ne'
      exact lt_of_le_of_ne (not_lt.mp hnot) (Ne.symm (hne x hmemx))

/-! ### Operations keep the invariant -/

@[simp] theorem recomputeSuffix_leaves (pos : Nat) : (recomputeSuffix env m pos).leaves = m.leaves := by
  unfold recomputeSuffix
  split_ifs
  · rfl
  · split <;> rfl

@[simp] theorem recomputeSuffix_index (pos : Nat) : (recomputeSuffix env m pos).index = m.index := by
  unfold recomputeSuffix
  split_ifs
  · rfl
  · split <;> rfl

@[simp] theorem recomputePath_leaves (pos : Nat) : (recomputePath env m pos).leaves = m.leaves := by
  unfold recomputePath
  split_ifs
  · rfl
  · split <;> rfl

@[simp] theorem recomputePath_index (pos : Nat) : (recomputePath env m pos).index = m.index := by
  unfold recomputePath
  split_ifs
  · rfl
  · split <;> rfl

theorem insertIdx_between {α : Type} (x : α) (after : List α) :
    ∀ before : List α, (before ++ after).insertIdx before.length x = before ++ x :: after
  | [] => rfl
  | a :: before => congrArg (a :: ·) (insertIdx_between x after before)

theorem insertNew_eq_ok (h : m.insertNew env memberId canonical = .ok m') :
    validateKeyedRecord memberId canonical = .ok () ∧ m.index.get? memberId = none ∧
      m' = recomputeSuffix env
        ⟨m.leaves.insertIdx (m.insertPos memberId) ⟨memberId, canonical, memberLeafHash env canonical⟩, m.levels,
          (shiftIndex m.index (· + 1) ((m.leaves.insertIdx (m.insertPos memberId)
            ⟨memberId, canonical, memberLeafHash env canonical⟩).drop (m.insertPos memberId + 1))).insert memberId
            (m.insertPos memberId)⟩ (m.insertPos memberId) := by
  obtain ⟨_, hkeyed, h⟩ := bind_eq_ok_iff.mp h
  split_ifs at h with hcontains
  exact ⟨hkeyed, by simpa [OrdMap.contains] using hcontains, (Except.ok.inj h).symm⟩

theorem WellFormed.insertNew (h : m.WellFormed env) (hins : m.insertNew env memberId canonical = .ok m') :
    m'.WellFormed env := by
  obtain ⟨hkeyed, hnew, rfl⟩ := insertNew_eq_ok hins
  obtain ⟨before, after, hleaves, hlen, hlow, hhigh⟩ := h.insertPos_spec hnew
  clear hins
  generalize m.insertPos memberId = pos at hlen ⊢
  subst hlen
  generalize hx : (⟨memberId, canonical, memberLeafHash env canonical⟩ : Leaf) = x
  have hxid : x.memberId = memberId := by rw [← hx]
  have hsound : x.Sound env := by
    rw [← hx]
    exact ⟨hkeyed, rfl⟩
  have hsorted := h.sorted
  rw [hleaves, List.pairwise_append] at hsorted
  obtain ⟨hbefore, hafter, hacross⟩ := hsorted
  have hsorted' : (before ++ x :: after).Pairwise fun a b => a.memberId < b.memberId := by
    rw [List.pairwise_append, List.pairwise_cons]
    refine ⟨hbefore, ⟨fun b hb => hxid ▸ hhigh b hb, hafter⟩, fun a ha b hb => ?_⟩
    rcases List.mem_cons.mp hb with rfl | hb
    · exact hxid ▸ hlow a ha
    · exact hacross a ha b hb
  have hinsert : m.leaves.insertIdx before.length x = before ++ x :: after := by
    rw [hleaves, insertIdx_between]
  have hdrop : (before ++ x :: after).drop (before.length + 1) = after := by
    rw [List.drop_length_add_append]
    rfl
  rw [hinsert, hdrop]
  refine ⟨by simpa using hsorted', ?_, fun id => ?_, ?_⟩
  · intro leaf hleaf
    rw [recomputeSuffix_leaves, List.mem_append, List.mem_cons] at hleaf
    rcases hleaf with hleaf | rfl | hleaf
    · exact h.leaves leaf (by simp [hleaves, hleaf])
    · exact hsound
    · exact h.leaves leaf (by simp [hleaves, hleaf])
  · have hold := findIdx?_split (fun a ha b hb => (hacross a ha b hb).ne) id
    rw [← hleaves] at hold
    rw [recomputeSuffix_index, recomputeSuffix_leaves,
      findIdx?_split (fun a ha b hb => ((List.pairwise_append.mp hsorted').2.2 a ha b hb).ne) id,
      OrdMap.get?_insert, get?_shiftIndex (nodup_of_sorted hafter), h.index, hold]
    simp only [List.map_cons, List.mem_cons, hxid, List.findIdx?_cons]
    by_cases hid : id = memberId
    · simp [hid, Leaf.isOf, hxid]
    · have hnot : Leaf.isOf id x = false := decide_eq_false (by rw [hxid]; exact Ne.symm hid)
      by_cases hmem : id ∈ after.map Leaf.memberId
      · simp only [hid, hnot, hmem, or_true, if_true, if_false, Option.map_map, Function.comp_def,
          Nat.add_right_comm, Bool.false_eq_true]
      · simp only [hid, hmem, or_self, if_false]
  · rw [recomputeSuffix_leaves]
    refine recomputeSuffix_levels h.levels ?_ ?_ ?_
    · rw [List.length_map, hleaves, List.length_append]
      omega
    · dsimp only
      rw [List.length_append]
      omega
    · dsimp only
      rw [hleaves, ← List.map_take, ← List.map_take, List.take_left, List.take_left]

theorem replaceExisting_eq_ok {prev : Bytes} (h : m.replaceExisting env memberId canonical = .ok (m', prev)) :
    validateKeyedRecord memberId canonical = .ok () ∧ ∃ pos leaf, m.index.get? memberId = some pos ∧
      m.leaves[pos]? = some leaf ∧ m' = recomputePath env
        { m with leaves := m.leaves.set pos ⟨leaf.memberId, canonical, memberLeafHash env canonical⟩ } pos := by
  obtain ⟨_, hkeyed, h⟩ := bind_eq_ok_iff.mp h
  obtain ⟨pos, hpos, h⟩ := bind_eq_ok_iff.mp h
  obtain ⟨leaf, hleaf, h⟩ := bind_eq_ok_iff.mp h
  rw [orReject_eq_ok] at hpos hleaf
  exact ⟨hkeyed, pos, leaf, hpos, hleaf, (Prod.mk.inj (Except.ok.inj h)).1.symm⟩

theorem WellFormed.replaceExisting {prev : Bytes} (h : m.WellFormed env)
    (hrep : m.replaceExisting env memberId canonical = .ok (m', prev)) : m'.WellFormed env := by
  obtain ⟨hkeyed, pos, old, hpos, hold, rfl⟩ := replaceExisting_eq_ok hrep
  obtain ⟨before, leaf, after, hleaves, hlen, hid⟩ := h.split hpos
  obtain rfl : leaf = old := by
    rw [hleaves, ← hlen] at hold
    simpa using hold
  generalize hx : (⟨leaf.memberId, canonical, memberLeafHash env canonical⟩ : Leaf) = x
  have hxid : x.memberId = memberId := by
    rw [← hx]
    exact hid
  have hset : m.leaves.set pos x = before ++ x :: after := by
    rw [hleaves, ← hlen, List.set_append_right _ _ le_rfl]
    simp
  have hisOf : ∀ id, Leaf.isOf id x = Leaf.isOf id leaf := fun id => by rw [Leaf.isOf, Leaf.isOf, hxid, hid]
  have hlt : pos < m.leaves.length := by
    rw [hleaves, List.length_append, List.length_cons]
    omega
  refine ⟨?_, fun y hy => ?_, fun id => ?_, ?_⟩
  · have hsorted := h.sorted
    rw [recomputePath_leaves, hset]
    rw [hleaves] at hsorted
    simp only [List.pairwise_append, List.pairwise_cons, List.mem_cons, hxid] at hsorted ⊢
    rw [hid] at hsorted
    refine ⟨hsorted.1, hsorted.2.1, fun a ha b hb => ?_⟩
    rcases hb with rfl | hb
    · exact hxid ▸ hid ▸ hsorted.2.2 a ha leaf (.inl rfl)
    · exact hsorted.2.2 a ha b (.inr hb)
  · rw [recomputePath_leaves, hset, List.mem_append, List.mem_cons] at hy
    rcases hy with hy | rfl | hy
    · exact h.leaves y (by simp [hleaves, hy])
    · rw [← hx]
      exact ⟨hid ▸ hkeyed, rfl⟩
    · exact h.leaves y (by simp [hleaves, hy])
  · rw [recomputePath_index, recomputePath_leaves, hset, h.index, hleaves, List.findIdx?_append, List.findIdx?_append,
      List.findIdx?_cons, List.findIdx?_cons, hisOf]
  · rw [recomputePath_leaves]
    refine recomputePath_levels (x := x.hash) h.levels (by simpa using hlt) ?_
    dsimp only
    rw [List.map_set]

theorem removeExisting_eq_ok {prev : Bytes} (h : m.removeExisting env memberId = .ok (m', prev)) :
    ∃ pos, m.index.get? memberId = some pos ∧
      m'.leaves = m.leaves.eraseIdx pos ∧
      m'.index = shiftIndex (m.index.erase memberId) (· - 1) ((m.leaves.eraseIdx pos).drop pos) ∧
      (m.leaves.eraseIdx pos = [] ∧ m'.levels = [] ∨
        m'.levels = (recomputeSuffix env ⟨m.leaves.eraseIdx pos, m.levels,
          shiftIndex (m.index.erase memberId) (· - 1) ((m.leaves.eraseIdx pos).drop pos)⟩
          (min pos (m.leaves.eraseIdx pos).length)).levels) := by
  obtain ⟨pos, hpos, h⟩ := bind_eq_ok_iff.mp h
  obtain ⟨leaf, hleaf, h⟩ := bind_eq_ok_iff.mp h
  rw [orReject_eq_ok] at hpos
  refine ⟨pos, hpos, ?_⟩
  dsimp only at h
  split_ifs at h with hnil
  · obtain rfl := (Prod.mk.inj (Except.ok.inj h)).1
    exact ⟨rfl, rfl, .inl ⟨hnil, rfl⟩⟩
  · obtain rfl := (Prod.mk.inj (Except.ok.inj h)).1
    exact ⟨by simp, by simp, .inr rfl⟩

theorem WellFormed.removeExisting {prev : Bytes} (h : m.WellFormed env)
    (hrem : m.removeExisting env memberId = .ok (m', prev)) : m'.WellFormed env := by
  obtain ⟨pos, hpos, hm', hindex, hlevels⟩ := removeExisting_eq_ok hrem
  obtain ⟨before, leaf, after, hleaves, hlen, hid⟩ := h.split hpos
  have herase : m.leaves.eraseIdx pos = before ++ after := by
    rw [hleaves, ← hlen, List.eraseIdx_append_of_length_le le_rfl]
    simp
  have hsorted := h.sorted
  rw [hleaves, List.pairwise_append, List.pairwise_cons] at hsorted
  obtain ⟨hbefore, ⟨hleaf, hafter⟩, hacross⟩ := hsorted
  have hdrop : (before ++ after).drop pos = after := by
    rw [← hlen]
    exact List.drop_left
  rw [herase] at hm' hindex hlevels
  rw [hdrop] at hindex hlevels
  refine ⟨?_, fun y hy => ?_, fun id => ?_, ?_⟩
  · rw [hm', List.pairwise_append]
    exact ⟨hbefore, hafter, fun a ha b hb => hacross a ha b (List.mem_cons_of_mem _ hb)⟩
  · rw [hm', List.mem_append] at hy
    rcases hy with hy | hy
    · exact h.leaves y (by simp [hleaves, hy])
    · exact h.leaves y (by simp [hleaves, hy])
  · have hold := findIdx?_split (fun a ha b hb => (hacross a ha b hb).ne) id
    rw [← hleaves, hlen] at hold
    rw [hindex, hm', get?_shiftIndex (nodup_of_sorted hafter), OrdMap.get?_erase, h.index, hold,
      findIdx?_split (fun a ha b hb => (hacross a ha b (List.mem_cons_of_mem _ hb)).ne) id, hlen]
    simp only [List.map_cons, List.mem_cons, hid, List.findIdx?_cons]
    by_cases hmem : id ∈ after.map Leaf.memberId
    · have hne : id ≠ memberId := by
        rintro rfl
        obtain ⟨b, hb, hbid⟩ := List.mem_map.mp hmem
        exact absurd (hleaf b hb) (by rw [hbid, hid]; exact lt_irrefl _)
      have hnot : Leaf.isOf id leaf = false := decide_eq_false (by rw [hid]; exact Ne.symm hne)
      simp only [hmem, hne, hnot, or_true, if_true, if_false, Option.map_map, Function.comp_def, Nat.add_right_comm,
        Bool.false_eq_true, Nat.add_sub_cancel]
    · by_cases hne : id = memberId
      · subst hne
        have hgone : before.findIdx? (Leaf.isOf id) = none :=
          findIdx?_eq_none_of_forall_ne fun a ha => hid ▸ (hacross a ha leaf List.mem_cons_self).ne
        simp only [hmem, hgone, if_true, if_false]
      · simp only [hmem, hne, or_self, if_false]
  · rw [hm']
    rcases hlevels with ⟨hnil, hlevels⟩ | hlevels
    · rw [hlevels, hnil]
      rfl
    · rw [hlevels]
      have hpos' : min pos (before ++ after).length = pos := by
        rw [List.length_append]
        omega
      rw [hpos']
      refine recomputeSuffix_levels h.levels ?_ ?_ ?_
      · rw [List.length_map, hleaves, List.length_append]
        omega
      · dsimp only
        rw [List.length_append]
        omega
      · dsimp only
        rw [hleaves, ← List.map_take, ← List.map_take, ← hlen, List.take_left, List.take_left]

/-- Sorted neighbours that differ make a strictly ascending list. -/
theorem pairwise_lt_of_windows {l : List Leaf} (hle : l.Pairwise fun a b => a.memberId ≤ b.memberId)
    (hwindows : windowsAny (fun a b => decide (a.memberId = b.memberId)) l = false) :
    l.Pairwise fun a b => a.memberId < b.memberId := by
  induction l with
  | nil => exact .nil
  | cons a l ih =>
    obtain ⟨ha, hle⟩ := List.pairwise_cons.mp hle
    rcases l with _ | ⟨b, l⟩
    · exact List.pairwise_singleton _ _
    · rw [windowsAny, Bool.or_eq_false_iff] at hwindows
      have hrest := ih hle hwindows.2
      have hab : a.memberId < b.memberId := lt_of_le_of_ne (ha b List.mem_cons_self) (of_decide_eq_false hwindows.1)
      refine List.pairwise_cons.mpr ⟨fun x hx => ?_, hrest⟩
      rcases List.mem_cons.mp hx with rfl | hx
      · exact hab
      · exact hab.trans ((List.pairwise_cons.mp hrest).1 x hx)

theorem pairwise_insertionSort_leaves (l : List Leaf) :
    (l.insertionSort fun a b => a.memberId ≤ b.memberId).Pairwise fun a b => a.memberId ≤ b.memberId := by
  have htotal : Std.Total fun a b : Leaf => a.memberId ≤ b.memberId := ⟨fun a b => le_total a.memberId b.memberId⟩
  have htrans : IsTrans Leaf fun a b => a.memberId ≤ b.memberId := ⟨fun _ _ _ => le_trans⟩
  exact List.pairwise_insertionSort _ l

theorem wellFormed_fromRecords {records : List (PrincipalId × Bytes)} (h : fromRecords env records = .ok m) :
    m.WellFormed env := by
  obtain ⟨checks, hchecks, h⟩ := bind_eq_ok_iff.mp h
  unfold fromValidatedRecords at h
  dsimp only at h
  split_ifs at h with hwindows
  obtain rfl := Except.ok.inj h
  have hsorted := pairwise_lt_of_windows (pairwise_insertionSort_leaves _) (Bool.eq_false_iff.mpr hwindows)
  have hmem : ∀ leaf ∈ (records.map fun r => Leaf.mk r.1 r.2 (memberLeafHash env r.2)).insertionSort
      (fun a b => a.memberId ≤ b.memberId), leaf.Sound env := by
    intro leaf hleaf
    obtain ⟨r, hr, rfl⟩ := List.mem_map.mp ((List.mem_insertionSort _).mp hleaf)
    obtain ⟨_, -, hkeyed⟩ := exists_of_forall₂ (mapM_eq_ok_iff.mp hchecks) hr
    exact ⟨hkeyed, rfl⟩
  generalize (records.map fun r => Leaf.mk r.1 r.2 (memberLeafHash env r.2)).insertionSort
    (fun a b => a.memberId ≤ b.memberId) = leaves at hsorted hmem ⊢
  unfold rebuildLevels
  split_ifs with hnil
  · exact ⟨hsorted, hmem, fun id => get?_positions hsorted id, by simp [levelsOf, show leaves = [] from hnil]⟩
  · refine ⟨hsorted, hmem, fun id => get?_positions hsorted id, ?_⟩
    have hne : leaves.map Leaf.hash ≠ [] := by simpa using hnil
    rw [levelsOf, if_neg hne, buildLevels_eq, List.length_map]

/-! ### Every map -/

variable (env) in
/-- The maps that the operations produce; a vector's length is a `usize`. -/
inductive Reachable : SortedMerkleMap → Prop
  | new : Reachable new
  | fromRecords {m : SortedMerkleMap} {records : List (PrincipalId × Bytes)} (h : fromRecords env records = .ok m)
      (hfits : m.leaves.length < 2 ^ 64) : Reachable m
  | insertNew {m m' : SortedMerkleMap} {memberId : PrincipalId} {canonical : Bytes} (hm : Reachable m)
      (h : m.insertNew env memberId canonical = .ok m') (hfits : m'.leaves.length < 2 ^ 64) : Reachable m'
  | replaceExisting {m m' : SortedMerkleMap} {memberId : PrincipalId} {canonical prev : Bytes} (hm : Reachable m)
      (h : m.replaceExisting env memberId canonical = .ok (m', prev)) : Reachable m'
  | removeExisting {m m' : SortedMerkleMap} {memberId : PrincipalId} {prev : Bytes} (hm : Reachable m)
      (h : m.removeExisting env memberId = .ok (m', prev)) : Reachable m'

theorem Reachable.wellFormed (h : Reachable env m) : m.WellFormed env := by
  induction h with
  | new => exact wellFormed_new
  | fromRecords h _ => exact wellFormed_fromRecords h
  | insertNew _ h _ ih => exact ih.insertNew h
  | replaceExisting _ h ih => exact ih.replaceExisting h
  | removeExisting _ h ih => exact ih.removeExisting h

theorem Reachable.fits (h : Reachable env m) : m.leaves.length < 2 ^ 64 := by
  induction h with
  | new => decide
  | fromRecords _ hfits => exact hfits
  | insertNew _ _ hfits _ => exact hfits
  | replaceExisting _ h ih =>
    obtain ⟨-, pos, leaf, -, -, rfl⟩ := replaceExisting_eq_ok h
    rw [recomputePath_leaves, List.length_set]
    exact ih
  | removeExisting _ h ih =>
    obtain ⟨pos, -, hleaves, -⟩ := removeExisting_eq_ok h
    rw [hleaves]
    exact lt_of_le_of_lt (List.length_eraseIdx_le _ _) ih

end SortedMerkleMap

end IrohRooms.Member
