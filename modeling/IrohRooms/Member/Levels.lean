import IrohRooms.Member.Sorted

/-!
# The levels of a member map

The levels kept by a map are those of the tree over its leaves, however they were computed: built afresh, from a changed
position on, or along one path. For the partial computations the levels before the change and the levels after it agree
up to the half of the position at each step (`Agree`).
-/

namespace IrohRooms.Member

open Governance MerkleTree

variable {env : Env}

theorem pairLevel_eq : ∀ l : List Digest, pairLevel env l = pairUp (merkleNodeHash env) l
  | [] => rfl
  | [_] => by simp [pairLevel, pairUp]
  | _ :: _ :: l => by
    have ih := pairLevel_eq l
    simp [pairLevel, pairUp, ih]

theorem reduceLevels_eq (n : Nat) (l : List Digest) :
    reduceLevels env n l = (top (merkleNodeHash env) n l).getD (emptyMemberRoot env) := by
  induction n generalizing l with
  | zero => rcases l with _ | ⟨a, _ | ⟨b, l⟩⟩ <;> rfl
  | succ n ih =>
    rcases l with _ | ⟨a, _ | ⟨b, l⟩⟩
    · rfl
    · rfl
    · rw [top_succ (by simp), ← ih, ← pairLevel_eq]
      rfl

namespace SortedMerkleMap

theorem buildLevels_eq (n : Nat) (l : List Digest) : buildLevels env n l = allLevels (merkleNodeHash env) n l := by
  induction n generalizing l with
  | zero => rfl
  | succ n ih => rw [buildLevels, allLevels, ih, pairLevel_eq]

variable (env) in
/-- The levels of the tree over the given leaves. -/
def levelsOf (l : List Digest) : List (List Digest) := if l = [] then [] else allLevels (merkleNodeHash env) l.length l

/-! ### Overwriting -/

theorem getElem?_foldl_set {α : Type} (value : Nat → α) (start n : Nat) (l : List α) (j : Nat) :
    ((List.range' start n).foldl (fun l i => l.set i (value i)) l)[j]? =
      if start ≤ j ∧ j < start + n ∧ j < l.length then some (value j) else l[j]? := by
  induction n generalizing start l with
  | zero => simp; omega
  | succ n ih =>
    rw [List.range'_succ, List.foldl_cons, ih, List.length_set]
    by_cases hj : j = start
    · subst hj
      by_cases hlt : j < l.length
      · simp [hlt]
      · simp [hlt]
    · rw [List.getElem?_set_ne (Ne.symm hj)]
      have hiff : (start + 1 ≤ j ∧ j < start + 1 + n ∧ j < l.length) ↔ (start ≤ j ∧ j < start + (n + 1) ∧ j < l.length) := by
        omega
      simp only [hiff]

/-- A level whose first part is right becomes right when the rest is written again. -/
theorem overwriteFrom_eq {level correct : List Digest} {start : Nat} {value : Nat → Digest}
    (hlen : level.length = correct.length) (htake : level.take start = correct.take start)
    (hvalue : ∀ j < correct.length, start ≤ j → correct[j]? = some (value j)) :
    overwriteFrom level start value = correct := by
  refine List.ext_getElem? fun j => ?_
  rw [overwriteFrom, getElem?_foldl_set]
  by_cases hj : j < correct.length
  · by_cases hstart : start ≤ j
    · rw [if_pos ⟨hstart, by omega, by omega⟩, hvalue j hj hstart]
    · rw [if_neg (by omega)]
      have := congrArg (fun l => l[j]?) htake
      simpa [List.getElem?_take, not_le.mp hstart] using this
  · rw [if_neg (by omega), List.getElem?_eq_none (by omega), List.getElem?_eq_none (by omega)]

theorem getElem?_eq_parentHash {below : List Digest} {j : Nat} (hj : j < (pairUp (merkleNodeHash env) below).length) :
    (pairUp (merkleNodeHash env) below)[j]? = some (parentHash env below j) := by
  rw [length_pairUp] at hj
  have hleft : below[2 * j]? = some (below.getD (2 * j) zeroHash) := by
    rw [List.getD_eq_getElem?_getD, List.getElem?_eq_getElem (by omega : 2 * j < below.length)]
    rfl
  rw [getElem?_pairUp, parentAt, hleft, parentHash]
  by_cases hright : 2 * j + 1 < below.length
  · have hnext : below[2 * j + 1]? = some (below.getD (2 * j + 1) zeroHash) := by
      rw [List.getD_eq_getElem?_getD, List.getElem?_eq_getElem hright]
      rfl
    rw [hnext, if_pos hright]
  · rw [List.getElem?_eq_none (by omega), if_neg hright]

/-! ### Levels that agree up to a position -/

/-- Level by level of one length, and equal up to the position, which halves from level to level. -/
inductive Agree : Nat → List (List Digest) → List (List Digest) → Prop
  | nil {s : Nat} : Agree s [] []
  | cons {s : Nat} {a b : List Digest} {as bs : List (List Digest)} (hlen : a.length = b.length)
      (htake : a.take s = b.take s) (h : Agree (s / 2) as bs) : Agree s (a :: as) (b :: bs)

theorem length_resizeTo (n : Nat) (l : List Digest) : (resizeTo n l).length = n := by
  simp [resizeTo]
  omega

theorem take_resizeTo {n s : Nat} {l : List Digest} (hn : s ≤ n) (hl : s ≤ l.length) :
    (resizeTo n l).take s = l.take s := by
  rw [resizeTo, List.take_append_of_le_length (by simp; omega), List.take_take, Nat.min_eq_left hn]

theorem resizeTo_self (l : List Digest) : resizeTo l.length l = l := by
  simp [resizeTo]

/-- What is left of the old levels after the resize is right up to the changed position. -/
theorem agree_resizeAll {n k s : Nat} {old new : List Digest} {olds : List (List Digest)} (hne : new ≠ [])
    (hn : new.length ≤ n) (holds : (olds = allLevels (merkleNodeHash env) k old ∧ old.length ≤ k) ∨ (olds = [] ∧ s = 0))
    (hold : s ≤ old.length) (hnew : s ≤ new.length) (htake : old.take s = new.take s) :
    Agree s (resizeAll (levelSizes n new.length) olds) (allLevels (merkleNodeHash env) n new) := by
  induction n generalizing k s old new olds with
  | zero => exact absurd (List.length_eq_zero_iff.mp (Nat.le_zero.mp hn)) hne
  | succ n ih =>
    have hfirst : (resizeTo new.length (olds.headD [])).take s = new.take s := by
      rcases holds with ⟨rfl, -⟩ | ⟨rfl, rfl⟩
      · obtain ⟨tail, htail⟩ := @allLevels_head _ (merkleNodeHash env) k old
        rw [htail, List.headD_cons, take_resizeTo hnew hold, htake]
      · simp
    have hpos := List.length_pos_iff.mpr hne
    by_cases hone : new.length = 1
    · rw [levelSizes, if_pos hone, allLevels, if_neg (by omega)]
      cases olds with
      | nil => exact .cons (length_resizeTo _ _) hfirst .nil
      | cons level olds => exact .cons (length_resizeTo _ _) hfirst .nil
    · have hlt := length_pairUp_lt (merkleNodeHash env) (l := new) (by omega)
      have hhalf := length_pairUp (merkleNodeHash env) new
      rw [levelSizes, if_neg hone, allLevels, if_pos (by omega), ← hhalf]
      have hrest : ∀ tail k' old', ((tail = allLevels (merkleNodeHash env) k' old' ∧ old'.length ≤ k') ∨ (tail = [] ∧ s / 2 = 0)) →
          s / 2 ≤ old'.length → old'.take (s / 2) = (pairUp (merkleNodeHash env) new).take (s / 2) →
          Agree (s / 2) (resizeAll (levelSizes n (pairUp (merkleNodeHash env) new).length) tail)
            (allLevels (merkleNodeHash env) n (pairUp (merkleNodeHash env) new)) := fun tail k' old' htail hle htake' =>
        ih (pairUp_ne_nil _ hne) (by omega) htail hle (by omega) htake'
      rcases holds with ⟨rfl, hk⟩ | ⟨rfl, rfl⟩
      · by_cases hl : 1 < old.length
        · obtain ⟨k, rfl⟩ : ∃ k', k = k' + 1 := ⟨k - 1, by omega⟩
          have hlt' := length_pairUp_lt (merkleNodeHash env) hl
          rw [allLevels, if_pos hl] at hfirst ⊢
          refine .cons (length_resizeTo _ _) hfirst (hrest _ k _ (.inl ⟨rfl, by omega⟩) ?_ (take_pairUp htake))
          rw [length_pairUp]
          omega
        · rw [allLevels_of_length_le (by omega)] at hfirst ⊢
          exact .cons (length_resizeTo _ _) hfirst (hrest [] 0 [] (.inr ⟨rfl, by omega⟩) (by simp; omega)
            (by rw [show s / 2 = 0 by omega]; rfl))
      · exact .cons (length_resizeTo _ _) hfirst (hrest [] 0 [] (.inr ⟨rfl, rfl⟩) (by simp) rfl)

/-- Recomputing the levels above a right level makes them right. -/
theorem recomputeFrom_eq {n s : Nat} {below : List Digest} {rest tail : List (List Digest)} (hn : below.length ≤ n)
    (htail : allLevels (merkleNodeHash env) n below = below :: tail) (hagree : Agree (s / 2) rest tail) :
    recomputeFrom env s below rest = allLevels (merkleNodeHash env) n below := by
  induction n generalizing s below rest tail with
  | zero =>
    cases htail
    cases hagree
    rfl
  | succ n ih =>
    by_cases hl : 1 < below.length
    · have hlt := length_pairUp_lt (merkleNodeHash env) hl
      rw [allLevels, if_pos hl] at htail ⊢
      obtain rfl : allLevels (merkleNodeHash env) n (pairUp (merkleNodeHash env) below) = tail := (List.cons.inj htail).2
      generalize hlevels : allLevels (merkleNodeHash env) n (pairUp (merkleNodeHash env) below) = tail at hagree
      obtain ⟨tail', htail'⟩ := @allLevels_head _ (merkleNodeHash env) n (pairUp (merkleNodeHash env) below)
      obtain rfl := hlevels.symm.trans htail'
      cases hagree with
      | cons hlen htake h =>
        rename_i above rest
        have hparents : overwriteFrom above (s / 2) (parentHash env below) = pairUp (merkleNodeHash env) below :=
          overwriteFrom_eq hlen htake fun j hj _ => getElem?_eq_parentHash hj
        rw [recomputeFrom, hparents, ih (by omega) hlevels h, hlevels]
    · rw [allLevels_of_length_le (by omega)] at htail ⊢
      obtain rfl : [] = tail := (List.cons.inj htail).2
      cases hagree
      rfl

/-- The levels of a map whose leaves are as before up to a position, recomputed from there on. -/
theorem recomputeSuffix_levels {m : SortedMerkleMap} {old : List Digest} {pos : Nat}
    (hlevels : m.levels = levelsOf env old) (hold : pos ≤ old.length) (hpos : pos ≤ m.leaves.length)
    (htake : old.take pos = (m.leaves.map Leaf.hash).take pos) :
    (recomputeSuffix env m pos).levels = levelsOf env (m.leaves.map Leaf.hash) := by
  by_cases hne : m.leaves = []
  · simp [recomputeSuffix, levelsOf, hne]
  · have hne' : m.leaves.map Leaf.hash ≠ [] := by simpa using hne
    have hlen : m.leaves.length = (m.leaves.map Leaf.hash).length := by simp
    have holds : (m.levels = allLevels (merkleNodeHash env) old.length old ∧ old.length ≤ old.length) ∨
        (m.levels = [] ∧ pos = 0) := by
      rw [hlevels, levelsOf]
      split_ifs with hnil
      · rw [hnil, List.length_nil] at hold
        exact .inr ⟨rfl, by omega⟩
      · exact .inl ⟨rfl, le_rfl⟩
    have hagree := agree_resizeAll hne' le_rfl holds hold (by omega) htake
    obtain ⟨tail, htail⟩ := @allLevels_head _ (merkleNodeHash env) (m.leaves.map Leaf.hash).length (m.leaves.map Leaf.hash)
    rw [htail] at hagree
    rw [levelsOf, if_neg hne']
    unfold recomputeSuffix resizeLevels
    rw [if_neg hne, if_neg hne, hlen]
    cases hagree' : resizeAll (levelSizes (m.leaves.map Leaf.hash).length (m.leaves.map Leaf.hash).length) m.levels with
    | nil =>
      rw [hagree'] at hagree
      cases hagree
    | cons level rest =>
      rw [hagree'] at hagree
      cases hagree with
      | cons hlength hprefix h =>
        have hrefresh : overwriteFrom level pos (fun i => (m.leaves.map Leaf.hash).getD i zeroHash) =
            m.leaves.map Leaf.hash := by
          refine overwriteFrom_eq hlength hprefix fun j hj _ => ?_
          rw [List.getD_eq_getElem?_getD, List.getElem?_eq_getElem hj]
          rfl
        dsimp only
        rw [hrefresh]
        exact recomputeFrom_eq le_rfl htail h

/-! ### One path -/

theorem resizeAll_levels {n : Nat} {l : List Digest} (hne : l ≠ []) (hn : l.length ≤ n) :
    resizeAll (levelSizes n l.length) (allLevels (merkleNodeHash env) n l) = allLevels (merkleNodeHash env) n l := by
  induction n generalizing l with
  | zero => exact absurd (List.length_eq_zero_iff.mp (Nat.le_zero.mp hn)) hne
  | succ n ih =>
    have hpos := List.length_pos_iff.mpr hne
    by_cases hone : l.length = 1
    · rw [levelSizes, if_pos hone, allLevels, if_neg (by omega), resizeAll, resizeTo_self]
      rfl
    · have hlt := length_pairUp_lt (merkleNodeHash env) (l := l) (by omega)
      rw [levelSizes, if_neg hone, allLevels, if_pos (by omega), resizeAll, resizeTo_self,
        ← length_pairUp (merkleNodeHash env) l, ih (pairUp_ne_nil _ hne) (by omega)]

/-- The level above after one node changed. -/
theorem pairUp_set {l : List Digest} {i : Nat} {x : Digest} (hi : i < l.length) :
    (pairUp (merkleNodeHash env) l).set (i / 2) (parentHash env (l.set i x) (i / 2)) =
      pairUp (merkleNodeHash env) (l.set i x) := by
  refine List.ext_getElem? fun j => ?_
  by_cases hj : j = i / 2
  · subst hj
    have hlt : i / 2 < (pairUp (merkleNodeHash env) l).length := by
      rw [length_pairUp]
      omega
    rw [List.getElem?_set_self hlt, getElem?_eq_parentHash]
    rw [length_pairUp, List.length_set, ← length_pairUp (merkleNodeHash env)]
    exact hlt
  · rw [List.getElem?_set_ne (Ne.symm hj), getElem?_pairUp_set hj]

theorem recomputeUp_eq {n i : Nat} {l : List Digest} {x : Digest} {tail : List (List Digest)} (hn : l.length ≤ n)
    (hi : i < l.length) (htail : allLevels (merkleNodeHash env) n l = l :: tail) :
    recomputeUp env i (l.set i x) tail = allLevels (merkleNodeHash env) n (l.set i x) := by
  induction n generalizing i l x tail with
  | zero => omega
  | succ n ih =>
    by_cases hl : 1 < l.length
    · have hlt := length_pairUp_lt (merkleNodeHash env) hl
      have hi' : i / 2 < (pairUp (merkleNodeHash env) l).length := by
        rw [length_pairUp]
        omega
      obtain ⟨tail', htail'⟩ := @allLevels_head _ (merkleNodeHash env) n (pairUp (merkleNodeHash env) l)
      rw [allLevels, if_pos hl, htail'] at htail
      rw [← (List.cons.inj htail).2, recomputeUp, ih (by omega) hi' htail', pairUp_set hi, allLevels,
        if_pos (by rwa [List.length_set])]
    · rw [allLevels_of_length_le (by omega)] at htail
      rw [← (List.cons.inj htail).2, allLevels_of_length_le (by rw [List.length_set]; omega)]
      rfl

/-- The levels of a map with one leaf replaced, recomputed along its path. -/
theorem recomputePath_levels {m : SortedMerkleMap} {old : List Digest} {pos : Nat} {x : Digest}
    (hlevels : m.levels = levelsOf env old) (hpos : pos < old.length) (hset : m.leaves.map Leaf.hash = old.set pos x) :
    (recomputePath env m pos).levels = levelsOf env (m.leaves.map Leaf.hash) := by
  have hold : old ≠ [] := List.ne_nil_of_length_pos (by omega)
  have hlen : m.leaves.length = old.length := by rw [← List.length_map, hset, List.length_set]
  have hne : m.leaves ≠ [] := List.ne_nil_of_length_pos (by omega)
  obtain ⟨tail, htail⟩ := @allLevels_head _ (merkleNodeHash env) old.length old
  have hresize : m.resizeLevels = old :: tail := by
    rw [resizeLevels, if_neg hne, hlevels, levelsOf, if_neg hold, hlen, resizeAll_levels hold le_rfl, htail]
  have hvalue : (old.set pos x).getD pos zeroHash = x := by
    rw [List.getD_eq_getElem?_getD, List.getElem?_set_self hpos]
    rfl
  rw [recomputePath, if_neg hne, hresize, hset]
  dsimp only
  rw [hvalue, recomputeUp_eq le_rfl hpos htail, levelsOf, if_neg (by simpa using hold), List.length_set]

end SortedMerkleMap

end IrohRooms.Member
