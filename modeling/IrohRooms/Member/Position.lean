import IrohRooms.Member.Rebuild

/-!
# What a verified proof says of its position

The verifier derives from a proof's count and index which siblings stand on which side, and nothing else of the two
numbers enters the climb. So a verified proof is a path of the tree with the right sides, and any other pair of numbers
that prescribes the same sides verifies as well.
-/

namespace IrohRooms.Member

open Governance MerkleTree

variable {env : Env}

/-! ### Sides -/

/-- The sides of the siblings that a count and an index prescribe, from the leaf upward. -/
def sidesOf (leafCount leafIndex : Nat) : List SiblingSide :=
  if 1 < leafCount then
    (expectedSide leafCount leafIndex).toList ++ sidesOf (leafCount / 2 + leafCount % 2) (leafIndex / 2)
  else []
termination_by leafCount
decreasing_by omega

theorem sidesOf_of_lt {count : Nat} (h : 1 < count) (i : Nat) :
    sidesOf count i = (expectedSide count i).toList ++ sidesOf (count / 2 + count % 2) (i / 2) := by
  rw [sidesOf, if_pos h]

theorem sidesOf_of_le {count : Nat} (h : count ≤ 1) (i : Nat) : sidesOf count i = [] := by
  rw [sidesOf, if_neg (by omega)]

theorem expectedSide_none {count i : Nat} (hi : i < count) (h : expectedSide count i = none) :
    i % 2 = 0 ∧ i + 1 = count := by
  unfold expectedSide at h
  split_ifs at h with hodd hright
  omega

theorem siblingCountLoop_sides {fuel count : Nat} (hfuel : count ≤ fuel) (i steps : Nat) :
    siblingCountLoop fuel count i steps = steps + (sidesOf count i).length := by
  induction fuel generalizing count i steps with
  | zero =>
    rw [sidesOf_of_le (by omega)]
    rfl
  | succ fuel ih =>
    rw [siblingCountLoop]
    by_cases hone : 1 < count
    · rw [if_pos hone]
      dsimp only
      rw [ih (by omega), sidesOf_of_lt hone, List.length_append, expectedSide]
      by_cases hodd : i % 2 = 1
      · simp [hodd]
        omega
      · by_cases hright : i + 1 < count
        · simp [hodd, hright]
          omega
        · simp [hodd, hright]
    · rw [if_neg hone, sidesOf_of_le (by omega)]
      rfl

theorem validateSides_iff {fuel count : Nat} (hfuel : count ≤ fuel) (i : Nat) (steps : List ProofStep) :
    validateSides fuel count i steps = .ok () ↔ steps.map ProofStep.side = sidesOf count i := by
  induction fuel generalizing count i steps with
  | zero =>
    rw [sidesOf_of_le (by omega), validateSides, List.map_eq_nil_iff]
    split_ifs with hsteps
    · simp [hsteps]
    · simpa using hsteps
  | succ fuel ih =>
    unfold validateSides
    by_cases hone : 1 < count
    · rw [if_pos hone, sidesOf_of_lt hone]
      cases expectedSide count i with
      | none => exact ih (by omega) _ _
      | some side =>
        cases steps with
        | nil => simp
        | cons step steps =>
          dsimp only
          split_ifs with hstep
          · simp [hstep]
          · rw [ih (by omega), ← not_not.mp hstep]
            simp
    · rw [if_neg hone, sidesOf_of_le (by omega), List.map_eq_nil_iff]
      split_ifs with hsteps
      · simp [hsteps]
      · simpa using hsteps

/-- With the right sides the climb goes through to the end. -/
theorem climb_of_sides {fuel count : Nat} (hfuel : count ≤ fuel) {i : Nat} {steps : List ProofStep}
    (h : steps.map ProofStep.side = sidesOf count i) (acc : Digest) :
    climb env fuel count i acc steps = .ok ((framing env).climb acc (steps.map ProofStep.toPair)) := by
  induction fuel generalizing count i steps acc with
  | zero =>
    rw [sidesOf_of_le (by omega), List.map_eq_nil_iff] at h
    subst h
    rfl
  | succ fuel ih =>
    unfold climb
    by_cases hone : 1 < count
    · rw [if_pos hone]
      dsimp only
      rw [sidesOf_of_lt hone, expectedSide] at h
      by_cases hodd : i % 2 = 1
      · simp only [hodd, if_true] at h ⊢
        cases steps with
        | nil => simp at h
        | cons step steps =>
          simp only [Option.toList_some, List.singleton_append, List.map_cons, List.cons.injEq] at h
          dsimp only
          rw [if_neg (not_not.mpr h.1), ih (by omega) h.2, ProofStep.above_eq]
          rfl
      · by_cases hright : i + 1 < count
        · simp only [hodd, hright, if_true, if_false, decide_true] at h ⊢
          cases steps with
          | nil => simp at h
          | cons step steps =>
            simp only [Option.toList_some, List.singleton_append, List.map_cons, List.cons.injEq] at h
            dsimp only
            rw [if_neg (not_not.mpr h.1), ih (by omega) h.2, ProofStep.above_eq]
            rfl
        · simp only [hodd, hright, if_false, decide_false, Option.toList_none, List.nil_append,
            Bool.false_eq_true] at h ⊢
          exact ih (by omega) h acc
    · rw [sidesOf_of_le (by omega), List.map_eq_nil_iff] at h
      subst h
      rw [if_neg hone]
      rfl

theorem validateInclusionStructure_iff (p : InclusionProof) : validateInclusionStructure p = .ok () ↔
    p.leafIndex.toNat < p.leafCount.toNat ∧ p.siblings.length ≤ maxLevels ∧
      p.siblings.map ProofStep.side = sidesOf p.leafCount.toNat p.leafIndex.toNat := by
  have hcount : ∀ c i : Nat, i < c → expectedSiblingCount c i = (sidesOf c i).length := by
    intro c i hi
    rw [expectedSiblingCount, if_neg (by omega), siblingCountLoop_sides le_rfl, Nat.zero_add]
  unfold validateInclusionStructure
  dsimp only
  split_ifs with hbad
  · refine iff_of_false (by simp) ?_
    rintro ⟨hlt, hmax, hsides⟩
    have hlen := congrArg List.length hsides
    rw [List.length_map, ← hcount _ _ hlt] at hlen
    omega
  · rw [validateSides_iff le_rfl]
    push Not at hbad
    exact ⟨fun h => ⟨hbad.2.1, hbad.2.2.1, h⟩, fun h => h.2.2⟩

/-- A proof is accepted exactly when it is a climb from the record to the root with the sides its numbers prescribe. -/
theorem verifyInclusion_iff {root : Digest} {k : PrincipalId} {canonical : Bytes} {p : InclusionProof} :
    verifyInclusion env root k canonical p = .ok () ↔ validateKeyedRecord k canonical = .ok () ∧
      p.leafIndex.toNat < p.leafCount.toNat ∧ p.siblings.length ≤ maxLevels ∧
      p.siblings.map ProofStep.side = sidesOf p.leafCount.toNat p.leafIndex.toNat ∧
      (framing env).climb ((framing env).leafHash canonical) (p.siblings.map ProofStep.toPair) = root := by
  constructor
  · intro h
    obtain ⟨hkeyed, hclimb⟩ := verifyInclusion_eq_ok h
    unfold verifyInclusion at h
    split at h
    · cases h
    · split_ifs at h
      obtain ⟨_, hshape, -⟩ := bind_eq_ok_iff.mp h
      obtain ⟨hlt, hmax, hsides⟩ := (validateInclusionStructure_iff p).mp hshape
      exact ⟨hkeyed, hlt, hmax, hsides, hclimb⟩
  · rintro ⟨hkeyed, hlt, hmax, hsides, hclimb⟩
    obtain ⟨record, hrecord, hkey⟩ := bind_eq_ok_iff.mp hkeyed
    split_ifs at hkey with hid
    have hshape := (validateInclusionStructure_iff p).mpr ⟨hlt, hmax, hsides⟩
    have hup := @climb_of_sides env _ _ le_rfl _ _ hsides (memberLeafHash env canonical)
    simp only [verifyInclusion, hrecord, hid, ne_eq, not_true_eq_false, if_false, hshape, hup]
    exact if_pos hclimb

/-! ### Numbers with the same sides -/

theorem sidesOf_ne_nil {count i : Nat} (hone : 1 < count) (hi : i < count) : sidesOf count i ≠ [] := by
  induction count using Nat.strong_induction_on generalizing i with
  | _ count ih =>
    rw [sidesOf_of_lt hone]
    cases hside : expectedSide count i with
    | some side => simp
    | none =>
      obtain ⟨heven, hlast⟩ := expectedSide_none hi hside
      exact ih _ (by omega) (by omega) (by omega)

/-- One sibling on the right: the first leaf of two. -/
theorem eq_of_sidesOf_right {count i : Nat} (hi : i < count) (h : sidesOf count i = [.right]) : count = 2 ∧ i = 0 := by
  induction count using Nat.strong_induction_on generalizing i with
  | _ count ih =>
    by_cases hone : 1 < count
    · rw [sidesOf_of_lt hone] at h
      cases hside : expectedSide count i with
      | none =>
        obtain ⟨heven, hlast⟩ := expectedSide_none hi hside
        rw [hside] at h
        have hbelow := ih _ (by omega) (by omega) h
        omega
      | some side =>
        rw [hside, Option.toList_some, List.singleton_append, List.cons.injEq] at h
        have hrest : ¬ 1 < count / 2 + count % 2 := fun hlt => sidesOf_ne_nil hlt (by omega) h.2
        unfold expectedSide at hside
        split_ifs at hside with hodd hright
        · rw [← Option.some.inj hside] at h
          cases h.1
        · omega
    · rw [sidesOf_of_le (by omega)] at h
      cases h

/-- Apart from a tree of one leaf and from the first leaf of two, another count and index prescribe the same sides. -/
theorem exists_same_sides {count i : Nat} (hi : i < count) (hmany : ¬ (count = 1 ∨ count = 2 ∧ i = 0)) :
    ∃ count' i', i' < count' ∧ count' < 2 * count ∧ ¬ (count' = count ∧ i' = i) ∧ sidesOf count' i' = sidesOf count i := by
  have hone : 1 < count := by omega
  by_cases hlast : i + 1 = count
  · -- one more level below, on which the last leaf is promoted
    refine ⟨2 * count - 1, 2 * count - 2, by omega, by omega, by omega, ?_⟩
    have hside : expectedSide (2 * count - 1) (2 * count - 2) = none := by
      rw [expectedSide, if_neg (by omega), if_neg (by omega)]
    rw [sidesOf_of_lt (by omega), hside, show (2 * count - 1) / 2 + (2 * count - 1) % 2 = count by omega,
      show (2 * count - 2) / 2 = i by omega]
    rfl
  · by_cases hinner : i / 2 + 1 < count / 2 + count % 2
    · -- the last pair lies elsewhere: with or without its second node the level above is as long
      have hsame : ∀ count', (count' = count + 1 ∧ count % 2 = 1 ∨ count' + 1 = count ∧ count % 2 = 0) →
          sidesOf count' i = sidesOf count i := by
        intro count' hcount'
        have hside : expectedSide count' i = expectedSide count i := by
          unfold expectedSide
          split_ifs <;> first | rfl | omega
        rw [sidesOf_of_lt (by omega), sidesOf_of_lt hone, hside,
          show count' / 2 + count' % 2 = count / 2 + count % 2 by omega]
      by_cases hodd : count % 2 = 1
      · exact ⟨count + 1, i, by omega, by omega, by omega, hsame _ (Or.inl ⟨rfl, hodd⟩)⟩
      · exact ⟨count - 1, i, by omega, by omega, by omega, hsame _ (Or.inr ⟨by omega, by omega⟩)⟩
    · -- the first leaf of the last pair: the pair is moved one level up
      refine ⟨2 * count - 2, 2 * count - 4, by omega, by omega, by omega, ?_⟩
      have hside : expectedSide (2 * count - 2) (2 * count - 4) = some .right := by
        rw [expectedSide, if_neg (by omega), if_pos (by omega)]
      have hnone : expectedSide (count - 1) (count - 2) = none := by
        rw [expectedSide, if_neg (by omega), if_neg (by omega)]
      have hside' : expectedSide count i = some .right := by
        rw [expectedSide, if_neg (by omega), if_pos (by omega)]
      rw [sidesOf_of_lt (by omega), hside, show (2 * count - 2) / 2 + (2 * count - 2) % 2 = count - 1 by omega,
        show (2 * count - 4) / 2 = count - 2 by omega, @sidesOf_of_lt (count - 1) (by omega), hnone,
        @sidesOf_of_lt count hone, hside', show (count - 1) / 2 + (count - 1) % 2 = count / 2 + count % 2 by omega,
        show (count - 2) / 2 = i / 2 by omega]
      rfl

/-! ### Paths -/

/-- The siblings above a position continue a path to the node there. -/
theorem path_pathOf {fuel i : Nat} {ts : List (MerkleTree.Tree Bytes)} {below t : MerkleTree.Tree Bytes} {a : Bytes}
    {steps : List (Bool × Digest)} (hfuel : ts.length ≤ fuel) (hi : ts[i]? = some below)
    (hpath : (framing env).Path below a steps) (htop : top MerkleTree.Tree.node fuel ts = some t) :
    (framing env).Path t a (steps ++ (pathOf env fuel (ts.map (framing env).eval) i).map ProofStep.toPair) := by
  induction fuel generalizing ts i below steps with
  | zero =>
    rw [List.length_eq_zero_iff.mp (Nat.le_zero.mp hfuel)] at hi
    simp at hi
  | succ fuel ih =>
    have hlt : i < ts.length := (List.getElem?_eq_some_iff.mp hi).1
    rw [pathOf, List.length_map]
    by_cases hone : 1 < ts.length
    · have hshort := length_pairUp_lt MerkleTree.Tree.node hone
      have heval : pairUp (merkleNodeHash env) (ts.map (framing env).eval) =
          (pairUp MerkleTree.Tree.node ts).map (framing env).eval := (map_pairUp (fun _ _ => rfl) ts).symm
      rw [top_succ hone] at htop
      -- one more step, whichever sibling there is
      have hstep : ∀ above steps', (pairUp MerkleTree.Tree.node ts)[i / 2]? = some above →
          (framing env).Path above a (steps ++ steps'.map ProofStep.toPair) →
          (framing env).Path t a (steps ++ (steps' ++ pathOf env fuel (pairUp (merkleNodeHash env)
            (ts.map (framing env).eval)) (i / 2)).map ProofStep.toPair) := by
        intro above steps' habove hpath'
        rw [List.map_append, ← List.append_assoc, heval]
        exact ih (by omega) habove hpath' htop
      have hsibling : ∀ j < ts.length, ∃ s, ts[j]? = some s ∧
          (ts.map (framing env).eval).getD j zeroHash = (framing env).eval s := by
        intro j hj
        refine ⟨ts[j], List.getElem?_eq_getElem hj, ?_⟩
        rw [List.getD_eq_getElem?_getD, List.getElem?_map, List.getElem?_eq_getElem hj]
        rfl
      rw [if_pos hone]
      by_cases hodd : i % 2 = 1
      · obtain ⟨s, hs, hvalue⟩ := hsibling (i - 1) (by omega)
        rw [if_pos hodd, hvalue]
        refine hstep (.node s below) _ ?_ (.right hpath)
        rw [getElem?_pairUp, parentAt, show 2 * (i / 2) = i - 1 by omega, show i - 1 + 1 = i by omega, hs, hi]
      · rw [if_neg hodd]
        by_cases hright : i + 1 < ts.length
        · obtain ⟨s, hs, hvalue⟩ := hsibling (i + 1) hright
          rw [if_pos hright, hvalue]
          refine hstep (.node below s) _ ?_ (.left hpath)
          rw [getElem?_pairUp, parentAt, show 2 * (i / 2) = i by omega, hs, hi]
        · rw [if_neg hright]
          refine hstep below [] ?_ (by simpa using hpath)
          rw [getElem?_pairUp, parentAt, show 2 * (i / 2) = i by omega, hi, List.getElem?_eq_none (by omega)]
    · rw [if_neg hone]
      obtain ⟨x, rfl⟩ := List.length_eq_one_iff.mp (show ts.length = 1 by omega)
      obtain rfl : i = 0 := by simpa using hlt
      simp only [top, Option.some.injEq] at htop
      simp only [List.getElem?_cons_zero, Option.some.injEq] at hi
      rw [← htop, hi]
      simpa using hpath

namespace SortedMerkleMap

variable {m : SortedMerkleMap} {rank : Nat} {leaf : Leaf}

theorem WellFormed.map_hash (h : m.WellFormed env) :
    m.leaves.map Leaf.hash = ((m.leaves.map Leaf.canonical).map MerkleTree.Tree.leaf).map (framing env).eval := by
  rw [List.map_map, List.map_map]
  exact List.map_congr_left fun leaf hleaf => (h.leaves leaf hleaf).hash

/-- The siblings of a leaf are a path to it, with the sides of its position. -/
theorem WellFormed.path (h : m.WellFormed env) (hfits : m.leaves.length ≤ 2 ^ 64) (hleaf : m.leaves[rank]? = some leaf)
    {t : MerkleTree.Tree Bytes} (ht : tree (m.leaves.map Leaf.canonical) = some t) :
    ∃ steps : List ProofStep, (framing env).Path t leaf.canonical (steps.map ProofStep.toPair) ∧
      steps.length ≤ maxLevels ∧ steps.map ProofStep.side = sidesOf m.leaves.length rank := by
  have hsides := @validateSides_pathOf env (m.leaves.map Leaf.hash) m.leaves.length rank (by simp)
  rw [List.length_map, validateSides_iff le_rfl] at hsides
  refine ⟨pathOf env m.leaves.length (m.leaves.map Leaf.hash) rank, ?_, ?_, hsides⟩
  · rw [h.map_hash]
    rw [tree, List.length_map] at ht
    have hleaf' : ((m.leaves.map Leaf.canonical).map MerkleTree.Tree.leaf)[rank]? = some (.leaf leaf.canonical) := by
      simp [hleaf]
    exact path_pathOf (by simp) hleaf' (.leaf leaf.canonical) ht
  · exact length_pathOf_le (by simpa [maxLevels] using hfits)

/-- Without collisions a verified proof is a path of the tree. -/
theorem WellFormed.path_of_verified (h : m.WellFormed env) {t : MerkleTree.Tree Bytes}
    (ht : tree (m.leaves.map Leaf.canonical) = some t) {p : InclusionProof} {k : PrincipalId} {canonical : Bytes}
    (hfree : Set.InjOn env.blake3 (m.words env ∪ p.words env canonical))
    (hverify : verifyInclusion env (m.root env) k canonical p = .ok ()) :
    (framing env).Path t canonical (p.siblings.map ProofStep.toPair) := by
  have hinj := framing_injOn hfree
  rw [words, treeWords, ht] at hinj
  exact Framing.path_of_climb hinj ((verifyInclusion_eq_ok hverify).2.trans (h.root_eq_eval ht))

theorem WellFormed.canonical_inj (h : m.WellFormed env) {a b : Leaf} (ha : a ∈ m.leaves) (hb : b ∈ m.leaves)
    (heq : a.canonical = b.canonical) : a.memberId = b.memberId := by
  obtain ⟨record, hrecord, hkey⟩ := bind_eq_ok_iff.mp (h.leaves a ha).keyed
  obtain ⟨record', hrecord', hkey'⟩ := bind_eq_ok_iff.mp (h.leaves b hb).keyed
  rw [heq, hrecord', Except.ok.injEq] at hrecord
  split_ifs at hkey with hid
  split_ifs at hkey' with hid'
  rw [← hid, ← hid', hrecord]

/-- The sides of a proof whose siblings are one step on the right. -/
theorem sides_of_toPair {steps : List ProofStep} {x : Digest} (h : steps.map ProofStep.toPair = [(false, x)]) :
    steps.map ProofStep.side = [.right] := by
  obtain ⟨step, rfl, hstep⟩ := List.map_eq_singleton_iff.mp h
  obtain ⟨side, hash⟩ := step
  cases side with
  | left => cases hstep
  | right => rfl

/-- A proof of a record that the map holds, accepted against the root, must name the true count and rank exactly when
the map has one entry, or has two and the record is of the lower key. -/
theorem verified_position_iff (h : Reachable env m) (hfits : m.leaves.length < 2 ^ 63)
    (hfree : Set.InjOn env.blake3 (m.words env)) (hleaf : m.leaves[rank]? = some leaf) :
    (∀ p : InclusionProof, Set.InjOn env.blake3 (m.words env ∪ p.words env leaf.canonical) →
      verifyInclusion env (m.root env) leaf.memberId leaf.canonical p = .ok () →
      p.leafCount.toNat = m.leaves.length ∧ p.leafIndex.toNat = rank) ↔
    m.leaves.length = 1 ∨ m.leaves.length = 2 ∧ rank = 0 := by
  have hwf := h.wellFormed
  have hlt : rank < m.leaves.length := (List.getElem?_eq_some_iff.mp hleaf).1
  have hmem : leaf ∈ m.leaves := List.mem_of_getElem? hleaf
  obtain ⟨t, ht⟩ := Option.isSome_iff_exists.mp (isSome_tree (show m.leaves.map Leaf.canonical ≠ [] from
    List.ne_nil_of_length_pos (by rw [List.length_map]; omega)))
  constructor
  · intro hall
    by_contra hmany
    obtain ⟨count, i, hi, hcount, hother, hsides⟩ := exists_same_sides hlt hmany
    obtain ⟨steps, hpath, hlen, hsteps⟩ := hwf.path (by omega) hleaf ht
    have hcountNat : (UInt64.ofNat count).toNat = count := by
      rw [UInt64.toNat_ofNat']
      exact Nat.mod_eq_of_lt (by omega)
    have hiNat : (UInt64.ofNat i).toNat = i := by
      rw [UInt64.toNat_ofNat']
      exact Nat.mod_eq_of_lt (by omega)
    have hwords : InclusionProof.words env ⟨UInt64.ofNat count, UInt64.ofNat i, steps⟩ leaf.canonical ⊆ m.words env := by
      rw [words, treeWords, ht]
      exact hpath.words_subset
    have hclaimed := hall ⟨UInt64.ofNat count, UInt64.ofNat i, steps⟩
      (hfree.mono (Set.union_subset subset_rfl hwords)) (verifyInclusion_iff.mpr
        ⟨(hwf.leaves leaf hmem).keyed, by simpa [hcountNat, hiNat] using hi, hlen, by
          simp only [hcountNat, hiNat]
          exact hsteps.trans hsides.symm, hpath.climb_eq.trans (hwf.root_eq_eval ht).symm⟩)
    simp only [hcountNat, hiNat] at hclaimed
    exact hother hclaimed
  · intro hfew p hp hverify
    obtain ⟨-, hi, -, hsides, -⟩ := verifyInclusion_iff.mp hverify
    have hpath := hwf.path_of_verified ht hp hverify
    rcases hfew with hone | ⟨htwo, hzero⟩
    · obtain ⟨only, honly⟩ := List.length_eq_one_iff.mp hone
      rw [honly] at ht
      obtain rfl := Option.some.inj ht
      have hnil : sidesOf p.leafCount.toNat p.leafIndex.toNat = [] := by
        rw [← hsides, List.map_eq_nil_iff.mp hpath.of_leaf.2]
        rfl
      have hcount : ¬ 1 < p.leafCount.toNat := fun hlt => sidesOf_ne_nil hlt hi hnil
      omega
    · obtain ⟨first, second, hpair⟩ := List.length_eq_two.mp htwo
      rw [hzero, hpair] at hleaf
      obtain rfl : first = leaf := by simpa using hleaf
      rw [hpair] at ht
      obtain rfl := Option.some.inj ht
      rcases hpath.of_pair with ⟨-, hsteps⟩ | ⟨hsame, -⟩
      · rw [sides_of_toPair hsteps] at hsides
        obtain ⟨hcount, hindex⟩ := eq_of_sidesOf_right hi hsides.symm
        omega
      · have hids := hwf.canonical_inj hmem (by simp [hpair]) hsame
        have hsorted := hwf.sorted
        rw [hpair, List.pairwise_cons] at hsorted
        exact absurd hids (hsorted.1 second (by simp)).ne

end SortedMerkleMap

namespace Toy

open SortedMerkleMap

/-- The third of the three members, claimed to be the second of two. -/
def promoted : InclusionProof := ⟨2, 1, [⟨.left, merkleNodeHash toyEnv (leafOf 1) (leafOf 2)⟩]⟩

def third : Leaf := ⟨Id.ofNat 3, member 3, leafOf 3⟩

/-- The third leaf and the verdict on it, evaluated in one go. -/
theorem third_computed :
    trio.leaves[2]?.map (fun leaf : Leaf => (leaf.memberId, leaf.canonical, leaf.hash)) =
      some (third.memberId, third.canonical, third.hash) ∧
    verifyInclusion toyEnv (trio.root toyEnv) third.memberId third.canonical promoted = .ok () := by
  decide +kernel

theorem third_trio : trio.leaves[2]? = some third := by
  obtain ⟨leaf, hleaf, heq⟩ := Option.map_eq_some_iff.mp third_computed.1
  obtain ⟨memberId, canonical, hash⟩ := leaf
  simp only [Prod.mk.injEq] at heq
  obtain ⟨rfl, rfl, rfl⟩ := heq
  exact hleaf

theorem words_promoted : trio.words toyEnv ∪ promoted.words toyEnv third.canonical ⊆ {w | w ∈ hashed} := by
  have hword : ∀ {i : Nat} {w : Bytes}, hashed[i]? = some w → w ∈ hashed := List.mem_of_getElem?
  apply Set.union_subset (Set.subset_union_left.trans words_trio)
  rintro w (rfl | rfl | h)
  · exact hword (i := 2) rfl
  · exact hword (i := 4) rfl
  · cases h

theorem not_verified_position : ¬ ∀ (env : Env) (m : SortedMerkleMap) (rank : Nat) (leaf : Leaf) (p : InclusionProof),
    Reachable env m → Set.InjOn env.blake3 (m.words env ∪ p.words env leaf.canonical) → m.leaves[rank]? = some leaf →
    verifyInclusion env (m.root env) leaf.memberId leaf.canonical p = .ok () →
    p.leafCount.toNat = m.leaves.length ∧ p.leafIndex.toNat = rank := by
  intro hall
  have hclaimed := hall toyEnv trio 2 third promoted reachable_trio (injOn_hashed.mono words_promoted) third_trio
    third_computed.2
  exact absurd hclaimed.2 (by decide)

theorem verified_position_iff_third : ¬ ∀ p : InclusionProof,
    Set.InjOn toyEnv.blake3 (trio.words toyEnv ∪ p.words toyEnv third.canonical) →
    verifyInclusion toyEnv (trio.root toyEnv) third.memberId third.canonical p = .ok () →
    p.leafCount.toNat = trio.leaves.length ∧ p.leafIndex.toNat = 2 := by
  have hlen : trio.leaves.length = 3 := by
    rw [← List.length_map Leaf.canonical, canonical_trio]
    rfl
  have hfree : Set.InjOn toyEnv.blake3 (trio.words toyEnv) :=
    injOn_hashed.mono (Set.subset_union_left.trans words_trio)
  rw [verified_position_iff reachable_trio (by omega) hfree third_trio]
  omega

end Toy

end IrohRooms.Member
