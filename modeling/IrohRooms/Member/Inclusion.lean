import IrohRooms.Event.Build
import IrohRooms.Member.MerkleMap

/-!
# Inclusion proofs

A proof made by a map verifies against its root, and whatever proof verifies against the root of a map, the record it
was verified for is the one that the map holds under the key. For the first the level arithmetic of the prover and of
the verifier is compared with the levels themselves (`pathOf`); for the second no arithmetic is needed, only that the
words hashed for the tree and on the climb do not collide.
-/

namespace IrohRooms.Member

open Governance MerkleTree

variable {env : Env}

/-! ### Completeness -/

/-- The siblings on the way up from a position of a level. -/
def pathOf (env : Env) : Nat → List Digest → Nat → List ProofStep
  | fuel + 1, l, i =>
    if 1 < l.length then
      (if i % 2 = 1 then [⟨.left, l.getD (i - 1) zeroHash⟩]
        else if i + 1 < l.length then [⟨.right, l.getD (i + 1) zeroHash⟩] else []) ++
      pathOf env fuel (pairUp (merkleNodeHash env) l) (i / 2)
    else []
  | 0, _, _ => []

section Path

variable {l : List Digest} {fuel i : Nat}

theorem half_lt (hi : i < l.length) : i / 2 < (pairUp (merkleNodeHash env) l).length := by
  rw [length_pairUp]
  omega

theorem siblingCountLoop_eq (steps : Nat) :
    siblingCountLoop fuel l.length i steps = steps + (pathOf env fuel l i).length := by
  induction fuel generalizing l i steps with
  | zero => rfl
  | succ fuel ih =>
    rw [siblingCountLoop, pathOf]
    by_cases hl : 1 < l.length
    · rw [if_pos hl, if_pos hl]
      dsimp only
      rw [← length_pairUp (merkleNodeHash env), ih, List.length_append]
      by_cases hodd : i % 2 = 1
      · simp [hodd]
        omega
      · by_cases hright : i + 1 < l.length
        · simp [hodd, hright]
          omega
        · simp [hodd, hright]
    · rw [if_neg hl, if_neg hl]
      rfl

theorem validateSides_pathOf (hfuel : l.length ≤ fuel) : validateSides fuel l.length i (pathOf env fuel l i) = .ok () := by
  induction fuel generalizing l i with
  | zero => simp [validateSides, pathOf]
  | succ fuel ih =>
    rw [pathOf]
    by_cases hl : 1 < l.length
    · have hlt := length_pairUp_lt (merkleNodeHash env) hl
      have hrest := ih (l := pairUp (merkleNodeHash env) l) (i := i / 2) (by omega)
      rw [length_pairUp] at hrest
      by_cases hodd : i % 2 = 1
      · simp [validateSides, expectedSide, hl, hodd, hrest]
      · by_cases hright : i + 1 < l.length
        · simp [validateSides, expectedSide, hl, hodd, hright, hrest]
        · simp [validateSides, expectedSide, hl, hodd, hright, hrest]
    · simp [validateSides, hl]

theorem length_pathOf_le {k : Nat} (hl : l.length ≤ 2 ^ k) : (pathOf env fuel l i).length ≤ k := by
  induction fuel generalizing l i k with
  | zero => simp [pathOf]
  | succ fuel ih =>
    rw [pathOf]
    by_cases hone : 1 < l.length
    · obtain ⟨k, rfl⟩ : ∃ k', k = k' + 1 := by
        rcases k with _ | k
        · simp at hl
          omega
        · exact ⟨k, rfl⟩
      have hhalf : (pairUp (merkleNodeHash env) l).length ≤ 2 ^ k := by
        rw [length_pairUp]
        rw [pow_succ] at hl
        omega
      have hrest := ih (l := pairUp (merkleNodeHash env) l) (i := i / 2) hhalf
      rw [if_pos hone, List.length_append]
      have hstep : (if i % 2 = 1 then [(⟨.left, l.getD (i - 1) zeroHash⟩ : ProofStep)]
          else if i + 1 < l.length then [⟨.right, l.getD (i + 1) zeroHash⟩] else []).length ≤ 1 := by
        split_ifs <;> simp
      omega
    · rw [if_neg hone]
      simp

/-- The climb passes the node above the position on every level. -/
theorem climb_pathOf {acc root : Digest} (hfuel : l.length ≤ fuel) (hi : i < l.length) (hacc : l[i]? = some acc)
    (hroot : top (merkleNodeHash env) fuel l = some root) :
    climb env fuel l.length i acc (pathOf env fuel l i) = .ok root := by
  induction fuel generalizing l i acc with
  | zero => omega
  | succ fuel ih =>
    rw [pathOf]
    by_cases hl : 1 < l.length
    · have hlt := length_pairUp_lt (merkleNodeHash env) hl
      rw [top_succ hl] at hroot
      -- one step of the climb reaches the node above
      have hstep : ∀ acc', (pairUp (merkleNodeHash env) l)[i / 2]? = some acc' →
          climb env fuel (l.length / 2 + l.length % 2) (i / 2) acc'
            (pathOf env fuel (pairUp (merkleNodeHash env) l) (i / 2)) = .ok root := by
        intro acc' hacc'
        rw [← length_pairUp (merkleNodeHash env)]
        exact ih (by omega) (half_lt hi) hacc' hroot
      have hget : ∀ j < l.length, l[j]? = some (l.getD j zeroHash) := by
        intro j hj
        rw [List.getD_eq_getElem?_getD, List.getElem?_eq_getElem hj]
        rfl
      rw [getElem?_pairUp, parentAt] at hstep
      by_cases hodd : i % 2 = 1
      · have hleft : 2 * (i / 2) = i - 1 := by omega
        have hright : i - 1 + 1 = i := by omega
        rw [hleft, hright, hget (i - 1) (by omega), hacc] at hstep
        simpa [climb, hl, hodd, ProofStep.above] using hstep _ rfl
      · have hleft : 2 * (i / 2) = i := by omega
        rw [hleft, hacc] at hstep
        by_cases hright : i + 1 < l.length
        · rw [hget (i + 1) hright] at hstep
          simpa [climb, hl, hodd, hright, ProofStep.above] using hstep _ rfl
        · rw [List.getElem?_eq_none (by omega)] at hstep
          simpa [climb, hl, hodd, hright] using hstep _ rfl
    · obtain ⟨a, rfl⟩ := List.length_eq_one_iff.mp (show l.length = 1 by omega)
      obtain rfl : i = 0 := by simpa using hi
      simp only [top, Option.some.injEq] at hroot
      simp only [List.getElem?_cons_zero, Option.some.injEq] at hacc
      simp [climb, ← hroot, ← hacc]

end Path

namespace SortedMerkleMap

variable {m : SortedMerkleMap}

theorem levelNode_eq {l : List Digest} {tail : List (List Digest)} {level : Nat}
    (hdrop : m.levels.drop level = l :: tail) (hfirst : level = 0 → m.leaves.map Leaf.hash = l) (j : Nat) :
    m.levelNode env level j = l.getD j zeroHash := by
  unfold levelNode
  split_ifs with hlevel
  · rw [hfirst hlevel]
  · have hget : m.levels[level]? = some l := by
      rw [← List.head?_drop, hdrop]
      rfl
    rw [hget]

/-- The prover reads the path off the levels. -/
theorem siblingsFrom_eq {fuel level i : Nat} {l : List Digest}
    (hdrop : m.levels.drop level = allLevels (merkleNodeHash env) fuel l)
    (hfirst : level = 0 → m.leaves.map Leaf.hash = l) :
    m.siblingsFrom env fuel l.length i level = pathOf env fuel l i := by
  induction fuel generalizing l i level with
  | zero => rfl
  | succ fuel ih =>
    obtain ⟨tail, htail⟩ := @allLevels_head _ (merkleNodeHash env) (fuel + 1) l
    have hnode := @levelNode_eq env _ _ _ _ (hdrop.trans htail) hfirst
    rw [siblingsFrom, pathOf]
    by_cases hl : 1 < l.length
    · have habove : m.levels.drop (level + 1) = allLevels (merkleNodeHash env) fuel (pairUp (merkleNodeHash env) l) := by
        rw [allLevels, if_pos hl] at hdrop
        rw [← List.drop_drop, hdrop]
        rfl
      have hrest := ih (i := i / 2) habove (by omega)
      rw [length_pairUp] at hrest
      rw [if_pos hl, if_pos hl]
      dsimp only
      rw [hrest, hnode, hnode]
      split_ifs
      · rfl
      · rfl
      · rfl
    · rw [if_neg hl, if_neg hl]

theorem WellFormed.root_eq (h : m.WellFormed env) (hne : m.leaves ≠ []) :
    top (merkleNodeHash env) m.leaves.length (m.leaves.map Leaf.hash) = some (m.root env) := by
  have hne' : m.leaves.map Leaf.hash ≠ [] := by simpa using hne
  have htop := @getLast?_allLevels _ (merkleNodeHash env) _ _ le_rfl hne'
  have hsome := @isSome_top _ (merkleNodeHash env) (m.leaves.map Leaf.hash).length _ hne'
  rw [List.length_map] at htop hsome
  unfold root
  rw [if_neg hne, h.levels, levelsOf, if_neg hne', List.length_map, htop]
  obtain ⟨root, hroot⟩ := Option.isSome_iff_exists.mp hsome
  rw [hroot]

/-- A map's own proof of a key verifies. -/
theorem WellFormed.verifyInclusion_prove {k : PrincipalId} {leaf : Leaf} (h : m.WellFormed env)
    (hfits : m.leaves.length < 2 ^ 64) (hget : m.get k = some leaf) :
    ∃ p, m.prove env k = some p ∧ verifyInclusion env (m.root env) k leaf.canonical p = .ok () := by
  obtain ⟨pos, hpos, hleaf⟩ := Option.bind_eq_some_iff.mp hget
  obtain ⟨before, found, after, hleaves, hlen, hid⟩ := h.split hpos
  obtain rfl : found = leaf := by
    rw [hleaves, ← hlen] at hleaf
    simpa using hleaf
  have hmem : found ∈ m.leaves := by simp [hleaves]
  have hlt : pos < m.leaves.length := by
    rw [hleaves, List.length_append, List.length_cons]
    omega
  have hne : m.leaves ≠ [] := List.ne_nil_of_length_pos (by omega)
  have hne' : m.leaves.map Leaf.hash ≠ [] := by simpa using hne
  have hlevels : m.levels.drop 0 = allLevels (merkleNodeHash env) m.leaves.length (m.leaves.map Leaf.hash) := by
    rw [List.drop_zero, h.levels, levelsOf, if_neg hne', List.length_map]
  have hpath := siblingsFrom_eq (i := pos) hlevels fun _ => rfl
  rw [List.length_map] at hpath
  have hcount : (UInt64.ofNat m.leaves.length).toNat = m.leaves.length := by
    rw [UInt64.toNat_ofNat']
    exact Nat.mod_eq_of_lt hfits
  have hindex : (UInt64.ofNat pos).toNat = pos := by
    rw [UInt64.toNat_ofNat']
    exact Nat.mod_eq_of_lt (by omega)
  refine ⟨⟨UInt64.ofNat m.leaves.length, UInt64.ofNat pos, pathOf env m.leaves.length (m.leaves.map Leaf.hash) pos⟩, ?_, ?_⟩
  · simp only [prove, hpos, Option.bind_eq_bind, Option.bind_some]
    rw [if_pos ⟨hfits, by omega⟩, hpath]
    rfl
  · have hkeyed := (h.leaves found hmem).keyed
    obtain ⟨record, hrecord, hkey⟩ := bind_eq_ok_iff.mp hkeyed
    split_ifs at hkey with hmember
    -- the proof has the shape that the verifier derives from its count and index
    have hshape : validateInclusionStructure ⟨UInt64.ofNat m.leaves.length, UInt64.ofNat pos,
        pathOf env m.leaves.length (m.leaves.map Leaf.hash) pos⟩ = .ok () := by
      have hcountEq := @siblingCountLoop_eq env (m.leaves.map Leaf.hash) m.leaves.length pos 0
      have hsides := @validateSides_pathOf env (m.leaves.map Leaf.hash) m.leaves.length pos (by simp)
      have hshort := @length_pathOf_le env (m.leaves.map Leaf.hash) m.leaves.length pos 64 (by simpa using hfits.le)
      rw [List.length_map] at hcountEq hsides
      unfold validateInclusionStructure expectedSiblingCount
      dsimp only
      rw [hcount, hindex, if_neg (show m.leaves.length ≠ 0 by omega), hcountEq, hsides]
      refine if_neg ?_
      simp only [maxLevels]
      omega
    have hacc : (m.leaves.map Leaf.hash)[pos]? = some (memberLeafHash env found.canonical) := by
      rw [List.getElem?_map, hleaf, ← (h.leaves found hmem).hash]
      rfl
    have hclimb := climb_pathOf (by simp) (by simpa using hlt) hacc (h.root_eq hne)
    rw [List.length_map] at hclimb
    have hmember' : record.memberId = k := hmember.trans hid
    simp only [verifyInclusion, hrecord, hmember', ne_eq, not_true_eq_false, if_false, hshape, hcount, hindex, hclimb]
    exact if_pos rfl

end SortedMerkleMap

/-! ### Soundness -/

variable (env) in
/-- The hash of the member tree. -/
def framing : Framing Bytes Digest Bytes where
  hash word := ⟨env.blake3 word⟩
  leafWord canonical := contextBytes Domain.memberLeaf ++ canonical
  nodeWord x y := contextBytes Domain.merkleNode ++ (x.asBytes ++ y.asBytes)
  leafWord_inj _ _ h := List.append_cancel_left h
  nodeWord_inj x y x' y' h := by
    have hbytes := List.append_cancel_left h
    have hlen : x.asBytes.length = x'.asBytes.length := by rw [Id.length_asBytes, Id.length_asBytes]
    obtain ⟨hx, hy⟩ := List.append_inj hbytes hlen
    exact ⟨Id.asBytes_injective hx, Id.asBytes_injective hy⟩
  leaf_ne_node canonical x y h := by
    -- the two contexts already differ within the length of the shorter one
    have htake := congrArg (List.take 17) h
    rw [List.take_append_of_le_length (by decide), List.take_append_of_le_length (by decide)] at htake
    revert htake
    decide

theorem framing_injOn {words : Set Bytes} (h : Set.InjOn env.blake3 words) : Set.InjOn (framing env).hash words := by
  intro x hx y hy hxy
  exact h hx hy (Id.mk.inj hxy)

def emptyWord : Bytes := contextBytes Domain.merkleNode ++ [0x40]

/-- A proof's steps as the framing has them. -/
def ProofStep.toPair (step : ProofStep) : Bool × Digest := (decide (step.side = .left), step.hash)

variable (env) in
/-- The words hashed to verify a proof of a record. -/
def InclusionProof.words (p : InclusionProof) (canonical : Bytes) : Set Bytes :=
  insert ((framing env).leafWord canonical)
    ((framing env).climbWords ((framing env).leafHash canonical) (p.siblings.map ProofStep.toPair))

variable (env) in
/-- The words hashed for the root over a list of records. -/
def treeWords (records : List Bytes) : Set Bytes :=
  match tree records with
  | some t => (framing env).words t
  | none => {emptyWord}

variable (env) in
/-- The words hashed for the root of a map. -/
def SortedMerkleMap.words (m : SortedMerkleMap) : Set Bytes := treeWords env (m.leaves.map Leaf.canonical)

theorem ProofStep.above_eq (acc : Digest) (step : ProofStep) : step.above env acc = (framing env).step acc step.toPair := by
  obtain ⟨side, hash⟩ := step
  cases side <;> rfl

/-- Whatever shape the verifier checks on the way, the value it ends with is that of the steps. -/
theorem climb_eq_ok {fuel count i : Nat} {acc r : Digest} {steps : List ProofStep}
    (h : climb env fuel count i acc steps = .ok r) : r = (framing env).climb acc (steps.map ProofStep.toPair) := by
  induction fuel generalizing count i acc steps with
  | zero =>
    rw [climb] at h
    split_ifs at h with hsteps
    obtain rfl := not_not.mp hsteps
    exact (Except.ok.inj h).symm
  | succ fuel ih =>
    unfold climb at h
    dsimp only at h
    by_cases hcount : count > 1
    · rw [if_pos hcount] at h
      generalize (if i % 2 = 1 then true else decide (i + 1 < count)) = paired at h
      cases paired with
      | false => exact ih h
      | true =>
        rw [if_pos rfl] at h
        cases steps with
        | nil => cases h
        | cons step steps =>
          dsimp only at h
          generalize (if i % 2 = 1 then SiblingSide.left else .right) = side at h
          by_cases hside : step.side = side
          · rw [if_neg (not_not.mpr hside)] at h
            rw [ih h, ProofStep.above_eq]
            rfl
          · rw [if_pos hside] at h
            cases h
    · rw [if_neg hcount] at h
      split_ifs at h with hsteps
      obtain rfl := not_not.mp hsteps
      exact (Except.ok.inj h).symm

theorem verifyInclusion_eq_ok {root : Digest} {k : PrincipalId} {canonical : Bytes} {p : InclusionProof}
    (h : verifyInclusion env root k canonical p = .ok ()) :
    validateKeyedRecord k canonical = .ok () ∧
      (framing env).climb ((framing env).leafHash canonical) (p.siblings.map ProofStep.toPair) = root := by
  unfold verifyInclusion at h
  cases hrecord : ProjectedMemberRecord.fromBytes canonical with
  | error e =>
    rw [hrecord] at h
    cases h
  | ok record =>
    rw [hrecord] at h
    dsimp only at h
    split_ifs at h with hmember
    obtain ⟨_, -, h⟩ := bind_eq_ok_iff.mp h
    obtain ⟨acc, hacc, h⟩ := bind_eq_ok_iff.mp h
    split_ifs at h with hroot
    refine ⟨?_, (climb_eq_ok hacc).symm.trans hroot⟩
    rw [validateKeyedRecord, hrecord]
    exact if_pos (not_not.mp hmember)

/-- Neither a record nor two nodes are hashed for the root of an empty map. -/
theorem framed_ne_empty {word : Bytes} (h : (framing env).Framed word) : word ≠ emptyWord := by
  rcases h with ⟨canonical, rfl⟩ | ⟨x, y, rfl⟩
  · intro h
    have htake := congrArg (List.take 17) h
    change (contextBytes Domain.memberLeaf ++ canonical).take 17 = _ at htake
    rw [List.take_append_of_le_length (by decide)] at htake
    revert htake
    decide
  · intro h
    have hlen := congrArg List.length (List.append_cancel_left h)
    simp [Id.length_asBytes] at hlen

namespace SortedMerkleMap

variable {m : SortedMerkleMap}

theorem WellFormed.get_of_mem (h : m.WellFormed env) {leaf : Leaf} (hleaf : leaf ∈ m.leaves) :
    m.get leaf.memberId = some leaf := by
  obtain ⟨pos, hpos⟩ := Option.isSome_iff_exists.mp (h.mem_index.mpr ⟨leaf, hleaf, rfl⟩)
  obtain ⟨before, found, after, hleaves, hlen, hid⟩ := h.split hpos
  have hget : m.leaves[pos]? = some found := by
    rw [hleaves, ← hlen]
    simp
  have hfound : found ∈ m.leaves := by simp [hleaves]
  obtain rfl : found = leaf := List.inj_on_of_nodup_map (nodup_of_sorted h.sorted) hfound hleaf hid
  simp [get, hpos, hget]

/-- The root of a map is that of the tree over its records. -/
theorem WellFormed.root_eq_eval {t : MerkleTree.Tree Bytes} (h : m.WellFormed env)
    (ht : tree (m.leaves.map Leaf.canonical) = some t) : m.root env = (framing env).eval t := by
  have hne : m.leaves ≠ [] := by
    rintro hnil
    rw [hnil] at ht
    cases ht
  have hhashes : m.leaves.map Leaf.hash = (m.leaves.map Leaf.canonical).map (framing env).leafHash := by
    rw [List.map_map]
    exact List.map_congr_left fun leaf hleaf => (h.leaves leaf hleaf).hash
  have heval := map_eval_tree (framing env).leafHash (framing env).nodeHash (m.leaves.map Leaf.canonical)
  rw [ht, ← hhashes, List.length_map] at heval
  exact Option.some.inj ((h.root_eq hne).symm.trans heval.symm)

/-- Whatever proof verifies against the root of a map, it is of a record that the map holds under the key. -/
theorem WellFormed.get_of_verifyInclusion {p : InclusionProof} {k : PrincipalId} {canonical : Bytes}
    (h : m.WellFormed env) (hfree : Set.InjOn env.blake3 (m.words env ∪ p.words env canonical))
    (hverify : verifyInclusion env (m.root env) k canonical p = .ok ()) :
    ∃ leaf, m.get k = some leaf ∧ leaf.canonical = canonical := by
  obtain ⟨hkeyed, hclimb⟩ := verifyInclusion_eq_ok hverify
  have hinj := framing_injOn hfree
  unfold words treeWords at hinj
  cases ht : tree (m.leaves.map Leaf.canonical) with
  | none =>
    rw [ht] at hinj
    have hnil : m.leaves = [] := by simpa using eq_nil_of_tree ht
    obtain ⟨word, hword, hframed, hend⟩ := @Framing.exists_word_of_climb _ _ _ (framing env) canonical
      (p.siblings.map ProofStep.toPair)
    have hroot : m.root env = (framing env).hash emptyWord := by
      rw [root, if_pos hnil]
      rfl
    have heq := hinj (.inr hword) (.inl rfl) (hend.symm.trans (hclimb.trans hroot))
    exact absurd heq (framed_ne_empty hframed)
  | some t =>
    rw [ht] at hinj
    have hmem := (Framing.path_of_climb hinj (hclimb.trans (h.root_eq_eval ht))).mem_leaves
    rw [leaves_of_tree ht] at hmem
    obtain ⟨leaf, hleaf, rfl⟩ := List.mem_map.mp hmem
    -- both keys are the one that the record names
    obtain ⟨record, hrecord, hkey⟩ := bind_eq_ok_iff.mp hkeyed
    obtain ⟨record', hrecord', hkey'⟩ := bind_eq_ok_iff.mp (h.leaves leaf hleaf).keyed
    obtain rfl : record = record' := Except.ok.inj (hrecord.symm.trans hrecord')
    split_ifs at hkey with hk
    split_ifs at hkey' with hk'
    refine ⟨leaf, ?_, rfl⟩
    rw [← hk, hk']
    exact h.get_of_mem hleaf

/-- What verifies against the root of a map is what the map holds. -/
theorem verifyInclusion_root (h : Reachable env m) :
    (∀ k leaf, m.get k = some leaf →
      ∃ p, m.prove env k = some p ∧ verifyInclusion env (m.root env) k leaf.canonical p = .ok ()) ∧
    ∀ (p : InclusionProof) (k : PrincipalId) (canonical : Bytes),
      Set.InjOn env.blake3 (m.words env ∪ p.words env canonical) →
      verifyInclusion env (m.root env) k canonical p = .ok () → ∃ leaf, m.get k = some leaf ∧ leaf.canonical = canonical :=
  ⟨fun _ _ hget => h.wellFormed.verifyInclusion_prove h.fits hget, fun _ _ _ hfree hverify =>
    h.wellFormed.get_of_verifyInclusion hfree hverify⟩

end SortedMerkleMap

/-! A tree of three members, the last one promoted. -/

namespace Toy

open SortedMerkleMap

def member (n : Nat) : Bytes := (ProjectedMemberRecord.genesisAdmin (Id.ofNat n) "member").canonicalBytes

def leafOf (n : Nat) : Digest := memberLeafHash toyEnv (member n)

def trio : SortedMerkleMap :=
  ((fromRecords toyEnv [(Id.ofNat 3, member 3), (Id.ofNat 1, member 1), (Id.ofNat 2, member 2)]).toOption).getD new

/-- The proof of the second member. -/
def second : InclusionProof := ⟨3, 1, [⟨.left, leafOf 1⟩, ⟨.right, leafOf 3⟩]⟩

def hashed : List Bytes :=
  let node := merkleNodeHash toyEnv (leafOf 1) (leafOf 2)
  [(framing toyEnv).leafWord (member 1), (framing toyEnv).leafWord (member 2), (framing toyEnv).leafWord (member 3),
    (framing toyEnv).nodeWord (leafOf 1) (leafOf 2), (framing toyEnv).nodeWord node (leafOf 3)]

/-- What the tree is found to be, evaluated in one go. -/
theorem trio_computed :
    (fromRecords toyEnv [(Id.ofNat 3, member 3), (Id.ofNat 1, member 1), (Id.ofNat 2, member 2)]).isOk = true ∧
    trio.leaves.map Leaf.canonical = [member 1, member 2, member 3] ∧
    (∀ x ∈ hashed, ∀ y ∈ hashed, toyEnv.blake3 x = toyEnv.blake3 y → x = y) ∧
    verifyInclusion toyEnv (trio.root toyEnv) (Id.ofNat 2) (member 2) second = .ok () := by
  decide +kernel

theorem fromRecords_trio :
    fromRecords toyEnv [(Id.ofNat 3, member 3), (Id.ofNat 1, member 1), (Id.ofNat 2, member 2)] = .ok trio := by
  have hok := trio_computed.1
  unfold trio
  cases h : fromRecords toyEnv [(Id.ofNat 3, member 3), (Id.ofNat 1, member 1), (Id.ofNat 2, member 2)] with
  | error e =>
    rw [h] at hok
    cases hok
  | ok m => rfl

theorem canonical_trio : trio.leaves.map Leaf.canonical = [member 1, member 2, member 3] :=
  trio_computed.2.1

theorem reachable_trio : Reachable toyEnv trio :=
  .fromRecords fromRecords_trio (by rw [← List.length_map Leaf.canonical, canonical_trio]; decide)

theorem words_trio : trio.words toyEnv ∪ second.words toyEnv (member 2) ⊆ {w | w ∈ hashed} := by
  have htree : tree (trio.leaves.map Leaf.canonical) =
      some (.node (.node (.leaf (member 1)) (.leaf (member 2))) (.leaf (member 3))) := by
    rw [canonical_trio]
    rfl
  rw [SortedMerkleMap.words, treeWords, htree]
  have hword : ∀ {i : Nat} {w : Bytes}, hashed[i]? = some w → w ∈ hashed := List.mem_of_getElem?
  rintro w ((rfl | (rfl | rfl | rfl) | rfl) | (rfl | rfl | rfl | h))
  · exact hword (i := 4) rfl
  · exact hword (i := 3) rfl
  · exact hword (i := 0) rfl
  · exact hword (i := 1) rfl
  · exact hword (i := 2) rfl
  · exact hword (i := 1) rfl
  · exact hword (i := 3) rfl
  · exact hword (i := 4) rfl
  · cases h

theorem injOn_hashed : Set.InjOn toyEnv.blake3 {w | w ∈ hashed} :=
  fun x hx y hy => trio_computed.2.2.1 x hx y hy

theorem verifyInclusion_root_second :
    (∃ p, trio.prove toyEnv (Id.ofNat 2) = some p ∧
      verifyInclusion toyEnv (trio.root toyEnv) (Id.ofNat 2) (member 2) p = .ok ()) ∧
    verifyInclusion toyEnv (trio.root toyEnv) (Id.ofNat 2) (member 2) second = .ok () ∧
    ∃ leaf, trio.get (Id.ofNat 2) = some leaf ∧ leaf.canonical = member 2 := by
  have hverify := trio_computed.2.2.2
  have hheld := (verifyInclusion_root reachable_trio).2 second (Id.ofNat 2) (member 2) (injOn_hashed.mono words_trio)
    hverify
  obtain ⟨leaf, hget, hcanonical⟩ := hheld
  exact ⟨hcanonical ▸ (verifyInclusion_root reachable_trio).1 _ leaf hget, hverify, leaf, hget, hcanonical⟩

end Toy

end IrohRooms.Member
