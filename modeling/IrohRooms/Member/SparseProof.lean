import IrohRooms.Event.Build
import IrohRooms.Member.Sparse

/-!
# Proofs of the sparse Merkle map

The map's functions are those of the sparse tree at the bits of a key. At the end of a key's path lies its stored leaf,
or the empty hash; the siblings that the map hands out give back its root, and a proof that verifies has these siblings
and starts at this hash. So a proof without a leaf is right about an absent key. A proof with a leaf is right only if the
leaf is not the empty hash itself: `verify` does not tell that hash from a leaf.
-/

namespace IrohRooms.Member.Sparse

open Governance (Id Digest Reject blake3Domain)

variable {env : Env}

/-- Whether a key lies in the right half of its subtree of height `height + 1`. -/
def side (key : Key) (height : Nat) : Bool := bit key (depth - 1 - height)

theorem emptyTable_eq (height : Nat) : emptyTable env height = SparseTree.empty (nodeHash env) (emptyBase env) height := by
  induction height with
  | zero => rfl
  | succ height ih => rw [emptyTable, SparseTree.empty, ih]

/-- Keys with the same bits are equal. -/
theorem eq_of_side {k key : Key} (h : ∀ i < depth, side k i = side key i) : k = key := by
  obtain ⟨x⟩ := k
  obtain ⟨y⟩ := key
  refine congrArg Id.mk (BitVec.eq_of_getMsbD_eq fun i hi => ?_)
  have hbit := h (depth - 1 - i) (by unfold depth; omega)
  have hindex : depth - 1 - (depth - 1 - i) = i := by unfold depth; omega
  unfold side bit at hbit
  rwa [hindex] at hbit

namespace MerkleMap

variable (env) in
/-- What lies at the end of a key's path. -/
def leafAt (m : MerkleMap) (key : Key) : Hash := (m.get key).getD (emptyBase env)

theorem recurseRoot_eq (m : MerkleMap) (height : Nat) (keys : List Key) : m.recurseRoot env height keys =
    SparseTree.root side (nodeHash env) (emptyBase env) (m.leafAt env) height keys := by
  induction height generalizing keys with
  | zero =>
    cases keys with
    | nil => rfl
    | cons key keys => rfl
  | succ height ih =>
    rw [recurseRoot, SparseTree.root, ih, ih, emptyTable_eq]
    rfl

theorem siblingsFrom_eq (m : MerkleMap) (key : Key) (height : Nat) (keys : List Key) :
    m.siblingsFrom env key height keys =
      SparseTree.path side (nodeHash env) (emptyBase env) (m.leafAt env) key height keys := by
  induction height generalizing keys with
  | zero => rfl
  | succ height ih =>
    rw [siblingsFrom, SparseTree.path, ih, recurseRoot_eq]
    rfl

theorem length_siblingPath (m : MerkleMap) (key : Key) : (m.siblingPath env key).length = depth := by
  rw [siblingPath, siblingsFrom_eq, SparseTree.length_path]

/-- Of the set keys only the key itself shares its whole path. -/
theorem root_bucket (m : MerkleMap) (key : Key) : SparseTree.root side (nodeHash env) (emptyBase env) (m.leafAt env) 0
    (SparseTree.bucket side key depth m.leaves.keys) = m.leafAt env key := by
  have hmem : ∀ k, k ∈ SparseTree.bucket side key depth m.leaves.keys ↔ k ∈ m.leaves.keys ∧ k = key := by
    intro k
    rw [SparseTree.mem_bucket]
    refine and_congr_right fun _ => ⟨eq_of_side, ?_⟩
    rintro rfl
    exact fun _ _ => rfl
  cases hbucket : SparseTree.bucket side key depth m.leaves.keys with
  | nil =>
    have hnone : m.get key = none := by
      cases hget : m.get key with
      | none => rfl
      | some leaf =>
        have hkey : key ∈ m.leaves.keys := OrdMap.mem_keys.mpr (Option.isSome_iff_exists.mpr ⟨leaf, hget⟩)
        have hin := (hmem key).mpr ⟨hkey, rfl⟩
        rw [hbucket] at hin
        cases hin
    rw [leafAt, hnone]
    rfl
  | cons k keys =>
    have hk := ((hmem k).mp (hbucket ▸ List.mem_cons_self)).2
    rw [SparseTree.root, hk]

end MerkleMap

namespace Proof

theorem reconstruct_eq (key : Key) (start : Hash) (height : Nat) (siblings : List Hash) :
    reconstruct env key start height siblings = SparseTree.climb side (nodeHash env) key start height siblings := by
  induction height generalizing siblings with
  | zero => cases siblings <;> rfl
  | succ height ih =>
    cases siblings with
    | nil => rfl
    | cons sibling siblings =>
      rw [reconstruct, SparseTree.climb, ih]
      rfl

variable (env) in
/-- The hash that a proof puts at the end of its path. -/
def start (p : Proof) : Hash := p.leaf.getD (emptyBase env)

theorem verify_eq_ok {p : Proof} {root : MerkleRoot} {requireInclusion : Bool} :
    p.verify env root requireInclusion = .ok () ↔ p.siblings.length = depth ∧
      (requireInclusion = true → p.leaf ≠ none) ∧ reconstruct env p.key (p.start env) depth p.siblings = root := by
  unfold verify start
  by_cases hlen : p.siblings.length = depth
  · rw [if_neg (not_not.mpr hlen)]
    cases hleaf : p.leaf with
    | none =>
      cases requireInclusion with
      | true => simp
      | false =>
        have hbase : emptyTable env 0 = emptyBase env := rfl
        rw [hbase]
        simp [hlen]
    | some h => simp [hlen]
  · simp [hlen]

end Proof

/-- The siblings along a key's path give back the root from what lies at its end. -/
theorem MerkleMap.root_eq_reconstruct (m : MerkleMap) (key : Key) :
    m.root env = Proof.reconstruct env key (m.leafAt env key) depth (m.siblingPath env key) := by
  rw [root, recurseRoot_eq, SparseTree.root_eq_climb key, root_bucket, Proof.reconstruct_eq, siblingPath, siblingsFrom_eq]

/-! ### Words -/

variable (env) in
def hashOf (word : Bytes) : Hash := ⟨env.blake3 word⟩

def emptyWord : Bytes := contextBytes Domain.merkleEmpty ++ beBytes 8 depth

def leafWord (key : Key) (valueHash : Hash) : Bytes :=
  contextBytes Governance.Domain.memberLeaf ++ (key.asBytes ++ valueHash.asBytes)

def nodeWord (left right : Hash) : Bytes := contextBytes Governance.Domain.merkleNode ++ (left.asBytes ++ right.asBytes)

theorem nodeHash_eq (left right : Hash) : nodeHash env left right = hashOf env (nodeWord left right) := rfl

theorem nodeWord_inj (l r l' r' : Hash) (h : nodeWord l r = nodeWord l' r') : l = l' ∧ r = r' := by
  have hbytes := List.append_cancel_left h
  obtain ⟨hl, hr⟩ := List.append_inj hbytes (by rw [Id.length_asBytes, Id.length_asBytes])
  exact ⟨Id.asBytes_injective hl, Id.asBytes_injective hr⟩

theorem leafWord_ne_emptyWord (key : Key) (valueHash : Hash) : leafWord key valueHash ≠ emptyWord := by
  intro h
  have hlen := congrArg List.length h
  simp only [leafWord, emptyWord, List.length_append, Id.length_asBytes] at hlen
  revert hlen
  decide

variable (env) in
/-- The words hashed along the path of a key. -/
def pathWords (key : Key) (start : Hash) (siblings : List Hash) : Set Bytes :=
  SparseTree.climbWords side (nodeHash env) nodeWord key start depth siblings

/-- Two reconstructions of one root along one path are the same. -/
theorem reconstruct_inj {key : Key} {start start' : Hash} {siblings siblings' : List Hash}
    (hlen : siblings.length = depth) (hlen' : siblings'.length = depth)
    (hfree : Set.InjOn env.blake3 (pathWords env key start siblings ∪ pathWords env key start' siblings'))
    (h : Proof.reconstruct env key start depth siblings = Proof.reconstruct env key start' depth siblings') :
    start = start' ∧ siblings = siblings' := by
  rw [Proof.reconstruct_eq, Proof.reconstruct_eq] at h
  have hhash : Set.InjOn (hashOf env) (pathWords env key start siblings ∪ pathWords env key start' siblings') :=
    fun x hx y hy hxy => hfree hx hy (Id.mk.inj hxy)
  exact SparseTree.climb_inj nodeHash_eq nodeWord_inj hlen hlen' hhash h

/-! ### Maps filled with values -/

variable (env) in
/-- The map after a run of `insert_value`. -/
def fromValues (entries : List (Bytes × CborValue)) : MerkleMap :=
  entries.foldl (fun m e => m.insertValue env e.1 e.2) MerkleMap.new

theorem get_foldl_insertValue {entries : List (Bytes × CborValue)} {m : MerkleMap} {key : Key} {leaf : Hash}
    (h : (entries.foldl (fun m e => m.insertValue env e.1 e.2) m).get key = some leaf) :
    m.get key = some leaf ∨ ∃ e ∈ entries, leaf = leafHash env key (valueHash env e.2) := by
  induction entries generalizing m with
  | nil => exact Or.inl h
  | cons e entries ih =>
    rcases ih h with hold | ⟨e', he', hleaf⟩
    · simp only [MerkleMap.get, MerkleMap.insertValue, MerkleMap.insertHash, OrdMap.get?_insert] at hold
      split_ifs at hold with hkey
      · refine Or.inr ⟨e, List.mem_cons_self, ?_⟩
        rw [hkey, Option.some.inj hold]
      · exact Or.inl hold
    · exact Or.inr ⟨e', List.mem_cons_of_mem _ he', hleaf⟩

/-- Every stored leaf is the leaf hash of an inserted value. -/
theorem get_fromValues {entries : List (Bytes × CborValue)} {key : Key} {leaf : Hash}
    (h : (fromValues env entries).get key = some leaf) : ∃ e ∈ entries, leaf = leafHash env key (valueHash env e.2) := by
  rcases get_foldl_insertValue h with hold | hin
  · simp [MerkleMap.get, MerkleMap.new] at hold
  · exact hin

variable (env) in
/-- The words hashed for the values at a key and the empty leaf, and along the key's path in the map and in a proof. -/
def hashedFor (entries : List (Bytes × CborValue)) (p : Proof) : Set Bytes :=
  insert emptyWord ({w | ∃ e ∈ entries, w = leafWord p.key (valueHash env e.2)} ∪
    (pathWords env p.key ((fromValues env entries).leafAt env p.key) ((fromValues env entries).siblingPath env p.key) ∪
      pathWords env p.key (p.start env) p.siblings))

/-- A stored leaf is not the empty hash. -/
theorem get_ne_emptyBase {entries : List (Bytes × CborValue)} {p : Proof}
    (hfree : Set.InjOn env.blake3 (hashedFor env entries p)) :
    (fromValues env entries).get p.key ≠ some (emptyBase env) := by
  intro hget
  obtain ⟨e, he, hleaf⟩ := get_fromValues hget
  have hword := hfree (Set.mem_insert _ _) (Set.mem_insert_of_mem _ (Or.inl ⟨e, he, rfl⟩)) (Id.mk.inj hleaf)
  exact leafWord_ne_emptyWord _ _ hword.symm

/-- A proof verifies against the root of the map exactly if it is the map's own path to what lies at its end. -/
theorem verify_root_iff {entries : List (Bytes × CborValue)} {p : Proof} {requireInclusion : Bool}
    (hfree : Set.InjOn env.blake3 (hashedFor env entries p)) :
    p.verify env ((fromValues env entries).root env) requireInclusion = .ok () ↔
      (requireInclusion = true → p.leaf ≠ none) ∧ p.start env = (fromValues env entries).leafAt env p.key ∧
        p.siblings = (fromValues env entries).siblingPath env p.key := by
  rw [Proof.verify_eq_ok, MerkleMap.root_eq_reconstruct _ p.key]
  constructor
  · rintro ⟨hlen, hleaf, hroot⟩
    have hwords := hfree.mono ((Set.subset_union_right (s := {w | ∃ e ∈ entries,
      w = leafWord p.key (valueHash env e.2)})).trans (Set.subset_insert emptyWord _))
    obtain ⟨hstart, hsiblings⟩ := reconstruct_inj (MerkleMap.length_siblingPath _ p.key) hlen hwords hroot.symm
    exact ⟨hleaf, hstart.symm, hsiblings.symm⟩
  · rintro ⟨hleaf, hstart, hsiblings⟩
    rw [hstart, hsiblings]
    exact ⟨MerkleMap.length_siblingPath _ _, hleaf, rfl⟩

/-! ### Soundness and completeness -/

variable (env) in
/-- The map's own proofs verify, and what `p` proves of the map is so. -/
structure ProofsExact (m : MerkleMap) (p : Proof) : Prop where
  inclusion : ∀ logicalKey, (m.get (mapKey env logicalKey)).isSome →
    ∃ q, m.proveInclusion env logicalKey = some q ∧ q.verify env (m.root env) true = .ok ()
  exclusion : ∀ logicalKey, m.get (mapKey env logicalKey) = none →
    (m.proveExclusion env logicalKey).verify env (m.root env) false = .ok ()
  present : p.verify env (m.root env) true = .ok () → ∃ leaf, p.leaf = some leaf ∧ m.get p.key = some leaf
  absent : p.verify env (m.root env) false = .ok () → p.leaf = none → m.get p.key = none

variable (env) in
/-- The proof gives the empty hash as the leaf of a key that is not set, with the siblings of that key. -/
structure Proof.Vacant (m : MerkleMap) (p : Proof) : Prop where
  leaf : p.leaf = some (emptyBase env)
  unset : m.get p.key = none
  siblings : p.siblings = m.siblingPath env p.key

theorem MerkleMap.proveInclusion_verifies {m : MerkleMap} {logicalKey : Bytes}
    (h : (m.get (mapKey env logicalKey)).isSome) :
    ∃ q, m.proveInclusion env logicalKey = some q ∧ q.verify env (m.root env) true = .ok () := by
  obtain ⟨leaf, hleaf⟩ := Option.isSome_iff_exists.mp h
  refine ⟨⟨mapKey env logicalKey, some leaf, m.siblingPath env (mapKey env logicalKey)⟩, ?_, ?_⟩
  · simp [proveInclusion, hleaf]
  · refine Proof.verify_eq_ok.mpr ⟨length_siblingPath _ _, fun _ => by simp, ?_⟩
    rw [m.root_eq_reconstruct (mapKey env logicalKey), leafAt, hleaf]
    rfl

theorem MerkleMap.proveExclusion_verifies (m : MerkleMap) (logicalKey : Bytes) :
    (m.proveExclusion env logicalKey).verify env (m.root env) false = .ok () := by
  refine Proof.verify_eq_ok.mpr ⟨length_siblingPath _ _, fun hreq => absurd hreq (by decide), ?_⟩
  rw [m.root_eq_reconstruct (mapKey env logicalKey)]
  rfl

/-- Proofs are sound and complete but for the empty hash given as the leaf of an unset key. -/
theorem proofsExact_iff {entries : List (Bytes × CborValue)} {p : Proof}
    (hfree : Set.InjOn env.blake3 (hashedFor env entries p)) :
    ProofsExact env (fromValues env entries) p ↔ ¬ p.Vacant env (fromValues env entries) := by
  constructor
  · rintro hexact ⟨hleaf, hunset, hsiblings⟩
    have hverify : p.verify env ((fromValues env entries).root env) true = .ok () := by
      refine (verify_root_iff hfree).mpr ⟨fun _ => by simp [hleaf], ?_, hsiblings⟩
      rw [Proof.start, hleaf, MerkleMap.leafAt, hunset]
      rfl
    obtain ⟨leaf, -, hget⟩ := hexact.present hverify
    rw [hunset] at hget
    cases hget
  · intro hvacant
    refine ⟨fun _ => MerkleMap.proveInclusion_verifies, fun _ _ => MerkleMap.proveExclusion_verifies _ _, ?_, ?_⟩
    · intro hverify
      obtain ⟨hleaf, hstart, hsiblings⟩ := (verify_root_iff hfree).mp hverify
      obtain ⟨leaf, hsome⟩ := Option.ne_none_iff_exists'.mp (hleaf rfl)
      rw [Proof.start, hsome, Option.getD_some, MerkleMap.leafAt] at hstart
      refine ⟨leaf, hsome, ?_⟩
      cases hget : (fromValues env entries).get p.key with
      | some stored =>
        rw [hget, Option.getD_some] at hstart
        rw [hstart]
      | none =>
        rw [hget, Option.getD_none] at hstart
        exact absurd ⟨hstart ▸ hsome, hget, hsiblings⟩ hvacant
    · intro hverify hnone
      obtain ⟨-, hstart, -⟩ := (verify_root_iff hfree).mp hverify
      rw [Proof.start, hnone, Option.getD_none, MerkleMap.leafAt] at hstart
      cases hget : (fromValues env entries).get p.key with
      | none => rfl
      | some stored =>
        rw [hget, Option.getD_some] at hstart
        exact absurd (hstart ▸ hget) (get_ne_emptyBase hfree)

/-! ### A map with one key

Here a node hashes to one more than the larger of its halves, the empty leaf to `0` and any other word to `1000`: the
hashes grow along a path, so that no two of its words collide. -/

namespace Toy

def heightHash (word : Bytes) : BitVec 256 :=
  if word.take 24 = contextBytes Governance.Domain.merkleNode then
    BitVec.ofNat 256 (max (Cbor.fromBeBytes ((word.drop 24).take 32)) (Cbor.fromBeBytes (word.drop 56)) + 1)
  else if word = emptyWord then 0 else 1000

def heightEnv : Env := { toyEnv with blake3 := heightHash }

theorem fromBeBytes_asBytes (x : Hash) : Cbor.fromBeBytes x.asBytes = x.num := by
  have hlt : x.bits.toNat < 256 ^ 32 := x.bits.isLt
  rw [Id.asBytes, Cbor.fromBeBytes_beBytes, Id.num, Nat.mod_eq_of_lt hlt]

theorem heightHash_nodeWord {l r : Hash} (h : max l.num r.num + 1 < 2 ^ 256) :
    (heightHash (nodeWord l r)).toNat = max l.num r.num + 1 := by
  have hcontext : (contextBytes Governance.Domain.merkleNode).length = 24 := by decide
  have hleft : ((nodeWord l r).drop 24).take 32 = l.asBytes := by
    rw [nodeWord, List.drop_left' hcontext, List.take_left' (Id.length_asBytes l)]
  have hright : (nodeWord l r).drop 56 = r.asBytes := by
    rw [show 56 = 24 + 32 from rfl, ← List.drop_drop, nodeWord, List.drop_left' hcontext,
      List.drop_left' (Id.length_asBytes l)]
  have htake : (nodeWord l r).take 24 = contextBytes Governance.Domain.merkleNode := List.take_left' hcontext
  rw [heightHash, hleft, hright, if_pos htake, fromBeBytes_asBytes, fromBeBytes_asBytes, BitVec.toNat_ofNat,
    Nat.mod_eq_of_lt h]

theorem num_emptyTable {height : Nat} (h : height ≤ 256) : (emptyTable heightEnv height).num = height := by
  induction height with
  | zero => decide
  | succ height ih =>
    have hheight := ih (by omega)
    have hbound : max (emptyTable heightEnv height).num (emptyTable heightEnv height).num + 1 < 2 ^ 256 := by
      rw [hheight, max_self]
      omega
    exact (heightHash_nodeWord hbound).trans (by rw [hheight, max_self])

/-- The siblings of a key's path in a map that holds no other key are empty. -/
theorem num_siblings {m : MerkleMap} {key : Key} {keys : List Key} (hkeys : ∀ k ∈ keys, k = key) {height : Nat}
    (hheight : height ≤ 256) : ∀ s ∈ m.siblingsFrom heightEnv key height keys, s.num ≤ 1000 := by
  induction height generalizing keys with
  | zero => simp [MerkleMap.siblingsFrom]
  | succ height ih =>
    intro s hs
    rw [MerkleMap.siblingsFrom] at hs
    rcases List.mem_cons.mp hs with rfl | hs
    · have hnil : (keys.filter fun k => bit k (depth - 1 - height) != bit key (depth - 1 - height)) = [] := by
        refine List.filter_eq_nil_iff.mpr fun k hk => ?_
        simp [hkeys k hk]
      rw [hnil, MerkleMap.recurseRoot_eq, SparseTree.root_nil, ← emptyTable_eq, num_emptyTable (by omega)]
      omega
    · exact ih (fun k hk => hkeys k (List.mem_filter.mp hk).1) (by omega) s hs

/-- Along a path the hashes grow. -/
theorem pathWords_grow (key : Key) (start : Hash) (hstart : start.num ≤ 1000) {n : Nat} (hn : n ≤ 256)
    {siblings : List Hash} (hsiblings : ∀ s ∈ siblings, s.num ≤ 1000) :
    start.num ≤ (SparseTree.climb side (nodeHash heightEnv) key start n siblings).num ∧
      (SparseTree.climb side (nodeHash heightEnv) key start n siblings).num ≤ 1000 + n ∧
      Set.InjOn heightHash (SparseTree.climbWords side (nodeHash heightEnv) nodeWord key start n siblings) ∧
      ∀ w ∈ SparseTree.climbWords side (nodeHash heightEnv) nodeWord key start n siblings,
        start.num < (heightHash w).toNat ∧
          (heightHash w).toNat ≤ (SparseTree.climb side (nodeHash heightEnv) key start n siblings).num := by
  induction n generalizing siblings with
  | zero => simpa [SparseTree.climb, SparseTree.climbWords] using hstart
  | succ n ih =>
    cases siblings with
    | nil => simpa [SparseTree.climb, SparseTree.climbWords] using by omega
    | cons s siblings =>
      obtain ⟨hlow, hhigh, hinj, hwords⟩ := ih (by omega) fun t ht => hsiblings t (List.mem_cons_of_mem _ ht)
      have hs := hsiblings s List.mem_cons_self
      set acc := SparseTree.climb side (nodeHash heightEnv) key start n siblings with hacc
      have htop : (heightHash (SparseTree.join side nodeWord key n acc s)).toNat = max acc.num s.num + 1 := by
        unfold SparseTree.join
        split_ifs
        · rw [heightHash_nodeWord (by omega), max_comm]
        · exact heightHash_nodeWord (by omega)
      have hclimb : (SparseTree.climb side (nodeHash heightEnv) key start (n + 1) (s :: siblings)).num =
          max acc.num s.num + 1 := by
        rw [SparseTree.climb, ← hacc, SparseTree.join_hash nodeHash_eq]
        exact htop
      refine ⟨by omega, by omega, ?_, fun w hw => ?_⟩
      · rw [SparseTree.climbWords, Set.injOn_insert fun hmem => ?_]
        · refine ⟨hinj, ?_⟩
          rintro ⟨w, hw, heq⟩
          have hbelow := (hwords w hw).2
          rw [heq, htop] at hbelow
          omega
        · have hbelow := (hwords _ hmem).2
          rw [← hacc, htop] at hbelow
          omega
      · rw [hclimb]
        rcases hw with rfl | hw
        · rw [← hacc, htop]
          omega
        · have hbelow := hwords w hw
          omega

def entries : List (Bytes × CborValue) := [([1], .uint 1)]

/-- The map's own proof of its key. -/
def inclusion : Proof :=
  ⟨mapKey heightEnv [1], some (leafHash heightEnv (mapKey heightEnv [1]) (valueHash heightEnv (.uint 1))),
    (fromValues heightEnv entries).siblingPath heightEnv (mapKey heightEnv [1])⟩

/-- The empty hash given as a leaf of the empty map. -/
def vacant : Proof :=
  ⟨Id.ofNat 7, some (emptyBase heightEnv), (fromValues heightEnv []).siblingPath heightEnv (Id.ofNat 7)⟩

theorem heightHash_emptyWord : (heightHash emptyWord).toNat = 0 := by decide

theorem injOn_inclusion : Set.InjOn heightEnv.blake3 (hashedFor heightEnv entries inclusion) := by
  have hleafAt : (fromValues heightEnv entries).leafAt heightEnv inclusion.key = inclusion.start heightEnv := by
    decide
  have hkeys : (fromValues heightEnv entries).leaves.keys = [inclusion.key] := by decide
  have hsiblings : ∀ s ∈ inclusion.siblings, s.num ≤ 1000 := by
    refine num_siblings (fun k hk => ?_) (Nat.le_refl 256)
    rw [hkeys] at hk
    exact List.mem_singleton.mp hk
  have hstart : (inclusion.start heightEnv).num = 1000 := by decide
  have hleafWord : (heightHash (leafWord inclusion.key (valueHash heightEnv (.uint 1)))).toNat = 1000 := by decide
  obtain ⟨-, -, hinj, hgrow⟩ := pathWords_grow inclusion.key (inclusion.start heightEnv) hstart.le (Nat.le_refl 256)
    hsiblings
  have hcases : ∀ w ∈ hashedFor heightEnv entries inclusion, w = emptyWord ∨
      w = leafWord inclusion.key (valueHash heightEnv (.uint 1)) ∨
        w ∈ pathWords heightEnv inclusion.key (inclusion.start heightEnv) inclusion.siblings := by
    rintro w (hempty | ⟨e, he, hleaf⟩ | hmap | hproof)
    · exact Or.inl hempty
    · rw [List.mem_singleton.mp he] at hleaf
      exact Or.inr (Or.inl hleaf)
    · rw [hleafAt] at hmap
      exact Or.inr (Or.inr hmap)
    · exact Or.inr (Or.inr hproof)
  have hempty := heightHash_emptyWord
  intro x hx y hy hxy
  have hnum : (heightHash x).toNat = (heightHash y).toNat := congrArg BitVec.toNat hxy
  rcases hcases x hx with rfl | rfl | hxpath <;> rcases hcases y hy with rfl | rfl | hypath
  · rfl
  · omega
  · have := (hgrow y hypath).1
    omega
  · omega
  · rfl
  · have := (hgrow y hypath).1
    omega
  · have := (hgrow x hxpath).1
    omega
  · have := (hgrow x hxpath).1
    omega
  · exact hinj hxpath hypath hxy

theorem injOn_vacant : Set.InjOn heightEnv.blake3 (hashedFor heightEnv [] vacant) := by
  have hsiblings : ∀ s ∈ vacant.siblings, s.num ≤ 1000 :=
    num_siblings (fun k hk => absurd hk List.not_mem_nil) (Nat.le_refl 256)
  have hstart : (vacant.start heightEnv).num = 0 := by decide
  obtain ⟨-, -, hinj, hgrow⟩ := pathWords_grow vacant.key (vacant.start heightEnv) (by omega) (Nat.le_refl 256) hsiblings
  have hcases : ∀ w ∈ hashedFor heightEnv [] vacant, w = emptyWord ∨
      w ∈ pathWords heightEnv vacant.key (vacant.start heightEnv) vacant.siblings := by
    rintro w (hempty | ⟨e, he, -⟩ | hmap | hproof)
    · exact Or.inl hempty
    · cases he
    · exact Or.inr hmap
    · exact Or.inr hproof
  have hempty := heightHash_emptyWord
  intro x hx y hy hxy
  have hnum : (heightHash x).toNat = (heightHash y).toNat := congrArg BitVec.toNat hxy
  rcases hcases x hx with rfl | hxpath <;> rcases hcases y hy with rfl | hypath
  · rfl
  · have := (hgrow y hypath).1
    omega
  · have := (hgrow x hxpath).1
    omega
  · exact hinj hxpath hypath hxy

theorem proofsExact_inclusion : ProofsExact heightEnv (fromValues heightEnv entries) inclusion := by
  refine (proofsExact_iff injOn_inclusion).mpr fun hvacant => ?_
  have hset : (fromValues heightEnv entries).get inclusion.key ≠ none := by decide
  exact hset hvacant.unset

/-- The empty hash verifies as a leaf of the empty map. -/
theorem vacant_verifies : ¬ ∀ (env : Env) (entries : List (Bytes × CborValue)) (p : Proof),
    Set.InjOn env.blake3 (hashedFor env entries p) → ProofsExact env (fromValues env entries) p := by
  intro hall
  have hverify : vacant.verify heightEnv ((fromValues heightEnv []).root heightEnv) true = .ok () :=
    (verify_root_iff injOn_vacant).mpr ⟨fun _ => by simp [vacant], rfl, rfl⟩
  obtain ⟨leaf, -, hget⟩ := (hall heightEnv [] vacant injOn_vacant).present hverify
  cases hget

end Toy

end IrohRooms.Member.Sparse
