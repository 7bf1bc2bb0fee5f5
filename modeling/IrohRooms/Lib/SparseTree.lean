import Mathlib.Data.List.Basic
import Mathlib.Data.Set.Function

/-!
# Sparse Merkle trees

A complete binary tree over all keys of a fixed number of bits, of which only the set keys are held: a bucket of keys is
split by one bit at every level, and a subtree without keys has the hash that depends on its height alone. The siblings
along the path of a key give back the root from what lies at the end of the path (`root_eq_climb`), and a hash without
collisions on the words of two climbs along the same path makes them start at the same hash with the same siblings
(`climb_inj`).
-/

universe u v w

namespace SparseTree

variable {κ : Type u} {α : Type v} {ω : Type w}

section Tree

-- `side k n`: whether the key lies in the right half of its subtree of height `n + 1`
variable (side : κ → Nat → Bool) (node : α → α → α) (base : α) (leaf : κ → α)

/-- The subtree of a height without keys. -/
def empty : Nat → α
  | 0 => base
  | n + 1 => node (empty n) (empty n)

/-- The subtree of a height over a bucket of keys. -/
def root : Nat → List κ → α
  | 0, [] => base
  | 0, k :: _ => leaf k
  | n + 1, keys =>
    if keys.isEmpty then empty node base (n + 1)
    else node (root n (keys.filter fun k => !side k n)) (root n (keys.filter fun k => side k n))

/-- The siblings along the path of a key, from the top. -/
def path (key : κ) : Nat → List κ → List α
  | 0, _ => []
  | n + 1, keys =>
    root side node base leaf n (keys.filter fun k => side k n != side key n) ::
      path key n (keys.filter fun k => side k n == side key n)

/-- A subtree of height `n` on the path of a key and its sibling, in the order of the tree. -/
def join {β : Type w} (pair : α → α → β) (key : κ) (n : Nat) (acc sibling : α) : β :=
  if side key n then pair sibling acc else pair acc sibling

/-- The hash at the top of a path, given what lies at its end. -/
def climb (key : κ) (start : α) : Nat → List α → α
  | n + 1, sibling :: siblings => join side node key n (climb key start n siblings) sibling
  | _, _ => start

/-- The keys of a bucket that take the same turns as `key` on the last `n` levels. -/
def bucket (key : κ) : Nat → List κ → List κ
  | 0, keys => keys
  | n + 1, keys => bucket key n (keys.filter fun k => side k n == side key n)

variable {side node base leaf}

theorem root_nil (n : Nat) : root side node base leaf n [] = empty node base n := by
  cases n <;> rfl

/-- Every subtree is the node over its halves, also one without keys. -/
theorem root_succ (n : Nat) (keys : List κ) : root side node base leaf (n + 1) keys =
    node (root side node base leaf n (keys.filter fun k => !side k n))
      (root side node base leaf n (keys.filter fun k => side k n)) := by
  cases keys with
  | nil => simp [root, root_nil, empty]
  | cons k keys => rfl

theorem mem_bucket {key k : κ} {n : Nat} {keys : List κ} :
    k ∈ bucket side key n keys ↔ k ∈ keys ∧ ∀ i < n, side k i = side key i := by
  induction n generalizing keys with
  | zero => simp [bucket]
  | succ n ih =>
    rw [bucket, ih, List.mem_filter, beq_iff_eq, and_assoc]
    refine and_congr_right fun _ => ?_
    constructor
    · rintro ⟨htop, hbelow⟩ i hi
      rcases Nat.lt_succ_iff_lt_or_eq.mp hi with hlt | rfl
      · exact hbelow i hlt
      · exact htop
    · exact fun hall => ⟨hall n (Nat.lt_succ_self n), fun i hi => hall i (Nat.lt_succ_of_lt hi)⟩

theorem length_path (key : κ) (n : Nat) (keys : List κ) : (path side node base leaf key n keys).length = n := by
  induction n generalizing keys with
  | zero => rfl
  | succ n ih => rw [path, List.length_cons, ih]

/-- The siblings along a path give back the subtree. -/
theorem root_eq_climb (key : κ) (n : Nat) (keys : List κ) : root side node base leaf n keys =
    climb side node key (root side node base leaf 0 (bucket side key n keys)) n
      (path side node base leaf key n keys) := by
  induction n generalizing keys with
  | zero => rfl
  | succ n ih =>
    rw [root_succ, path, climb, bucket, ← ih, join]
    cases hkey : side key n with
    | false => simp
    | true => simp

end Tree

/-! ### Words -/

section Words

variable {side : κ → Nat → Bool} {node : α → α → α}

variable (side node) in
/-- The words hashed on the way up a path. -/
def climbWords (nodeWord : α → α → ω) (key : κ) (start : α) : Nat → List α → Set ω
  | n + 1, sibling :: siblings =>
    insert (join side nodeWord key n (climb side node key start n siblings) sibling)
      (climbWords nodeWord key start n siblings)
  | _, _ => ∅

theorem join_hash {hash : ω → α} {nodeWord : α → α → ω} (hnode : ∀ l r, node l r = hash (nodeWord l r)) (key : κ)
    (n : Nat) (acc sibling : α) : join side node key n acc sibling = hash (join side nodeWord key n acc sibling) := by
  unfold join
  split_ifs <;> exact hnode _ _

theorem join_inj {nodeWord : α → α → ω} (hword : ∀ l r l' r', nodeWord l r = nodeWord l' r' → l = l' ∧ r = r')
    {key : κ} {n : Nat} {acc sibling acc' sibling' : α}
    (h : join side nodeWord key n acc sibling = join side nodeWord key n acc' sibling') :
    acc = acc' ∧ sibling = sibling' := by
  unfold join at h
  split_ifs at h
  · obtain ⟨hs, ha⟩ := hword _ _ _ _ h
    exact ⟨ha, hs⟩
  · exact hword _ _ _ _ h

/-- Two climbs along one path to the same hash start at the same hash and pass the same siblings. -/
theorem climb_inj {hash : ω → α} {nodeWord : α → α → ω} (hnode : ∀ l r, node l r = hash (nodeWord l r))
    (hword : ∀ l r l' r', nodeWord l r = nodeWord l' r' → l = l' ∧ r = r') {key : κ} {start start' : α} {n : Nat}
    {siblings siblings' : List α} (hlen : siblings.length = n) (hlen' : siblings'.length = n)
    (hfree : Set.InjOn hash (climbWords side node nodeWord key start n siblings ∪
      climbWords side node nodeWord key start' n siblings'))
    (h : climb side node key start n siblings = climb side node key start' n siblings') :
    start = start' ∧ siblings = siblings' := by
  induction n generalizing siblings siblings' with
  | zero =>
    rw [List.length_eq_zero_iff] at hlen hlen'
    subst hlen hlen'
    exact ⟨h, rfl⟩
  | succ n ih =>
    obtain ⟨s, siblings, rfl⟩ := List.exists_cons_of_length_eq_add_one hlen
    obtain ⟨s', siblings', rfl⟩ := List.exists_cons_of_length_eq_add_one hlen'
    rw [climb, climb, join_hash hnode, join_hash hnode] at h
    have htop := hfree (Or.inl (Set.mem_insert _ _)) (Or.inr (Set.mem_insert _ _)) h
    obtain ⟨hacc, rfl⟩ := join_inj hword htop
    have hbelow := hfree.mono (Set.union_subset_union (Set.subset_insert _ _) (Set.subset_insert _ _))
    obtain ⟨hstart, rfl⟩ := ih (Nat.succ.inj hlen) (Nat.succ.inj hlen') hbelow hacc
    exact ⟨hstart, rfl⟩

end Words

end SparseTree
