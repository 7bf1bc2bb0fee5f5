import Mathlib.Data.List.Induction
import Mathlib.Data.Set.Function

/-!
# Merkle trees with promoted odd nodes

A level is made from the one below by pairing neighbours from the left; a last node without a neighbour is promoted
unchanged. The levels end in one node, the root. The shape of the tree is a function of the number of leaves, and the
root is the evaluation of that tree, so a hash without collisions on the words it was asked for binds the root to the
leaves, whatever path a proof claims to climb.
-/

universe u v w

namespace MerkleTree

variable {α : Type u} {β : Type v}

/-! ### Levels -/

section Levels

variable (node : α → α → α)

/-- The level above: neighbours paired, an odd last node promoted unchanged. -/
def pairUp : List α → List α
  | a :: b :: l => node a b :: pairUp l
  | l => l

/-- The `j`-th node of the level above. -/
def parentAt (l : List α) (j : Nat) : Option α :=
  match l[2 * j]?, l[2 * j + 1]? with
  | some a, some b => some (node a b)
  | a, _ => a

/-- Every level from the given one up to the root; each level is shorter, so the length is fuel enough. -/
def allLevels : Nat → List α → List (List α)
  | 0, l => [l]
  | n + 1, l => if 1 < l.length then l :: allLevels n (pairUp node l) else [l]

/-- The single node that is left at the end. -/
def top : Nat → List α → Option α
  | _, [] => none
  | _, [a] => some a
  | 0, a :: _ => some a
  | n + 1, l => top n (pairUp node l)

theorem length_pairUp : ∀ l : List α, (pairUp node l).length = l.length / 2 + l.length % 2
  | [] => by simp [pairUp]
  | [_] => by simp [pairUp]
  | _ :: _ :: l => by
    have ih := length_pairUp l
    simp only [pairUp, List.length_cons]
    omega

theorem getElem?_pairUp : ∀ (l : List α) (j : Nat), (pairUp node l)[j]? = parentAt node l j
  | [], j => by simp [pairUp, parentAt]
  | [a], 0 => rfl
  | [a], j + 1 => by simp [pairUp, parentAt]
  | a :: b :: l, 0 => rfl
  | a :: b :: l, j + 1 => by
    have ih := getElem?_pairUp l j
    rw [pairUp, List.getElem?_cons_succ, ih, parentAt, parentAt, show 2 * (j + 1) = 2 * j + 1 + 1 by omega,
      show 2 * j + 1 + 1 + 1 = (2 * j + 1) + 1 + 1 by omega]
    simp only [List.getElem?_cons_succ]

theorem length_pairUp_lt {l : List α} (h : 1 < l.length) : (pairUp node l).length < l.length := by
  rw [length_pairUp]
  omega

theorem pairUp_ne_nil {l : List α} (h : l ≠ []) : pairUp node l ≠ [] := by
  apply List.ne_nil_of_length_pos
  have := List.length_pos_iff.mpr h
  rw [length_pairUp]
  omega

variable {node}

/-- A node depends on its two children only. -/
theorem take_pairUp {l l' : List α} {s : Nat} (h : l.take s = l'.take s) :
    (pairUp node l).take (s / 2) = (pairUp node l').take (s / 2) := by
  refine List.ext_getElem? fun j => ?_
  rw [List.getElem?_take, List.getElem?_take]
  split_ifs with hj
  · have hget : ∀ i < s, l[i]? = l'[i]? := by
      intro i hi
      have := congrArg (fun l => l[i]?) h
      simpa [List.getElem?_take, hi] using this
    rw [getElem?_pairUp, getElem?_pairUp, parentAt, parentAt, hget (2 * j) (by omega), hget (2 * j + 1) (by omega)]
  · rfl

/-- Changing one node changes one node of the level above. -/
theorem getElem?_pairUp_set {l : List α} {i j : Nat} {x : α} (hj : j ≠ i / 2) :
    (pairUp node (l.set i x))[j]? = (pairUp node l)[j]? := by
  rw [getElem?_pairUp, getElem?_pairUp, parentAt, parentAt, List.getElem?_set_ne (by omega),
    List.getElem?_set_ne (by omega)]

theorem allLevels_of_length_le {n : Nat} {l : List α} (h : l.length ≤ 1) : allLevels node n l = [l] := by
  cases n with
  | zero => rfl
  | succ n => rw [allLevels, if_neg (by omega)]

theorem allLevels_head (n : Nat) (l : List α) : ∃ tail, allLevels node n l = l :: tail := by
  cases n with
  | zero => exact ⟨_, rfl⟩
  | succ n =>
    rw [allLevels]
    split_ifs
    · exact ⟨_, rfl⟩
    · exact ⟨_, rfl⟩

theorem top_succ {n : Nat} {l : List α} (h : 1 < l.length) : top node (n + 1) l = top node n (pairUp node l) := by
  match l, h with
  | _ :: _ :: _, _ => rfl

theorem isSome_top (n : Nat) {l : List α} (h : l ≠ []) : (top node n l).isSome := by
  induction n generalizing l with
  | zero =>
    rcases l with _ | ⟨a, _ | ⟨b, l⟩⟩
    · exact absurd rfl h
    · rfl
    · rfl
  | succ n ih =>
    rcases l with _ | ⟨a, _ | ⟨b, l⟩⟩
    · exact absurd rfl h
    · rfl
    · rw [top_succ (by simp)]
      exact ih (pairUp_ne_nil node h)

/-- The last level is the root alone. -/
theorem getLast?_allLevels {n : Nat} {l : List α} (hn : l.length ≤ n) (hne : l ≠ []) :
    ((allLevels node n l).getLast?).bind List.head? = top node n l := by
  induction n generalizing l with
  | zero => exact absurd (List.length_eq_zero_iff.mp (Nat.le_zero.mp hn)) hne
  | succ n ih =>
    by_cases hl : 1 < l.length
    · have hlt := length_pairUp_lt node hl
      have hlast := ih (l := pairUp node l) (by omega) (pairUp_ne_nil node hne)
      have hlevels : allLevels node n (pairUp node l) ≠ [] := by
        obtain ⟨tail, htail⟩ := @allLevels_head _ node n (pairUp node l)
        simp [htail]
      rw [allLevels, if_pos hl, List.getLast?_cons_of_ne_nil hlevels, hlast, top_succ hl]
    · match l, hne with
      | [a], _ => simp [allLevels, top]
      | _ :: _ :: _, _ => simp at hl

end Levels

/-! ### Trees -/

inductive Tree (α : Type u)
  | leaf (a : α)
  | node (left right : Tree α)

namespace Tree

def leaves : Tree α → List α
  | leaf a => [a]
  | node left right => left.leaves ++ right.leaves

def eval (leafValue : α → β) (nodeValue : β → β → β) : Tree α → β
  | leaf a => leafValue a
  | node left right => nodeValue (left.eval leafValue nodeValue) (right.eval leafValue nodeValue)

end Tree

/-- The tree over a list of leaves. -/
def tree (l : List α) : Option (Tree α) := top Tree.node l.length (l.map Tree.leaf)

theorem map_pairUp {nodeA : α → α → α} {nodeB : β → β → β} {f : α → β} (hf : ∀ a b, f (nodeA a b) = nodeB (f a) (f b)) :
    ∀ l : List α, (pairUp nodeA l).map f = pairUp nodeB (l.map f)
  | [] => rfl
  | [_] => by simp [pairUp]
  | a :: b :: l => by
    have ih := map_pairUp hf l
    simp [pairUp, hf, ih]

theorem map_top {nodeA : α → α → α} {nodeB : β → β → β} {f : α → β} (hf : ∀ a b, f (nodeA a b) = nodeB (f a) (f b))
    (n : Nat) (l : List α) : (top nodeA n l).map f = top nodeB n (l.map f) := by
  induction n generalizing l with
  | zero => rcases l with _ | ⟨a, _ | ⟨b, l⟩⟩ <;> rfl
  | succ n ih =>
    rcases l with _ | ⟨a, _ | ⟨b, l⟩⟩
    · rfl
    · rfl
    · rw [top_succ (by simp), top_succ (by simp), ih, map_pairUp hf]

/-- The root is the evaluation of the tree. -/
theorem map_eval_tree (leafValue : α → β) (nodeValue : β → β → β) (l : List α) :
    (tree l).map (Tree.eval leafValue nodeValue) = top nodeValue l.length (l.map leafValue) := by
  rw [tree, map_top fun a b => rfl, List.map_map]
  rfl

theorem flatMap_leaves_pairUp : ∀ l : List (Tree α), (pairUp Tree.node l).flatMap Tree.leaves = l.flatMap Tree.leaves
  | [] => rfl
  | [_] => by simp [pairUp]
  | a :: b :: l => by
    have ih := flatMap_leaves_pairUp l
    simp [pairUp, Tree.leaves, ih]

theorem leaves_of_top {n : Nat} {l : List (Tree α)} {t : Tree α} (hn : l.length ≤ n) (h : top Tree.node n l = some t) :
    t.leaves = l.flatMap Tree.leaves := by
  induction n generalizing l with
  | zero =>
    rw [List.length_eq_zero_iff.mp (Nat.le_zero.mp hn)] at h
    cases h
  | succ n ih =>
    rcases l with _ | ⟨a, _ | ⟨b, l⟩⟩
    · cases h
    · cases h
      simp
    · have hlt := length_pairUp_lt Tree.node (l := a :: b :: l) (by simp)
      rw [top_succ (by simp)] at h
      rw [ih (by omega) h, flatMap_leaves_pairUp]

theorem leaves_of_tree {l : List α} {t : Tree α} (h : tree l = some t) : t.leaves = l := by
  rw [leaves_of_top (by simp) h, List.flatMap_map]
  simp [Tree.leaves]

theorem isSome_tree {l : List α} (h : l ≠ []) : (tree l).isSome := isSome_top _ (by simpa using h)

theorem eq_nil_of_tree {l : List α} (h : tree l = none) : l = [] := by
  by_contra hne
  have hsome := isSome_tree hne
  rw [h] at hsome
  cases hsome

/-! ### Binding -/

/-- A hash of framed leaves and nodes: the words hashed for leaves and for nodes are told apart, and each determines
what it frames. -/
structure Framing (α : Type u) (β : Type v) (γ : Type w) where
  hash : γ → β
  leafWord : α → γ
  nodeWord : β → β → γ
  leafWord_inj : ∀ a a', leafWord a = leafWord a' → a = a'
  nodeWord_inj : ∀ x y x' y', nodeWord x y = nodeWord x' y' → x = x' ∧ y = y'
  leaf_ne_node : ∀ a x y, leafWord a ≠ nodeWord x y

namespace Framing

variable {γ : Type w} (F : Framing α β γ)

def leafHash (a : α) : β := F.hash (F.leafWord a)

def nodeHash (x y : β) : β := F.hash (F.nodeWord x y)

def eval (t : Tree α) : β := t.eval F.leafHash F.nodeHash

/-- The words hashed for a tree. -/
def words : Tree α → Set γ
  | .leaf a => {F.leafWord a}
  | .node left right => insert (F.nodeWord (F.eval left) (F.eval right)) (words left ∪ words right)

/-- The words hashed on the way up from a value, a step telling the sibling and whether it stands on the left. -/
def climbWords : β → List (Bool × β) → Set γ
  | _, [] => ∅
  | acc, (true, x) :: steps => insert (F.nodeWord x acc) (climbWords (F.nodeHash x acc) steps)
  | acc, (false, x) :: steps => insert (F.nodeWord acc x) (climbWords (F.nodeHash acc x) steps)

def step (acc : β) : Bool × β → β
  | (true, x) => F.nodeHash x acc
  | (false, x) => F.nodeHash acc x

/-- The value reached by the steps. -/
def climb (acc : β) (steps : List (Bool × β)) : β := steps.foldl F.step acc

/-- The words of leaves and of nodes. -/
def Framed (w : γ) : Prop := (∃ a, w = F.leafWord a) ∨ ∃ x y, w = F.nodeWord x y

variable {F}

theorem exists_word_of_eval (t : Tree α) : ∃ w ∈ F.words t, F.Framed w ∧ F.eval t = F.hash w := by
  cases t with
  | leaf a => exact ⟨_, rfl, .inl ⟨a, rfl⟩, rfl⟩
  | node left right => exact ⟨_, .inl rfl, .inr ⟨_, _, rfl⟩, rfl⟩

/-- A climb from a leaf ends in the hash of one of the words on the way. -/
theorem exists_word_of_climb (a : α) (steps : List (Bool × β)) :
    ∃ w ∈ insert (F.leafWord a) (F.climbWords (F.leafHash a) steps), F.Framed w ∧
      F.climb (F.leafHash a) steps = F.hash w := by
  have hsteps : ∀ acc, F.climb acc steps = acc ∨
      ∃ x y, F.nodeWord x y ∈ F.climbWords acc steps ∧ F.climb acc steps = F.nodeHash x y := by
    induction steps with
    | nil => exact fun acc => .inl rfl
    | cons s steps ih =>
      intro acc
      obtain ⟨left, z⟩ := s
      cases left with
      | true =>
        rcases ih (F.nodeHash z acc) with h | ⟨x, y, hmem, h⟩
        · exact .inr ⟨z, acc, .inl rfl, h⟩
        · exact .inr ⟨x, y, .inr hmem, h⟩
      | false =>
        rcases ih (F.nodeHash acc z) with h | ⟨x, y, hmem, h⟩
        · exact .inr ⟨acc, z, .inl rfl, h⟩
        · exact .inr ⟨x, y, .inr hmem, h⟩
  rcases hsteps (F.leafHash a) with h | ⟨x, y, hmem, h⟩
  · exact ⟨_, .inl rfl, .inl ⟨a, rfl⟩, h⟩
  · exact ⟨_, .inr hmem, .inr ⟨x, y, rfl⟩, h⟩

/-- Without collisions a root determines its tree. -/
theorem eval_inj {t t' : Tree α} (hfree : Set.InjOn F.hash (F.words t ∪ F.words t')) (h : F.eval t = F.eval t') :
    t = t' := by
  induction t generalizing t' with
  | leaf a =>
    cases t' with
    | leaf a' =>
      have hword := hfree (.inl rfl) (.inr rfl) h
      rw [F.leafWord_inj a a' hword]
    | node left right =>
      exact absurd (hfree (.inl rfl) (.inr (.inl rfl)) h) (F.leaf_ne_node _ _ _)
  | node left right ihl ihr =>
    cases t' with
    | leaf a' =>
      exact absurd (hfree (.inl (.inl rfl)) (.inr rfl) h).symm (F.leaf_ne_node _ _ _)
    | node left' right' =>
      obtain ⟨hl, hr⟩ := F.nodeWord_inj _ _ _ _ (hfree (.inl (.inl rfl)) (.inr (.inl rfl)) h)
      have hsubl : F.words left ∪ F.words left' ⊆ F.words (.node left right) ∪ F.words (.node left' right') :=
        Set.union_subset_union (fun x hx => .inr (.inl hx)) fun x hx => .inr (.inl hx)
      have hsubr : F.words right ∪ F.words right' ⊆ F.words (.node left right) ∪ F.words (.node left' right') :=
        Set.union_subset_union (fun x hx => .inr (.inr hx)) fun x hx => .inr (.inr hx)
      rw [ihl (hfree.mono hsubl) hl, ihr (hfree.mono hsubr) hr]

/-! ### Paths -/

variable (F) in
/-- The siblings on the way from a leaf of a tree up to its root. -/
inductive Path : Tree α → α → List (Bool × β) → Prop
  | leaf (a : α) : Path (.leaf a) a []
  | left {l r : Tree α} {a : α} {steps : List (Bool × β)} (h : Path l a steps) :
      Path (.node l r) a (steps ++ [(false, F.eval r)])
  | right {l r : Tree α} {a : α} {steps : List (Bool × β)} (h : Path r a steps) :
      Path (.node l r) a (steps ++ [(true, F.eval l)])

theorem climb_append (acc : β) (steps : List (Bool × β)) (s : Bool × β) :
    F.climb acc (steps ++ [s]) = F.step (F.climb acc steps) s := by
  rw [climb, List.foldl_append]
  rfl

theorem climbWords_append (steps : List (Bool × β)) (acc : β) (s : Bool × β) :
    F.climbWords acc (steps ++ [s]) = F.climbWords acc steps ∪ F.climbWords (F.climb acc steps) [s] := by
  induction steps generalizing acc with
  | nil => exact (Set.empty_union _).symm
  | cons s' steps ih =>
    obtain ⟨left, x⟩ := s'
    cases left with
    | true =>
      rw [List.cons_append, climbWords, climbWords, ih, Set.insert_union]
      rfl
    | false =>
      rw [List.cons_append, climbWords, climbWords, ih, Set.insert_union]
      rfl

theorem Path.climb_eq {t : Tree α} {a : α} {steps : List (Bool × β)} (h : F.Path t a steps) :
    F.climb (F.leafHash a) steps = F.eval t := by
  induction h with
  | leaf a => rfl
  | left h ih =>
    rw [climb_append, ih]
    rfl
  | right h ih =>
    rw [climb_append, ih]
    rfl

/-- Climbing a path hashes words of the tree only. -/
theorem Path.words_subset {t : Tree α} {a : α} {steps : List (Bool × β)} (h : F.Path t a steps) :
    insert (F.leafWord a) (F.climbWords (F.leafHash a) steps) ⊆ F.words t := by
  induction h with
  | leaf a => exact Set.insert_subset rfl (Set.empty_subset _)
  | left h ih =>
    rw [climbWords_append, ← Set.insert_union, h.climb_eq]
    refine Set.union_subset (fun w hw => .inr (.inl (ih hw))) (Set.insert_subset (.inl rfl) (Set.empty_subset _))
  | right h ih =>
    rw [climbWords_append, ← Set.insert_union, h.climb_eq]
    refine Set.union_subset (fun w hw => .inr (.inr (ih hw))) (Set.insert_subset (.inl rfl) (Set.empty_subset _))

/-- Without collisions the steps that lead to the root are those of a path in the tree. -/
theorem path_of_climb {t : Tree α} {a : α} {steps : List (Bool × β)}
    (hfree : Set.InjOn F.hash (F.words t ∪ insert (F.leafWord a) (F.climbWords (F.leafHash a) steps)))
    (h : F.climb (F.leafHash a) steps = F.eval t) : F.Path t a steps := by
  induction t generalizing steps with
  | leaf b =>
    rcases List.eq_nil_or_concat steps with rfl | ⟨steps, ⟨left, x⟩, rfl⟩
    · have hword := hfree (.inr (.inl rfl)) (.inl rfl) h
      rw [F.leafWord_inj a b hword]
      exact .leaf b
    · rw [List.concat_eq_append] at h hfree ⊢
      rw [climb_append] at h
      rw [climbWords_append] at hfree
      cases left with
      | true => exact absurd (hfree (.inr (.inr (.inr (.inl rfl)))) (.inl rfl) h).symm (F.leaf_ne_node _ _ _)
      | false => exact absurd (hfree (.inr (.inr (.inr (.inl rfl)))) (.inl rfl) h).symm (F.leaf_ne_node _ _ _)
  | node l r ihl ihr =>
    rcases List.eq_nil_or_concat steps with rfl | ⟨steps, ⟨left, x⟩, rfl⟩
    · exact absurd (hfree (.inr (.inl rfl)) (.inl (.inl rfl)) h) (F.leaf_ne_node _ _ _)
    · rw [List.concat_eq_append] at h hfree ⊢
      rw [climb_append] at h
      rw [climbWords_append] at hfree
      have hsub : ∀ t', F.words t' ⊆ F.words (.node l r) →
          Set.InjOn F.hash (F.words t' ∪ insert (F.leafWord a) (F.climbWords (F.leafHash a) steps)) := by
        intro t' ht'
        refine hfree.mono (Set.union_subset_union ht' ?_)
        exact Set.insert_subset_insert Set.subset_union_left
      cases left with
      | true =>
        obtain ⟨hl, hr⟩ := F.nodeWord_inj _ _ _ _ (hfree (.inr (.inr (.inr (.inl rfl)))) (.inl (.inl rfl)) h)
        rw [hl]
        exact .right (ihr (hsub r fun w hw => .inr (.inr hw)) hr)
      | false =>
        obtain ⟨hl, hr⟩ := F.nodeWord_inj _ _ _ _ (hfree (.inr (.inr (.inr (.inl rfl)))) (.inl (.inl rfl)) h)
        rw [hr]
        exact .left (ihl (hsub l fun w hw => .inr (.inl hw)) hl)

theorem Path.of_leaf {a b : α} {steps : List (Bool × β)} (h : F.Path (.leaf b) a steps) : a = b ∧ steps = [] := by
  cases h with
  | leaf => exact ⟨rfl, rfl⟩

theorem Path.of_pair {a b c : α} {steps : List (Bool × β)} (h : F.Path (.node (.leaf a) (.leaf b)) c steps) :
    c = a ∧ steps = [(false, F.leafHash b)] ∨ c = b ∧ steps = [(true, F.leafHash a)] := by
  cases h with
  | left h =>
    obtain ⟨rfl, rfl⟩ := h.of_leaf
    exact Or.inl ⟨rfl, rfl⟩
  | right h =>
    obtain ⟨rfl, rfl⟩ := h.of_leaf
    exact Or.inr ⟨rfl, rfl⟩

theorem Path.mem_leaves {t : Tree α} {a : α} {steps : List (Bool × β)} (h : F.Path t a steps) : a ∈ t.leaves := by
  induction h with
  | leaf a => exact List.mem_singleton.mpr rfl
  | left _ ih => exact List.mem_append_left _ ih
  | right _ ih => exact List.mem_append_right _ ih

end Framing

end MerkleTree
