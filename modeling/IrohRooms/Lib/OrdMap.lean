import Mathlib.Data.List.Sort
import Mathlib.Algebra.Order.Ring.Nat

/-!
# Ordered maps and sets

`OrdMap κ ν` is a finite map kept as the list of its entries in strictly ascending key order, the
iteration order of a B-tree map. The order is a field, so two maps with the same lookups are equal
(`OrdMap.ext_get?`), and a fold over the entries depends on the lookups alone.
`OrdSet κ` is the map with trivial values.
-/

universe u v w

/-- A finite map whose entries are listed in strictly ascending key order. -/
structure OrdMap (κ : Type u) (ν : Type v) [LinearOrder κ] where
  entries : List (κ × ν)
  sorted : entries.Pairwise fun a b => a.1 < b.1

namespace OrdMap

variable {κ : Type u} {ν : Type v} {ν' : Type w} [LinearOrder κ]

instance [DecidableEq ν] : DecidableEq (OrdMap κ ν) := fun m m' =>
  decidable_of_iff (m.entries = m'.entries) (by cases m; cases m'; simp)

def empty : OrdMap κ ν := ⟨[], List.Pairwise.nil⟩

instance : Inhabited (OrdMap κ ν) := ⟨empty⟩

def get? (m : OrdMap κ ν) (k : κ) : Option ν := m.entries.lookup k

def contains (m : OrdMap κ ν) (k : κ) : Bool := (m.get? k).isSome

/-- The keys, ascending. -/
def keys (m : OrdMap κ ν) : List κ := m.entries.map Prod.fst

/-- The values, in ascending key order. -/
def values (m : OrdMap κ ν) : List ν := m.entries.map Prod.snd

/-- Insertion into an ascending entry list, replacing the value of an equal key. -/
def insertEntry (k : κ) (x : ν) : List (κ × ν) → List (κ × ν)
  | [] => [(k, x)]
  | e :: l => if k < e.1 then (k, x) :: e :: l else if k = e.1 then (k, x) :: l else e :: insertEntry k x l

theorem lt_of_mem_insertEntry {k b : κ} {x : ν} {l : List (κ × ν)} (hk : b < k)
    (hl : ∀ e ∈ l, b < e.1) : ∀ e ∈ insertEntry k x l, b < e.1 := by
  induction l with
  | nil => simpa [insertEntry] using hk
  | cons e l ih =>
    have hl' : ∀ e ∈ l, b < e.1 := fun e' h => hl e' (List.mem_cons_of_mem _ h)
    intro y hy
    simp only [insertEntry] at hy
    split_ifs at hy
    · rcases List.mem_cons.mp hy with rfl | hy
      · exact hk
      · exact hl y hy
    · rcases List.mem_cons.mp hy with rfl | hy
      · exact hk
      · exact hl' y hy
    · rcases List.mem_cons.mp hy with rfl | hy
      · exact hl _ List.mem_cons_self
      · exact ih hl' y hy

theorem insertEntry_sorted (k : κ) (x : ν) {l : List (κ × ν)} (h : l.Pairwise fun a b => a.1 < b.1) :
    (insertEntry k x l).Pairwise fun a b => a.1 < b.1 := by
  induction l with
  | nil => simp [insertEntry]
  | cons e l ih =>
    obtain ⟨he, hl⟩ := List.pairwise_cons.mp h
    simp only [insertEntry]
    split_ifs with hlt heq
    · refine List.pairwise_cons.mpr ⟨fun y hy => ?_, h⟩
      rcases List.mem_cons.mp hy with rfl | hy
      · exact hlt
      · exact hlt.trans (he y hy)
    · exact List.pairwise_cons.mpr ⟨fun y hy => heq ▸ he y hy, hl⟩
    · have hgt : e.1 < k := lt_of_le_of_ne (not_lt.mp hlt) (Ne.symm heq)
      exact List.pairwise_cons.mpr ⟨lt_of_mem_insertEntry hgt he, ih hl⟩

def insert (m : OrdMap κ ν) (k : κ) (x : ν) : OrdMap κ ν :=
  ⟨insertEntry k x m.entries, insertEntry_sorted k x m.sorted⟩

def erase (m : OrdMap κ ν) (k : κ) : OrdMap κ ν :=
  ⟨m.entries.filter fun e => decide (e.1 ≠ k), m.sorted.filter _⟩

def mapValues (f : ν → ν') (m : OrdMap κ ν) : OrdMap κ ν' :=
  ⟨m.entries.map fun e => (e.1, f e.2), by
    rw [List.pairwise_map]
    exact m.sorted⟩

/-! ### Lookups -/

theorem lookup_cons_eq (e : κ × ν) (l : List (κ × ν)) (k : κ) :
    (e :: l).lookup k = if k = e.1 then some e.2 else l.lookup k := by
  by_cases h : k = e.1
  · rw [if_pos h, h]
    exact List.lookup_cons_self
  · rw [if_neg h, List.lookup_cons, beq_eq_false_iff_ne.mpr h]

theorem lookup_insertEntry (k k' : κ) (x : ν) (l : List (κ × ν)) :
    (insertEntry k x l).lookup k' = if k' = k then some x else l.lookup k' := by
  induction l with
  | nil => simp [insertEntry, lookup_cons_eq]
  | cons e l ih =>
    simp only [insertEntry]
    by_cases hlt : k < e.1
    · rw [if_pos hlt, lookup_cons_eq]
    · by_cases heq : k = e.1
      · rw [if_neg hlt, if_pos heq, lookup_cons_eq, lookup_cons_eq, heq]
        by_cases h : k' = e.1 <;> simp [h]
      · rw [if_neg hlt, if_neg heq, lookup_cons_eq, lookup_cons_eq, ih]
        by_cases h : k' = k
        · have hne : k' ≠ e.1 := fun he => heq (h ▸ he)
          simp [h, heq]
        · simp [h]

@[simp] theorem get?_empty (k : κ) : (empty : OrdMap κ ν).get? k = none := rfl

theorem get?_insert (m : OrdMap κ ν) (k k' : κ) (x : ν) :
    (m.insert k x).get? k' = if k' = k then some x else m.get? k' :=
  lookup_insertEntry k k' x m.entries

@[simp] theorem get?_insert_self (m : OrdMap κ ν) (k : κ) (x : ν) : (m.insert k x).get? k = some x := by
  simp [get?_insert]

theorem get?_insert_of_ne (m : OrdMap κ ν) {k k' : κ} (x : ν) (h : k' ≠ k) :
    (m.insert k x).get? k' = m.get? k' := by
  simp [get?_insert, h]

theorem lookup_eq_some_of_mem {l : List (κ × ν)} (h : l.Pairwise fun a b => a.1 < b.1) {k : κ} {x : ν}
    (hmem : (k, x) ∈ l) : l.lookup k = some x := by
  induction l with
  | nil => simp at hmem
  | cons e l ih =>
    obtain ⟨he, hl⟩ := List.pairwise_cons.mp h
    rcases List.mem_cons.mp hmem with rfl | htail
    · simp
    · rw [lookup_cons_eq, if_neg (he _ htail).ne']
      exact ih hl htail

theorem mem_entries {m : OrdMap κ ν} {k : κ} {x : ν} : (k, x) ∈ m.entries ↔ m.get? k = some x := by
  constructor
  · exact lookup_eq_some_of_mem m.sorted
  · intro h
    obtain ⟨l₁, l₂, heq, -⟩ := List.lookup_eq_some_iff.mp h
    rw [heq]
    simp

theorem mem_keys {m : OrdMap κ ν} {k : κ} : k ∈ m.keys ↔ (m.get? k).isSome := by
  simp only [keys, List.mem_map, Prod.exists, exists_and_right, exists_eq_right, mem_entries,
    Option.isSome_iff_exists]

theorem mem_values {m : OrdMap κ ν} {x : ν} : x ∈ m.values ↔ ∃ k, m.get? k = some x := by
  simp only [values, List.mem_map, Prod.exists, exists_eq_right, mem_entries]

theorem keys_sorted (m : OrdMap κ ν) : m.keys.Pairwise (· < ·) := by
  rw [keys, List.pairwise_map]
  exact m.sorted

theorem keys_nodup (m : OrdMap κ ν) : m.keys.Nodup := m.keys_sorted.imp fun h => h.ne

theorem get?_erase (m : OrdMap κ ν) (k k' : κ) :
    (m.erase k).get? k' = if k' = k then none else m.get? k' := by
  refine Option.ext fun x => ?_
  rw [← mem_entries]
  simp only [erase, List.mem_filter, mem_entries]
  split_ifs with h <;> simp [h]

theorem get?_mapValues (f : ν → ν') (m : OrdMap κ ν) (k : κ) :
    (m.mapValues f).get? k = (m.get? k).map f := by
  refine Option.ext fun y => ?_
  rw [← mem_entries]
  simp only [mapValues, List.mem_map, Prod.mk.injEq, Prod.exists, mem_entries, Option.map_eq_some_iff]
  constructor
  · rintro ⟨a, b, hb, rfl, rfl⟩
    exact ⟨b, hb, rfl⟩
  · rintro ⟨b, hb, rfl⟩
    exact ⟨k, b, hb, rfl, rfl⟩

theorem ext_get? {m m' : OrdMap κ ν} (h : ∀ k, m.get? k = m'.get? k) : m = m' := by
  have hmem : ∀ e, e ∈ m.entries ↔ e ∈ m'.entries := fun ⟨k, x⟩ => by
    rw [mem_entries, mem_entries, h]
  have hnodup : ∀ n : OrdMap κ ν, n.entries.Nodup := fun n => List.Pairwise.of_map Prod.fst
    (fun _ _ hne heq => hne (congrArg Prod.fst heq)) n.keys_nodup
  have heq : m.entries = m'.entries :=
    List.Perm.eq_of_pairwise (fun a b _ _ hab hba => absurd hba (lt_asymm hab)) m.sorted m'.sorted
      ((List.perm_ext_iff_of_nodup (hnodup m) (hnodup m')).mpr hmem)
  cases m
  cases m'
  simpa using heq

theorem insert_of_get? {m : OrdMap κ ν} {k : κ} {x : ν} (h : m.get? k = some x) : m.insert k x = m := by
  refine ext_get? fun j => ?_
  rw [get?_insert]
  split_ifs with hj
  · rw [hj, h]
  · rfl

theorem length_insert_le (m : OrdMap κ ν) (k : κ) (x : ν) : (m.insert k x).entries.length ≤ m.entries.length + 1 := by
  show (insertEntry k x m.entries).length ≤ m.entries.length + 1
  induction m.entries with
  | nil => simp [insertEntry]
  | cons e l ih =>
    simp only [insertEntry]
    split_ifs
    · simp
    · simp
    · simpa using ih

theorem length_keys (m : OrdMap κ ν) : m.keys.length = m.entries.length := List.length_map _

/-- A map with more keys is longer. -/
theorem length_lt_of_contains {m : OrdMap κ ν} {m' : OrdMap κ ν'}
    (h : ∀ k, m.contains k = true → m'.contains k = true) {k : κ} (hk : m'.contains k = true)
    (hnew : m.contains k = false) : m.entries.length < m'.entries.length := by
  have hnodup : (k :: m.keys).Nodup := by
    refine List.nodup_cons.mpr ⟨fun hmem => ?_, m.keys_nodup⟩
    rw [mem_keys, ← contains, hnew] at hmem
    cases hmem
  have hsub : k :: m.keys ⊆ m'.keys := by
    intro j hj
    rcases List.mem_cons.mp hj with rfl | hj
    · exact mem_keys.mpr hk
    · exact mem_keys.mpr (h j (mem_keys.mp hj))
  have hle := (List.subperm_of_subset hnodup hsub).length_le
  rwa [List.length_cons, length_keys, length_keys] at hle

theorem length_erase_lt {m : OrdMap κ ν} {k : κ} (h : m.contains k = true) :
    (m.erase k).entries.length < m.entries.length := by
  refine length_lt_of_contains (fun j hj => ?_) h ?_
  · rw [contains, get?_erase] at hj
    split_ifs at hj
    · cases hj
    · exact hj
  · rw [contains, get?_erase, if_pos rfl]
    rfl

theorem mapValues_insert (f : ν → ν') (m : OrdMap κ ν) (k : κ) (x : ν) :
    (m.insert k x).mapValues f = (m.mapValues f).insert k (f x) := by
  refine ext_get? fun j => ?_
  rw [get?_mapValues, get?_insert, get?_insert, get?_mapValues]
  split_ifs <;> rfl

theorem mapValues_erase (f : ν → ν') (m : OrdMap κ ν) (k : κ) :
    (m.erase k).mapValues f = (m.mapValues f).erase k := by
  refine ext_get? fun j => ?_
  rw [get?_mapValues, get?_erase, get?_erase, get?_mapValues]
  split_ifs <;> rfl

theorem values_mapValues (f : ν → ν') (m : OrdMap κ ν) : (m.mapValues f).values = m.values.map f := by
  simp [values, mapValues]

theorem values_erase_sublist (m : OrdMap κ ν) (k : κ) : (m.erase k).values.Sublist m.values :=
  List.filter_sublist.map Prod.snd

section Count

variable [DecidableEq ν]

theorem count_values_insert_le (m : OrdMap κ ν) (k : κ) (x y : ν) :
    (m.insert k x).values.count y ≤ m.values.count y + if x = y then 1 else 0 := by
  show ((insertEntry k x m.entries).map Prod.snd).count y ≤ (m.entries.map Prod.snd).count y + _
  induction m.entries with
  | nil => simp [insertEntry, List.count_cons]
  | cons e l ih =>
    simp only [insertEntry]
    rw [List.map_cons, List.count_cons]
    split_ifs at ih ⊢ <;> simp_all

theorem count_values_erase_lt {m : OrdMap κ ν} {k : κ} {x : ν} (h : m.get? k = some x) :
    (m.erase k).values.count x < m.values.count x := by
  show ((m.entries.filter fun e => decide (e.1 ≠ k)).map Prod.snd).count x < (m.entries.map Prod.snd).count x
  have hmem := mem_entries.mpr h
  revert hmem
  generalize m.entries = l
  intro hmem
  induction l with
  | nil => cases hmem
  | cons e l ih =>
    have hle : ((l.filter fun e => decide (e.1 ≠ k)).map Prod.snd).count x ≤ (l.map Prod.snd).count x :=
      (List.filter_sublist.map Prod.snd).count_le x
    rcases List.mem_cons.mp hmem with rfl | htail
    · rw [List.filter_cons_of_neg (by simp), List.map_cons, List.count_cons_self]
      omega
    · have hlt := ih htail
      by_cases he : e.1 = k
      · rw [List.filter_cons_of_neg (by simpa using he), List.map_cons, List.count_cons]
        omega
      · rw [List.filter_cons_of_pos (by simpa using he), List.map_cons, List.map_cons, List.count_cons,
          List.count_cons]
        omega

end Count

/-- A sum over the entries loses exactly the term of a key whose term vanishes. -/
theorem sum_entries_drop (m : OrdMap κ ν) {f f' : κ × ν → Nat} {k : κ} {x : ν} (hx : m.get? k = some x)
    (hk : f' (k, x) = 0) (hoff : ∀ e : κ × ν, e.1 ≠ k → f' e = f e) :
    (m.entries.map f').sum + f (k, x) = (m.entries.map f).sum := by
  have hmem := mem_entries.mpr hx
  have hsorted := m.sorted
  revert hmem hsorted
  generalize m.entries = l
  intro hmem hsorted
  induction l with
  | nil => simp at hmem
  | cons e l ih =>
    obtain ⟨he, hl⟩ := List.pairwise_cons.mp hsorted
    rw [List.map_cons, List.map_cons, List.sum_cons, List.sum_cons]
    rcases List.mem_cons.mp hmem with rfl | htail
    · have hrest : l.map f' = l.map f := List.map_congr_left fun e' he' => hoff e' (he e' he').ne'
      rw [hk, hrest]
      omega
    · have hne : e.1 ≠ k := (he _ htail).ne
      have hsum := ih htail hl
      rw [hoff e hne]
      omega

end OrdMap

/-- A finite set listed in strictly ascending order. -/
abbrev OrdSet (κ : Type u) [LinearOrder κ] := OrdMap κ Unit

namespace OrdSet

variable {κ : Type u} [LinearOrder κ]

instance : Membership κ (OrdSet κ) := ⟨fun s k => (OrdMap.get? s k).isSome⟩

instance (k : κ) (s : OrdSet κ) : Decidable (k ∈ s) := inferInstanceAs (Decidable ((OrdMap.get? s k).isSome = true))

theorem mem_def {k : κ} {s : OrdSet κ} : k ∈ s ↔ (OrdMap.get? s k).isSome = true := Iff.rfl

def add (s : OrdSet κ) (k : κ) : OrdSet κ := OrdMap.insert s k ()

def extend (s : OrdSet κ) (l : List κ) : OrdSet κ := l.foldl add s

def ofList (l : List κ) : OrdSet κ := extend OrdMap.empty l

/-- The elements, ascending. -/
def toList (s : OrdSet κ) : List κ := OrdMap.keys s

@[simp] theorem not_mem_empty (k : κ) : ¬ k ∈ (OrdMap.empty : OrdSet κ) := by simp [mem_def]

@[simp] theorem mem_add {s : OrdSet κ} {k a : κ} : a ∈ s.add k ↔ a = k ∨ a ∈ s := by
  rw [mem_def, add, OrdMap.get?_insert]
  split_ifs with h <;> simp [h, mem_def]

theorem mem_erase {s : OrdSet κ} {k a : κ} : a ∈ (OrdMap.erase s k : OrdSet κ) ↔ a ≠ k ∧ a ∈ s := by
  rw [mem_def, OrdMap.get?_erase]
  split_ifs with h <;> simp [h, mem_def]

@[simp] theorem mem_extend {s : OrdSet κ} {l : List κ} {a : κ} : a ∈ s.extend l ↔ a ∈ s ∨ a ∈ l := by
  induction l generalizing s with
  | nil => simp [extend]
  | cons k l ih =>
    rw [extend, List.foldl_cons, ← extend, ih, mem_add, List.mem_cons]
    tauto

@[simp] theorem mem_ofList {l : List κ} {a : κ} : a ∈ ofList l ↔ a ∈ l := by simp [ofList]

@[simp] theorem mem_toList {s : OrdSet κ} {a : κ} : a ∈ s.toList ↔ a ∈ s := OrdMap.mem_keys

theorem length_add_le (s : OrdSet κ) (k : κ) : (s.add k).toList.length ≤ s.toList.length + 1 := by
  have hle := OrdMap.length_insert_le s k ()
  unfold toList OrdMap.keys
  rw [List.length_map, List.length_map]
  exact hle

theorem length_extend_le (s : OrdSet κ) (l : List κ) : (s.extend l).toList.length ≤ s.toList.length + l.length := by
  induction l generalizing s with
  | nil => exact Nat.le_refl _
  | cons k l ih =>
    have hrest := ih (s.add k)
    have hone := s.length_add_le k
    rw [extend, List.foldl_cons, ← extend, List.length_cons]
    omega

theorem ext_mem {s t : OrdSet κ} (h : ∀ a, a ∈ s ↔ a ∈ t) : s = t :=
  OrdMap.ext_get? fun k => by
    have := h k
    rw [mem_def, mem_def, Option.isSome_iff_exists, Option.isSome_iff_exists] at this
    refine Option.ext fun u => ?_
    constructor
    · exact fun hu => (this.mp ⟨u, hu⟩).elim fun _ hv => hv
    · exact fun hu => (this.mpr ⟨u, hu⟩).elim fun _ hv => hv

def filter (p : κ → Bool) (s : OrdSet κ) : OrdSet κ := ⟨s.entries.filter fun e => p e.1, s.sorted.filter _⟩

def inter (s t : OrdSet κ) : OrdSet κ := s.filter fun a => decide (a ∈ t)

@[simp] theorem mem_filter {p : κ → Bool} {s : OrdSet κ} {a : κ} : a ∈ s.filter p ↔ a ∈ s ∧ p a = true := by
  have hkeys : ∀ u : OrdSet κ, a ∈ u ↔ (a, ()) ∈ u.entries := fun u => by
    rw [OrdMap.mem_entries, mem_def, Option.isSome_iff_exists]
    exact ⟨fun ⟨_, h⟩ => h, fun h => ⟨(), h⟩⟩
  rw [hkeys, hkeys s, filter, List.mem_filter]

@[simp] theorem mem_inter {s t : OrdSet κ} {a : κ} : a ∈ s.inter t ↔ a ∈ s ∧ a ∈ t := by
  rw [inter, mem_filter, decide_eq_true_iff]

/-- A list sorted and freed of duplicates. -/
def sortDedup (l : List κ) : List κ := (ofList l).toList

/-- Strictly ascending lists are determined by their members. -/
theorem eq_of_sorted {l l' : List κ} (hl : l.Pairwise (· < ·)) (hl' : l'.Pairwise (· < ·))
    (h : ∀ a, a ∈ l ↔ a ∈ l') : l = l' :=
  List.Perm.eq_of_pairwise (fun _ _ _ _ hab hba => absurd hba (lt_asymm hab)) hl hl'
    ((List.perm_ext_iff_of_nodup (hl.imp fun hab => hab.ne) (hl'.imp fun hab => hab.ne)).mpr h)

theorem sortDedup_eq_self {l : List κ} : sortDedup l = l ↔ l.Pairwise (· < ·) := by
  constructor
  · intro h
    rw [← h]
    exact OrdMap.keys_sorted _
  · intro h
    have hmem : ∀ a, a ∈ sortDedup l ↔ a ∈ l := fun a => by rw [sortDedup, mem_toList, mem_ofList]
    exact eq_of_sorted (OrdMap.keys_sorted _) h hmem

end OrdSet
