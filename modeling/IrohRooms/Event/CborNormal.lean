import IrohRooms.Event.ContentExact

/-!
# The value that an encoding stands for

The encoder sorts the keys of a map, so a value comes back with its maps in canonical key order: `normal` is that value.
It has the same encoding, the same nesting and the same fields, and when no map of the value names a key twice it is
what the strict reader returns.
-/

namespace IrohRooms

namespace Cbor

/-- Entries in the canonical order of their keys; the sort is stable. -/
def sortKeys (entries : List (String × CborValue)) : List (String × CborValue) :=
  entries.insertionSort fun a b => encodedKey a.1 ≤ encodedKey b.1

mutual

/-- The value with every map in canonical key order. -/
def normal : CborValue → CborValue
  | .array items => .array (normalItems items)
  | .map entries => .map (sortKeys (normalEntries entries))
  | v => v

def normalItems : List CborValue → List CborValue
  | [] => []
  | v :: items => normal v :: normalItems items

def normalEntries : List (String × CborValue) → List (String × CborValue)
  | [] => []
  | (k, v) :: entries => (k, normal v) :: normalEntries entries

end

mutual

/-- No map inside names a key twice. -/
def Keyed : CborValue → Prop
  | .array items => KeyedItems items
  | .map entries => (entries.map Prod.fst).Nodup ∧ KeyedEntries entries
  | _ => True

def KeyedItems : List CborValue → Prop
  | [] => True
  | v :: items => Keyed v ∧ KeyedItems items

def KeyedEntries : List (String × CborValue) → Prop
  | [] => True
  | (_, v) :: entries => Keyed v ∧ KeyedEntries entries

end

instance : Std.Total fun a b : String × CborValue => encodedKey a.1 ≤ encodedKey b.1 :=
  ⟨fun a b => List.le_total (encodedKey a.1) (encodedKey b.1)⟩

instance : IsTrans (String × CborValue) fun a b => encodedKey a.1 ≤ encodedKey b.1 := ⟨fun _ _ _ => List.le_trans⟩

theorem normalItems_eq (items : List CborValue) : normalItems items = items.map normal := by
  induction items with
  | nil => rfl
  | cons v items ih => rw [normalItems, ih, List.map_cons]

theorem normalEntries_eq (entries : List (String × CborValue)) :
    normalEntries entries = entries.map fun e => (e.1, normal e.2) := by
  induction entries with
  | nil => rfl
  | cons e entries ih => rw [normalEntries, ih, List.map_cons]

theorem keyedItems_iff {items : List CborValue} : KeyedItems items ↔ ∀ v ∈ items, Keyed v := by
  induction items with
  | nil => simp [KeyedItems]
  | cons v items ih =>
    rw [KeyedItems, ih]
    simp

theorem keyedEntries_iff {entries : List (String × CborValue)} : KeyedEntries entries ↔ ∀ e ∈ entries, Keyed e.2 := by
  induction entries with
  | nil => simp [KeyedEntries]
  | cons e entries ih =>
    rw [KeyedEntries, ih]
    simp

@[simp] theorem normal_array (items : List CborValue) : normal (.array items) = .array (items.map normal) := by
  rw [normal, normalItems_eq]

theorem normal_map (entries : List (String × CborValue)) :
    normal (.map entries) = .map (sortKeys (entries.map fun e => (e.1, normal e.2))) := by
  rw [normal, normalEntries_eq]

theorem perm_sortKeys (entries : List (String × CborValue)) : (sortKeys entries).Perm entries :=
  List.perm_insertionSort _ _

theorem pairwise_sortKeys (entries : List (String × CborValue)) :
    (sortKeys entries).Pairwise fun a b => encodedKey a.1 ≤ encodedKey b.1 :=
  List.pairwise_insertionSort _ _

/-- The order in which distinct keys are listed does not matter. -/
theorem sortKeys_perm {entries entries' : List (String × CborValue)} (hperm : entries.Perm entries')
    (honce : (entries.map Prod.fst).Nodup) : sortKeys entries = sortKeys entries' := by
  refine List.Perm.eq_of_pairwise ?_ (pairwise_sortKeys entries) (pairwise_sortKeys entries')
    (((perm_sortKeys entries).trans hperm).trans (perm_sortKeys entries').symm)
  intro a b ha hb hab hba
  have hmem : a ∈ entries := (perm_sortKeys entries).mem_iff.mp ha
  have hmem' : b ∈ entries := hperm.mem_iff.mpr ((perm_sortKeys entries').mem_iff.mp hb)
  exact List.inj_on_of_nodup_map honce hmem hmem' (encodedKey_injective (List.le_antisymm hab hba))

theorem sortKeys_of_ascend {entries : List (String × CborValue)} (h : Ascend none entries) :
    sortKeys entries = entries :=
  ((List.pairwise_map.mp h.1).imp List.le_of_lt).insertionSort_eq

/-- Sorting the entries before they are encoded changes nothing. -/
theorem encode_map_sortKeys (entries : List (String × CborValue)) :
    encode (.map (sortKeys entries)) = encode (.map entries) := by
  have hmap : (sortKeys entries).map (fun e => (encodedKey e.1, encode e.2)) =
      sortEntries (entries.map fun e => (encodedKey e.1, encode e.2)) :=
    List.map_insertionSort _ _ _ _ fun _ _ _ _ => Iff.rfl
  have hsorted : sortEntries (sortEntries (entries.map fun e => (encodedKey e.1, encode e.2))) =
      sortEntries (entries.map fun e => (encodedKey e.1, encode e.2)) :=
    List.Pairwise.insertionSort_eq (List.pairwise_insertionSort _ _)
  rw [encode, encode, encodeEntries_eq, encodeEntries_eq, hmap, hsorted, (perm_sortKeys entries).length_eq]

mutual

theorem encode_normal : ∀ v : CborValue, encode (normal v) = encode v
  | .uint _ => rfl
  | .bytes _ => rfl
  | .text _ => rfl
  | .array items => by
    rw [normal_array]
    exact encode_array_congr (encode_normalItems items)
  | .map entries => by
    rw [normal_map, encode_map_sortKeys, encode_map_eq, encode_map_eq, render_normalEntries entries]

theorem encode_normalItems : ∀ items : List CborValue,
    List.Forall₂ (fun v w => encode v = encode w) (items.map normal) items
  | [] => .nil
  | v :: items => .cons (encode_normal v) (encode_normalItems items)

theorem render_normalEntries : ∀ entries : List (String × CborValue),
    render (entries.map fun e => (e.1, normal e.2)) = render entries
  | [] => rfl
  | (k, v) :: entries => by
    rw [List.map_cons, render_cons, render_cons, encode_normal v, render_normalEntries entries]

end

theorem depthEntries_perm {entries entries' : List (String × CborValue)} (h : entries.Perm entries') :
    depthEntries entries = depthEntries entries' := by
  apply le_antisymm
  · exact depthEntries_le.mpr fun e he => depthEntries_le.mp le_rfl e (h.mem_iff.mp he)
  · exact depthEntries_le.mpr fun e he => depthEntries_le.mp le_rfl e (h.mem_iff.mpr he)

mutual

theorem depth_normal : ∀ v : CborValue, depth (normal v) = depth v
  | .uint _ => rfl
  | .bytes _ => rfl
  | .text _ => rfl
  | .array items => by
    rw [normal_array, depth, depth, depthItems_normal items]
  | .map entries => by
    rw [normal_map, depth, depth, depthEntries_perm (perm_sortKeys _), depthEntries_normal entries]

theorem depthItems_normal : ∀ items : List CborValue, depthItems (items.map normal) = depthItems items
  | [] => rfl
  | v :: items => by
    rw [List.map_cons, depthItems, depthItems, depth_normal v, depthItems_normal items]

theorem depthEntries_normal : ∀ entries : List (String × CborValue),
    depthEntries (entries.map fun e => (e.1, normal e.2)) = depthEntries entries
  | [] => rfl
  | (k, v) :: entries => by
    rw [List.map_cons, depthEntries, depthEntries, depth_normal v, depthEntries_normal entries]

end

/-- Distinct keys in sorted order ascend. -/
theorem ascend_sortKeys {entries : List (String × CborValue)} (h : (entries.map Prod.fst).Nodup) :
    ((sortKeys entries).map fun e => encodedKey e.1).Pairwise (· < ·) := by
  have hkeys : ((sortKeys entries).map Prod.fst).Nodup := ((perm_sortKeys entries).map _).nodup_iff.mpr h
  have hne : (sortKeys entries).Pairwise fun a b => a.1 ≠ b.1 := List.pairwise_map.mp hkeys
  rw [List.pairwise_map]
  refine (hne.and (pairwise_sortKeys entries)).imp fun hab => ?_
  obtain ⟨hne, hle⟩ := hab
  exact (List.le_iff_lt_or_eq.mp hle).resolve_right fun heq => hne (encodedKey_injective heq)

mutual

theorem ordered_normal : ∀ {v : CborValue}, Keyed v → Ordered (normal v)
  | .uint _, _ => trivial
  | .bytes _, _ => trivial
  | .text _, _ => trivial
  | .array items, h => by
    rw [normal_array]
    exact orderedItems_iff.mpr (ordered_normalItems h)
  | .map entries, h => by
    rw [normal_map]
    refine ⟨ascend_sortKeys ?_, orderedEntries_iff.mpr fun e he => ?_⟩
    · rw [List.map_map]
      exact h.1
    · exact ordered_normalEntries h.2 e ((perm_sortKeys _).mem_iff.mp he)

theorem ordered_normalItems : ∀ {items : List CborValue}, KeyedItems items → ∀ v ∈ items.map normal, Ordered v
  | [], _ => by simp
  | v :: items, h => by
    rw [List.map_cons, List.forall_mem_cons]
    exact ⟨ordered_normal h.1, ordered_normalItems h.2⟩

theorem ordered_normalEntries : ∀ {entries : List (String × CborValue)}, KeyedEntries entries →
    ∀ e ∈ entries.map (fun e => (e.1, normal e.2)), Ordered e.2
  | [], _ => by simp
  | (k, v) :: entries, h => by
    rw [List.map_cons, List.forall_mem_cons]
    exact ⟨ordered_normal h.1, ordered_normalEntries h.2⟩

end

/-- The value nests at most `n` deep, and no map inside names a key twice. -/
structure Within (n : Nat) (v : CborValue) : Prop where
  keyed : Keyed v
  depth : Cbor.depth v ≤ n

theorem Within.mono {n n' : Nat} {v : CborValue} (h : Within n v) (hle : n ≤ n') : Within n' v :=
  ⟨h.keyed, h.depth.trans hle⟩

theorem within_bytes (n : Nat) (b : Bytes) : Within n (.bytes b) := ⟨trivial, Nat.zero_le n⟩

theorem within_uint (n : Nat) (x : UInt64) : Within n (.uint x) := ⟨trivial, Nat.zero_le n⟩

theorem within_text (n : Nat) (s : String) : Within n (.text s) := ⟨trivial, Nat.zero_le n⟩

theorem within_array {n : Nat} {items : List CborValue} (h : ∀ v ∈ items, Within n v) : Within (n + 1) (.array items) :=
  ⟨keyedItems_iff.mpr fun v hv => (h v hv).keyed, depthItems_le.mpr fun v hv => Nat.lt_succ_of_le (h v hv).depth⟩

theorem within_list {α : Type} {n : Nat} {write : α → CborValue} {l : List α} (h : ∀ a ∈ l, Within n (write a)) :
    Within (n + 1) (.array (l.map write)) := by
  refine within_array fun v hv => ?_
  obtain ⟨a, ha, rfl⟩ := List.mem_map.mp hv
  exact h a ha

theorem within_map {n : Nat} {entries : List (String × CborValue)} (honce : (entries.map Prod.fst).Nodup)
    (h : ∀ e ∈ entries, Within n e.2) : Within (n + 1) (.map entries) :=
  ⟨⟨honce, keyedEntries_iff.mpr fun e he => (h e he).keyed⟩,
    depthEntries_le.mpr fun e he => Nat.lt_succ_of_le (h e he).depth⟩

theorem within_sortIntoMap {n : Nat} {entries : List (String × CborValue)} (honce : (entries.map Prod.fst).Nodup)
    (h : ∀ e ∈ entries, Within n e.2) : Within (n + 1) (sortIntoMap entries) := by
  have hperm : (entries.insertionSort fun a b => keyLe a.1 b.1).Perm entries := List.perm_insertionSort _ _
  exact within_map ((hperm.map _).nodup_iff.mpr honce) fun e he => h e (hperm.mem_iff.mp he)

/-- The strict reader returns the value in canonical order. -/
theorem decodeCanonical_encode {v : CborValue} (h : Within maxDepth v) (hfits : (encode v).length ≤ usizeMax) :
    decodeCanonical (encode v) = .ok (normal v) := by
  refine decodeCanonical_eq_ok.mpr ⟨⟨?_, ordered_normal h.keyed, ?_⟩, encode_normal v⟩
  · rw [depth_normal]
    exact h.depth
  · rw [encode_normal]
    exact hfits

/-! ### Fields -/

theorem lookup_map_normal (entries : List (String × CborValue)) (k : String) :
    (entries.map fun e => (e.1, normal e.2)).lookup k = (entries.lookup k).map normal := by
  induction entries with
  | nil => rfl
  | cons e entries ih =>
    rw [List.map_cons, List.lookup_cons, List.lookup_cons]
    cases k == e.1
    · exact ih
    · rfl

/-- The field of a sorted map is that of the map. -/
theorem lookup_sortKeys {entries : List (String × CborValue)} (h : (entries.map Prod.fst).Nodup) (k : String) :
    (sortKeys entries).lookup k = entries.lookup k := by
  have hsorted : ((sortKeys entries).map Prod.fst).Nodup := ((perm_sortKeys entries).map _).nodup_iff.mpr h
  refine Option.ext fun v => ?_
  rw [Fields.lookup_eq_some_of_once hsorted, Fields.lookup_eq_some_of_once h]
  exact (perm_sortKeys entries).mem_iff

/-- The fields of a map are those listed, each in canonical order. -/
theorem exists_normal_map {entries : List (String × CborValue)} (h : (entries.map Prod.fst).Nodup) :
    ∃ fields, normal (.map entries) = .map fields ∧ ∀ k, fields.lookup k = (entries.lookup k).map normal := by
  refine ⟨_, normal_map entries, fun k => ?_⟩
  rw [lookup_sortKeys (by rwa [List.map_map]), lookup_map_normal]

theorem normal_sortIntoMap {entries : List (String × CborValue)} (h : (entries.map Prod.fst).Nodup) :
    normal (sortIntoMap entries) = normal (.map entries) := by
  have hperm : (entries.insertionSort fun a b => keyLe a.1 b.1).Perm entries := List.perm_insertionSort _ _
  rw [sortIntoMap, normal_map, normal_map, sortKeys_perm (hperm.map _)]
  rw [List.map_map]
  exact (hperm.map _).nodup_iff.mpr h

end Cbor

namespace Fields

/-- A required field that stands in the map is read and marked. -/
theorem requireWith_at {α : Type} {key : String} {read : CborValue → Except RejectReason α}
    {entries : List (String × CborValue)} {consumed : List Bool} {i : Nat} {e : String × CborValue} {a : α}
    (hidx : entries.findIdx? (fun e => e.1 == key) = some i) (hentry : entries[i]? = some e)
    (hread : read e.2 = .ok a) :
    requireWith key read ⟨entries, consumed⟩ = .ok (a, ⟨entries, consumed.set i true⟩) := by
  have hopt : opt key ⟨entries, consumed⟩ = .ok (some e.2, ⟨entries, consumed.set i true⟩) := by
    unfold opt
    rw [hidx]
    dsimp only
    rw [hentry]
    rfl
  refine bind_eq_ok_iff.mpr ⟨(e.2, _), bind_eq_ok_iff.mpr ⟨_, hopt, rfl⟩, ?_⟩
  exact bind_eq_ok_iff.mpr ⟨a, hread, rfl⟩

end Fields

end IrohRooms
