import IrohRooms.Member.Inclusion

/-!
# Full builds

`rebuildRoot` computes a root from the records alone. A map holds the entries of an ordinary ordered map, each operation
changing it as that map's own operation would, and its root is at every moment the one rebuilt from those entries.
-/

namespace IrohRooms.Member

open Governance MerkleTree

variable (env : Env)

/-- The leaf hash of a record under its key. -/
def keyedLeaf (record : PrincipalId × Bytes) : Except Reject (PrincipalId × Digest) := do
  let projected ← ProjectedMemberRecord.fromBytes record.2
  if projected.memberId ≠ record.1 then .error .invalidContent else .ok (record.1, memberLeafHash env record.2)

/-- The root over records in any order. -/
def rebuildRoot (records : List (PrincipalId × Bytes)) : Except Reject Digest := do
  let keyed ← records.mapM (keyedLeaf env)
  let sorted := keyed.insertionSort fun a b => a.1 ≤ b.1
  if windowsAny (fun a b => decide (a.1 = b.1)) sorted then .error .invalidContent
  else .ok (reduceLevels env sorted.length (sorted.map Prod.snd))

variable {env}

theorem keyedLeaf_of_keyed {r : PrincipalId × Bytes} (h : validateKeyedRecord r.1 r.2 = .ok ()) :
    keyedLeaf env r = .ok (r.1, memberLeafHash env r.2) := by
  obtain ⟨record, hrecord, h⟩ := bind_eq_ok_iff.mp h
  split_ifs at h with hid
  rw [keyedLeaf, hrecord]
  exact if_neg (not_not.mpr hid)

theorem windowsAny_eq_false {α : Type} {p : α → α → Bool} {l : List α} (h : l.Pairwise fun a b => p a b = false) :
    windowsAny p l = false := by
  induction l with
  | nil => rfl
  | cons a l ih =>
    obtain ⟨ha, hl⟩ := List.pairwise_cons.mp h
    rcases l with _ | ⟨b, l⟩
    · rfl
    · rw [windowsAny, ha b List.mem_cons_self, ih hl]
      rfl

/-- Any order of records under strictly ascending keys is sorted back into them. -/
theorem insertionSort_keyed {α κ : Type} [LinearOrder κ] {key : α → κ} {l sorted : List α} (hperm : l.Perm sorted)
    (hsorted : sorted.Pairwise fun a b => key a < key b) : (l.insertionSort fun a b => key a ≤ key b) = sorted := by
  have htotal : Std.Total fun a b : α => key a ≤ key b := ⟨fun a b => le_total (key a) (key b)⟩
  have htrans : IsTrans α fun a b => key a ≤ key b := ⟨fun _ _ _ => le_trans⟩
  have hinj : ∀ a b, a ∈ (l.insertionSort fun a b => key a ≤ key b) → b ∈ sorted → key a ≤ key b → key b ≤ key a →
      a = b := by
    intro a b ha hb hab hba
    have hnodup : (sorted.map key).Nodup := List.pairwise_map.mpr (hsorted.imp fun hlt => hlt.ne)
    have ha' : a ∈ sorted := hperm.mem_iff.mp ((List.mem_insertionSort _).mp ha)
    exact List.inj_on_of_nodup_map hnodup ha' hb (le_antisymm hab hba)
  exact List.Perm.eq_of_pairwise hinj (List.pairwise_insertionSort _ l) (hsorted.imp fun hlt => hlt.le)
    ((List.perm_insertionSort _ l).trans hperm)

namespace SortedMerkleMap

variable {m m' : SortedMerkleMap} {memberId : PrincipalId} {canonical : Bytes}

/-- The key and the record of every leaf. -/
def records (m : SortedMerkleMap) : List (PrincipalId × Bytes) := m.leaves.map fun leaf => (leaf.memberId, leaf.canonical)

theorem WellFormed.records_sorted (h : m.WellFormed env) : m.records.Pairwise fun a b => a.1 < b.1 := by
  rw [records, List.pairwise_map]
  exact h.sorted

theorem WellFormed.root_reduce (h : m.WellFormed env) :
    m.root env = reduceLevels env m.leaves.length (m.leaves.map Leaf.hash) := by
  rw [reduceLevels_eq]
  by_cases hne : m.leaves = []
  · rw [root, if_pos hne, hne]
    rfl
  · rw [h.root_eq hne]
    rfl

/-- The root is the one rebuilt from the records, in whatever order they come. -/
theorem WellFormed.rebuildRoot (h : m.WellFormed env) {records : List (PrincipalId × Bytes)}
    (hperm : records.Perm m.records) : rebuildRoot env records = .ok (m.root env) := by
  have hleaf : ∀ r ∈ records, keyedLeaf env r = .ok (r.1, memberLeafHash env r.2) := by
    intro r hr
    obtain ⟨leaf, hleaf, rfl⟩ := List.mem_map.mp (hperm.mem_iff.mp hr)
    exact keyedLeaf_of_keyed (h.leaves leaf hleaf).keyed
  have hkeyed : records.mapM (keyedLeaf env) = .ok (records.map fun r => (r.1, memberLeafHash env r.2)) := by
    rw [mapM_eq_ok_iff, List.forall₂_map_right_iff, List.forall₂_same]
    exact hleaf
  have hsort : ((records.map fun r => (r.1, memberLeafHash env r.2)).insertionSort fun a b => a.1 ≤ b.1) =
      m.leaves.map fun leaf => (leaf.memberId, leaf.hash) := by
    refine insertionSort_keyed ?_ (List.pairwise_map.mpr h.sorted)
    have hhash : (m.records.map fun r => (r.1, memberLeafHash env r.2)) =
        m.leaves.map fun leaf => (leaf.memberId, leaf.hash) := by
      rw [SortedMerkleMap.records, List.map_map]
      refine List.map_congr_left fun leaf hleaf => ?_
      rw [(h.leaves leaf hleaf).hash]
      rfl
    exact hhash ▸ hperm.map fun r => (r.1, memberLeafHash env r.2)
  have hwindows : windowsAny (fun a b => decide (a.1 = b.1))
      (m.leaves.map fun leaf => (leaf.memberId, leaf.hash)) = false :=
    windowsAny_eq_false (List.pairwise_map.mpr (h.sorted.imp fun hlt => decide_eq_false hlt.ne))
  rw [Member.rebuildRoot, hkeyed]
  change (if windowsAny _ _ = true then _ else _) = _
  rw [hsort, hwindows, if_neg (by decide), List.length_map, List.map_map, h.root_reduce]
  rfl

/-! ### What a map holds -/

/-- The records as an ordered map. -/
def WellFormed.contents (h : m.WellFormed env) : OrdMap PrincipalId Bytes := ⟨m.records, h.records_sorted⟩

theorem WellFormed.contents_get? (h : m.WellFormed env) {id : PrincipalId} {x : Bytes} :
    h.contents.get? id = some x ↔ ∃ leaf ∈ m.leaves, leaf.memberId = id ∧ leaf.canonical = x := by
  rw [← OrdMap.mem_entries]
  simp only [contents, records, List.mem_map, Prod.mk.injEq]

theorem WellFormed.isSome_contents (h : m.WellFormed env) {id : PrincipalId} :
    (h.contents.get? id).isSome ↔ (m.index.get? id).isSome := by
  rw [h.mem_index, Option.isSome_iff_exists]
  constructor
  · rintro ⟨x, hx⟩
    obtain ⟨leaf, hleaf, hid, -⟩ := h.contents_get?.mp hx
    exact ⟨leaf, hleaf, hid⟩
  · rintro ⟨leaf, hleaf, hid⟩
    exact ⟨leaf.canonical, h.contents_get?.mpr ⟨leaf, hleaf, hid, rfl⟩⟩

/-- Two maps hold the same when their leaves do, up to one key. -/
theorem WellFormed.contents_eq (h : m.WellFormed env) {c : OrdMap PrincipalId Bytes}
    (hc : ∀ id x, c.get? id = some x ↔ ∃ leaf ∈ m.leaves, leaf.memberId = id ∧ leaf.canonical = x) : h.contents = c :=
  OrdMap.ext_get? fun id => Option.ext fun x => by rw [h.contents_get?, hc]

theorem WellFormed.insertNew_contents (h : m.WellFormed env) (h' : m'.WellFormed env)
    (hins : m.insertNew env memberId canonical = .ok m') : h'.contents = h.contents.insert memberId canonical := by
  obtain ⟨-, hnew, rfl⟩ := insertNew_eq_ok hins
  obtain ⟨before, after, hleaves, hlen, -⟩ := h.insertPos_spec hnew
  refine h'.contents_eq fun id x => ?_
  rw [recomputeSuffix_leaves, OrdMap.get?_insert]
  simp only [List.mem_insertIdx (show m.insertPos memberId ≤ m.leaves.length by rw [hleaves, List.length_append]; omega)]
  have habsent : ∀ leaf ∈ m.leaves, leaf.memberId ≠ memberId := by
    intro leaf hleaf heq
    have hsome := h.mem_index.mpr ⟨leaf, hleaf, heq⟩
    simp [hnew] at hsome
  split_ifs with hid
  · subst hid
    constructor
    · intro hx
      exact ⟨_, Or.inl rfl, rfl, Option.some.inj hx⟩
    · rintro ⟨leaf, rfl | hleaf, hleafId, rfl⟩
      · rfl
      · exact absurd hleafId (habsent leaf hleaf)
  · rw [h.contents_get?]
    constructor
    · rintro ⟨leaf, hleaf, hrest⟩
      exact ⟨leaf, Or.inr hleaf, hrest⟩
    · rintro ⟨leaf, rfl | hleaf, hleafId, hx⟩
      · exact absurd hleafId.symm hid
      · exact ⟨leaf, hleaf, hleafId, hx⟩

/-- The leaves of a map other than the one at a position are those of other keys. -/
theorem WellFormed.mem_others (h : m.WellFormed env) {before after : List Leaf} {old leaf : Leaf}
    (hleaves : m.leaves = before ++ old :: after) :
    leaf ∈ before ++ after ↔ leaf ∈ m.leaves ∧ leaf.memberId ≠ old.memberId := by
  have hsorted := h.sorted
  rw [hleaves, List.pairwise_append, List.pairwise_cons] at hsorted
  obtain ⟨-, ⟨hafter, -⟩, hbefore⟩ := hsorted
  rw [hleaves, List.mem_append, List.mem_append, List.mem_cons]
  constructor
  · rintro (hmem | hmem)
    · exact ⟨Or.inl hmem, (hbefore leaf hmem old List.mem_cons_self).ne⟩
    · exact ⟨Or.inr (Or.inr hmem), (hafter leaf hmem).ne'⟩
  · rintro ⟨hmem | rfl | hmem, hne⟩
    · exact Or.inl hmem
    · exact absurd rfl hne
    · exact Or.inr hmem

theorem WellFormed.replaceExisting_contents {prev : Bytes} (h : m.WellFormed env) (h' : m'.WellFormed env)
    (hrep : m.replaceExisting env memberId canonical = .ok (m', prev)) :
    h'.contents = h.contents.insert memberId canonical := by
  obtain ⟨-, pos, old, hpos, hold, rfl⟩ := replaceExisting_eq_ok hrep
  obtain ⟨before, leaf, after, hleaves, hlen, hid⟩ := h.split hpos
  obtain rfl : leaf = old := by
    rw [hleaves, ← hlen] at hold
    simpa using hold
  refine h'.contents_eq fun id x => ?_
  have hmem : ∀ y : Leaf, y ∈ m.leaves.set pos ⟨leaf.memberId, canonical, memberLeafHash env canonical⟩ ↔
      y = ⟨leaf.memberId, canonical, memberLeafHash env canonical⟩ ∨ y ∈ m.leaves ∧ y.memberId ≠ leaf.memberId := by
    intro y
    rw [← h.mem_others hleaves, hleaves, ← hlen, List.set_append_right _ _ le_rfl]
    simp only [Nat.sub_self, List.set_cons_zero, List.mem_append, List.mem_cons]
    tauto
  rw [hid] at hmem
  rw [recomputePath_leaves, OrdMap.get?_insert, hid]
  simp only [hmem]
  split_ifs with hkey
  · subst hkey
    constructor
    · intro hx
      exact ⟨_, Or.inl rfl, rfl, Option.some.inj hx⟩
    · rintro ⟨y, rfl | ⟨-, hne⟩, hyid, rfl⟩
      · rfl
      · exact absurd hyid hne
  · rw [h.contents_get?]
    constructor
    · rintro ⟨y, hy, hyid, hx⟩
      exact ⟨y, Or.inr ⟨hy, hyid ▸ hkey⟩, hyid, hx⟩
    · rintro ⟨y, rfl | ⟨hy, -⟩, hyid, hx⟩
      · exact absurd hyid.symm hkey
      · exact ⟨y, hy, hyid, hx⟩

theorem WellFormed.removeExisting_contents {prev : Bytes} (h : m.WellFormed env) (h' : m'.WellFormed env)
    (hrem : m.removeExisting env memberId = .ok (m', prev)) : h'.contents = h.contents.erase memberId := by
  obtain ⟨pos, hpos, hm', -⟩ := removeExisting_eq_ok hrem
  obtain ⟨before, leaf, after, hleaves, hlen, hid⟩ := h.split hpos
  have herase : m'.leaves = before ++ after := by
    rw [hm', hleaves, ← hlen, List.eraseIdx_append_of_length_le le_rfl]
    simp
  refine h'.contents_eq fun id x => ?_
  rw [herase, OrdMap.get?_erase]
  simp only [h.mem_others hleaves, hid]
  split_ifs with hkey
  · subst hkey
    constructor
    · intro hx
      cases hx
    · rintro ⟨y, ⟨-, hne⟩, hyid, -⟩
      exact absurd hyid hne
  · rw [h.contents_get?]
    constructor
    · rintro ⟨y, hy, hyid, hx⟩
      exact ⟨y, ⟨hy, hyid ▸ hkey⟩, hyid, hx⟩
    · rintro ⟨y, ⟨hy, -⟩, hyid, hx⟩
      exact ⟨y, hy, hyid, hx⟩

/-! ### Runs -/

end SortedMerkleMap

/-- One mutating call. -/
inductive MapCall
  | insertNew (memberId : PrincipalId) (canonical : Bytes)
  | replaceExisting (memberId : PrincipalId) (canonical : Bytes)
  | removeExisting (memberId : PrincipalId)

/-- What a call does to a plain ordered map: nothing, if it is refused. -/
def MapCall.apply (contents : OrdMap PrincipalId Bytes) : MapCall → OrdMap PrincipalId Bytes
  | .insertNew memberId canonical =>
    if (validateKeyedRecord memberId canonical).isOk && !contents.contains memberId
    then contents.insert memberId canonical else contents
  | .replaceExisting memberId canonical =>
    if (validateKeyedRecord memberId canonical).isOk && contents.contains memberId
    then contents.insert memberId canonical else contents
  | .removeExisting memberId => contents.erase memberId

namespace SortedMerkleMap

variable {m : SortedMerkleMap}

variable (env) in
/-- The map after a call and what the call returns; every check comes before the first change. -/
def call (m : SortedMerkleMap) : MapCall → SortedMerkleMap × Except Reject (Option Bytes)
  | .insertNew memberId canonical => match m.insertNew env memberId canonical with
    | .ok next => (next, .ok none)
    | .error e => (m, .error e)
  | .replaceExisting memberId canonical => match m.replaceExisting env memberId canonical with
    | .ok (next, prev) => (next, .ok (some prev))
    | .error e => (m, .error e)
  | .removeExisting memberId => match m.removeExisting env memberId with
    | .ok (next, prev) => (next, .ok (some prev))
    | .error e => (m, .error e)

variable (env) in
/-- The map after a list of calls on the empty one. -/
def run (calls : List MapCall) : SortedMerkleMap := calls.foldl (fun m c => (m.call env c).1) new

theorem call_error {c : MapCall} {e : Reject} (h : (m.call env c).2 = .error e) : (m.call env c).1 = m := by
  unfold call at h ⊢
  cases c with
  | insertNew memberId canonical =>
    dsimp only at h ⊢
    cases hins : m.insertNew env memberId canonical with
    | ok next => simp [hins] at h
    | error e => rfl
  | replaceExisting memberId canonical =>
    dsimp only at h ⊢
    cases hrep : m.replaceExisting env memberId canonical with
    | ok next => simp [hrep] at h
    | error e => rfl
  | removeExisting memberId =>
    dsimp only at h ⊢
    cases hrem : m.removeExisting env memberId with
    | ok next => simp [hrem] at h
    | error e => rfl

theorem WellFormed.contents_contains (h : m.WellFormed env) (id : PrincipalId) :
    h.contents.contains id = m.index.contains id :=
  Bool.eq_iff_iff.mpr h.isSome_contents

theorem insertNew_isOk (memberId : PrincipalId) (canonical : Bytes) : (m.insertNew env memberId canonical).isOk =
    ((validateKeyedRecord memberId canonical).isOk && !m.index.contains memberId) := by
  unfold insertNew
  cases validateKeyedRecord memberId canonical with
  | error e => rfl
  | ok u =>
    cases hknown : m.index.contains memberId with
    | true => simp [Except.isOk, Except.toBool, bind, Except.bind]
    | false => simp [Except.isOk, Except.toBool, bind, Except.bind, pure, Except.pure]

/-- A key in the index has its leaf. -/
theorem WellFormed.leaf_of_index (h : m.WellFormed env) {id : PrincipalId} {pos : Nat}
    (hpos : m.index.get? id = some pos) :
    ∃ leaf, m.leaves[pos]? = some leaf ∧ leaf.memberId = id := by
  obtain ⟨before, leaf, after, hleaves, hlen, hid⟩ := h.split hpos
  exact ⟨leaf, by simp [hleaves, ← hlen], hid⟩

theorem WellFormed.replaceExisting_isOk (h : m.WellFormed env) (memberId : PrincipalId) (canonical : Bytes) :
    (m.replaceExisting env memberId canonical).isOk =
      ((validateKeyedRecord memberId canonical).isOk && m.index.contains memberId) := by
  unfold SortedMerkleMap.replaceExisting OrdMap.contains
  cases validateKeyedRecord memberId canonical with
  | error e => rfl
  | ok u =>
    cases hpos : m.index.get? memberId with
    | none => rfl
    | some pos =>
      obtain ⟨leaf, hleaf, -⟩ := h.leaf_of_index hpos
      simp [hleaf, orReject, Except.isOk, Except.toBool, bind, Except.bind, pure, Except.pure]

theorem WellFormed.removeExisting_isOk (h : m.WellFormed env) (memberId : PrincipalId) :
    (m.removeExisting env memberId).isOk = m.index.contains memberId := by
  unfold SortedMerkleMap.removeExisting OrdMap.contains
  cases hpos : m.index.get? memberId with
  | none => rfl
  | some pos =>
    obtain ⟨leaf, hleaf, -⟩ := h.leaf_of_index hpos
    simp only [hleaf, orReject, Except.isOk, Except.toBool, bind, Except.bind, pure, Except.pure]
    split_ifs <;> rfl

theorem erase_of_not_contains {c : OrdMap PrincipalId Bytes} {id : PrincipalId} (h : c.contains id = false) :
    c.erase id = c := by
  refine OrdMap.ext_get? fun k => ?_
  rw [OrdMap.get?_erase]
  split_ifs with hk
  · subst hk
    exact (Option.not_isSome_iff_eq_none.mp (Bool.eq_false_iff.mp h)).symm
  · rfl

variable (env) in
/-- A well-formed map with the given records. -/
def Holds (m : SortedMerkleMap) (c : OrdMap PrincipalId Bytes) : Prop := ∃ h : m.WellFormed env, h.contents = c

/-- A call keeps the invariant and changes what the map holds as it would change a plain map. -/
theorem Holds.call {contents : OrdMap PrincipalId Bytes} (hm : m.Holds env contents) (c : MapCall) :
    (m.call env c).1.Holds env (c.apply contents) := by
  obtain ⟨h, rfl⟩ := hm
  cases c with
  | insertNew memberId canonical =>
    have hok := @insertNew_isOk env m memberId canonical
    rw [SortedMerkleMap.call, MapCall.apply, h.contents_contains, ← hok]
    cases hins : m.insertNew env memberId canonical with
    | ok next => exact ⟨h.insertNew hins, h.insertNew_contents _ hins⟩
    | error e => exact ⟨h, rfl⟩
  | replaceExisting memberId canonical =>
    have hok := h.replaceExisting_isOk memberId canonical
    rw [SortedMerkleMap.call, MapCall.apply, h.contents_contains, ← hok]
    cases hrep : m.replaceExisting env memberId canonical with
    | ok next => exact ⟨h.replaceExisting hrep, h.replaceExisting_contents _ hrep⟩
    | error e => exact ⟨h, rfl⟩
  | removeExisting memberId =>
    have hok := h.removeExisting_isOk memberId
    rw [SortedMerkleMap.call, MapCall.apply]
    cases hrem : m.removeExisting env memberId with
    | ok next => exact ⟨h.removeExisting hrem, h.removeExisting_contents _ hrem⟩
    | error e =>
      rw [hrem, ← h.contents_contains] at hok
      exact ⟨h, (erase_of_not_contains hok.symm).symm⟩

/-- Every run holds what the calls leave in a plain map. -/
theorem holds_run (calls : List MapCall) : (run env calls).Holds env (calls.foldl MapCall.apply OrdMap.empty) := by
  have hrun : ∀ (calls : List MapCall) (m : SortedMerkleMap) (contents : OrdMap PrincipalId Bytes),
      m.Holds env contents →
      (calls.foldl (fun m c => (m.call env c).1) m).Holds env (calls.foldl MapCall.apply contents) := by
    intro calls
    induction calls with
    | nil => exact fun m contents h => h
    | cons c calls ih => exact fun m contents h => ih _ _ (h.call c)
  exact hrun calls new OrdMap.empty ⟨wellFormed_new, rfl⟩

theorem WellFormed.index_iff (h : m.WellFormed env) {id : PrincipalId} {pos : Nat} :
    m.index.get? id = some pos ↔ ∃ leaf, m.leaves[pos]? = some leaf ∧ leaf.memberId = id := by
  constructor
  · exact h.leaf_of_index
  · rintro ⟨leaf, hleaf, rfl⟩
    obtain ⟨q, hq⟩ := Option.isSome_iff_exists.mp (h.mem_index.mpr ⟨leaf, List.mem_of_getElem? hleaf, rfl⟩)
    obtain ⟨other, hother, hid⟩ := h.leaf_of_index hq
    have hnodup := nodup_of_sorted h.sorted
    have hp : (m.leaves.map Leaf.memberId)[pos]? = some leaf.memberId := by simp [hleaf]
    have hq' : (m.leaves.map Leaf.memberId)[q]? = some leaf.memberId := by simp [hother, hid]
    have hlt : pos < (m.leaves.map Leaf.memberId).length := (List.getElem?_eq_some_iff.mp hp).1
    rw [hq, (List.getElem?_inj hlt hnodup).mp (hp.trans hq'.symm)]

theorem WellFormed.levels_rebuilt (h : m.WellFormed env) : m.levels = (rebuildLevels env m).levels := by
  rw [h.levels, levelsOf, rebuildLevels]
  by_cases hnil : m.leaves = []
  · simp [hnil]
  · rw [if_neg (by simpa using hnil), if_neg hnil, buildLevels_eq, List.length_map]

/-- After every sequence of calls on an empty map the keys ascend strictly, the index finds each key at its position,
the levels are those built afresh from the leaves, and the root is the one rebuilt from the records; it depends on what
the map holds alone, and the map holds what the calls leave in a plain ordered map. A call that is refused changes
nothing. -/
theorem run_rebuilds (calls : List MapCall) :
    let m := run env calls
    (m.leaves.Pairwise fun a b => a.memberId < b.memberId) ∧
    (∀ id pos, m.index.get? id = some pos ↔ ∃ leaf, m.leaves[pos]? = some leaf ∧ leaf.memberId = id) ∧
    m.levels = (rebuildLevels env m).levels ∧
    (∀ records : List (PrincipalId × Bytes), records.Perm m.records →
      Member.rebuildRoot env records = .ok (m.root env)) ∧
    (∀ calls', (∀ r, r ∈ (run env calls').records ↔ r ∈ m.records) → (run env calls').root env = m.root env) ∧
    m.records = (calls.foldl MapCall.apply OrdMap.empty).entries ∧
    ∀ c e, (m.call env c).2 = .error e → (m.call env c).1 = m := by
  obtain ⟨h, hcontents⟩ := @holds_run env calls
  refine ⟨h.sorted, fun id pos => h.index_iff, h.levels_rebuilt, fun records hperm => h.rebuildRoot hperm,
    fun calls' hset => ?_, congrArg OrdMap.entries hcontents, fun c e he => call_error he⟩
  obtain ⟨h', -⟩ := @holds_run env calls'
  have hsame : h'.contents = h.contents := by
    refine OrdMap.ext_get? fun id => Option.ext fun x => ?_
    rw [← OrdMap.mem_entries, ← OrdMap.mem_entries]
    exact hset (id, x)
  have hrecords : (run env calls').records = (run env calls).records := congrArg OrdMap.entries hsame
  have hroots := h'.rebuildRoot (List.Perm.refl (run env calls').records)
  rw [h.rebuildRoot (hrecords ▸ List.Perm.refl _)] at hroots
  exact (Except.ok.inj hroots).symm

end SortedMerkleMap

end IrohRooms.Member
