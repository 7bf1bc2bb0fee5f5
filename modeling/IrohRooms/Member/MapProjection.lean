import IrohRooms.Member.Deltas
import IrohRooms.Member.RecordExact

/-!
# The member projection

The projected records of a community with the Merkle map over their bytes. `applyCommitted` follows the transitions that
the governance machine commits: an ordinary entry changes the record of one member as its payload says, and a fork
resolution rebuilds everything from the selected snapshot.
-/

namespace IrohRooms.Member

open Governance Cbor MerkleTree

deriving instance DecidableEq for ActiveDevice, ProjectedMemberRecord

variable (env : Env)

def projectGovernanceMember (m : MemberRecord) : Except Reject ProjectedMemberRecord := do
  let record := projectGovernanceMemberUnchecked m
  record.validate
  pure record

structure MemberMapProjection where
  communityId : Option CommunityId
  cursor : Option GovernanceTip
  records : OrdMap PrincipalId ProjectedMemberRecord
  map : SortedMerkleMap

inductive ProjectionUpdate
  | unchanged
  | updated (memberId : PrincipalId) (oldRoot newRoot : Digest)
  | synchronized (changedMembers : List PrincipalId) (oldRoot newRoot : Digest)

namespace MemberMapProjection

def new : MemberMapProjection := ⟨none, none, OrdMap.empty, .new⟩

/-- Records by their ids, each valid and no id twice. -/
def collectRecords (byId : OrdMap PrincipalId ProjectedMemberRecord) :
    List ProjectedMemberRecord → Except Reject (OrdMap PrincipalId ProjectedMemberRecord)
  | [] => .ok byId
  | record :: rest => do
    record.validate
    if byId.contains record.memberId then .error .invalidContent
    else collectRecords (byId.insert record.memberId record) rest

def fromRecords (records : List ProjectedMemberRecord) : Except Reject MemberMapProjection := do
  let byId ← collectRecords OrdMap.empty records
  let map ← SortedMerkleMap.fromValidatedRecords env (byId.values.map fun r => (r.memberId, r.canonicalBytes))
  pure ⟨none, none, byId, map⟩

def fromGovernanceState (state : GovernanceState) : Except Reject MemberMapProjection := do
  let records ← state.members.values.mapM projectGovernanceMember
  fromRecords env records

def fromValidatedState (state : ValidatedGovernanceState) : Except Reject MemberMapProjection := do
  let projection ← fromGovernanceState env state.state
  pure { projection with communityId := some state.state.communityId, cursor := some state.tip }

def root (p : MemberMapProjection) : Digest := p.map.root env

def insertNew (p : MemberMapProjection) (record : ProjectedMemberRecord) : Except Reject MemberMapProjection := do
  record.validate
  let map ← p.map.insertNew env record.memberId record.canonicalBytes
  pure { p with map := map, records := p.records.insert record.memberId record }

def replaceExisting (p : MemberMapProjection) (record : ProjectedMemberRecord) :
    Except Reject MemberMapProjection := do
  record.validate
  if p.records.contains record.memberId = false then .error .invalidContent
  else
    let (map, _) ← p.map.replaceExisting env record.memberId record.canonicalBytes
    pure { p with map := map, records := p.records.insert record.memberId record }

/-- The record of an active member. -/
def activeRecord (p : MemberMapProjection) (memberId : PrincipalId) : Except Reject ProjectedMemberRecord := do
  let record ← orReject .invalidContent (p.records.get? memberId)
  if record.status ≠ .active then .error .invalidContent else pure record

def storeRecord (p : MemberMapProjection) (record : ProjectedMemberRecord) : Except Reject MemberMapProjection := do
  record.validate
  p.replaceExisting env record

def applyMemberGrantPayload (p : MemberMapProjection) (grant : MemberGrant) (seq : UInt64) :
    Except Reject (MemberMapProjection × Option PrincipalId) := do
  let record := match p.records.get? grant.memberId with
    | some existing => existing.regranted grant seq
    | none => .granted grant seq
  record.validate
  let next ← if p.records.contains grant.memberId then p.replaceExisting env record else p.insertNew env record
  pure (next, some grant.memberId)

/-- The effect of a payload on the records, and the member it changed. -/
def applyMemberPayload (p : MemberMapProjection) (payload : GovernanceOperationPayload) (seq : UInt64) :
    Except Reject (MemberMapProjection × Option PrincipalId) :=
  match payload with
  | .memberGrant grant => p.applyMemberGrantPayload env grant seq
  | .memberRevoke q => do
    let record ← p.activeRecord q.memberId
    let next ← p.storeRecord env (record.revoked seq)
    pure (next, some q.memberId)
  | .memberRoleSet q => do
    let record ← p.activeRecord q.memberId
    let next ← p.storeRecord env (record.withRoles q)
    pure (next, some q.memberId)
  | .deviceGrant q => do
    let record ← p.activeRecord q.memberId
    let next ← p.storeRecord env (record.withDevice q)
    pure (next, some q.memberId)
  | .deviceRevoke q => do
    let record ← p.activeRecord q.memberId
    let next ← p.storeRecord env (record.withoutDevice q)
    pure (next, some q.memberId)
  | _ => .ok (p, none)

/-- The ids whose records differ, in ascending order. -/
def changedMembers (p q : MemberMapProjection) : List PrincipalId :=
  (OrdSet.sortDedup (p.records.keys ++ q.records.keys)).filter fun id => p.records.get? id ≠ q.records.get? id

/-- The outcome of an ordinary entry; the root of a changed projection must be that of the new state. -/
def linearUpdate (p candidate : MemberMapProjection) (next : GovernanceState) :
    Option PrincipalId → Except Reject ProjectionUpdate
  | some memberId =>
    if candidate.root env ≠ membersDevicesRolesRoot env next then .error .invalidContent
    else .ok (.updated memberId (p.root env) (candidate.root env))
  | none => .ok .unchanged

/-- The projection after a committed transition; an error leaves it as it was. -/
def applyCommitted (p : MemberMapProjection) (t : CommittedGovernanceTransition) :
    Except Reject (MemberMapProjection × ProjectionUpdate) := do
  let expected ← orReject .invalidContent p.communityId
  if t.prior.state.communityId ≠ expected ∨ t.next.state.communityId ≠ expected ∨ p.cursor ≠ some t.prior.tip then
    .error .invalidContent
  else match t.kind with
    | .linearAdvance => do
      let (candidate, effect) ← p.applyMemberPayload env t.entry.body.payload t.entry.body.seq
      let update ← p.linearUpdate env candidate t.next.state effect
      pure ({ candidate with cursor := some t.next.tip }, update)
    | .forkResolution => do
      let replacement ← fromValidatedState env t.next
      pure (replacement, .synchronized (p.changedMembers replacement) (p.root env) (replacement.root env))

end MemberMapProjection

variable {env}

/-! ### Maps with the same records -/

namespace SortedMerkleMap

variable {m m' : SortedMerkleMap} {c : OrdMap PrincipalId Bytes}

/-- The leaf of a record. -/
def leafFor (env : Env) (r : PrincipalId × Bytes) : Leaf := ⟨r.1, r.2, memberLeafHash env r.2⟩

theorem Holds.leaves_eq (h : m.Holds env c) : m.leaves = c.entries.map (leafFor env) := by
  obtain ⟨hwf, rfl⟩ := h
  show m.leaves = (m.leaves.map fun leaf => (leaf.memberId, leaf.canonical)).map (leafFor env)
  rw [List.map_map]
  conv_lhs => rw [← List.map_id m.leaves]
  refine List.map_congr_left fun leaf hleaf => ?_
  have hhash := (hwf.leaves leaf hleaf).hash
  obtain ⟨id, canonical, hash⟩ := leaf
  exact congrArg (Leaf.mk id canonical) hhash

/-- What a map holds determines it. -/
theorem Holds.unique (h : m.Holds env c) (h' : m'.Holds env c) : m = m' := by
  have hleaves : m.leaves = m'.leaves := h.leaves_eq.trans h'.leaves_eq.symm
  obtain ⟨hwf, -⟩ := h
  obtain ⟨hwf', -⟩ := h'
  have hlevels : m.levels = m'.levels := by rw [hwf.levels, hwf'.levels, hleaves]
  have hindex : m.index = m'.index := OrdMap.ext_get? fun id => by rw [hwf.index, hwf'.index, hleaves]
  obtain ⟨leaves, levels, index⟩ := m
  obtain ⟨leaves', levels', index'⟩ := m'
  dsimp only at hleaves hlevels hindex
  rw [hleaves, hlevels, hindex]

theorem Holds.root_eq (h : m.Holds env c) :
    m.root env = reduceLevels env c.values.length (c.values.map (memberLeafHash env)) := by
  have hleaves := h.leaves_eq
  obtain ⟨hwf, -⟩ := h
  rw [hwf.root_reduce, hleaves, List.map_map, List.length_map, OrdMap.values, List.map_map, List.length_map]
  rfl

theorem Holds.contains (h : m.Holds env c) (id : PrincipalId) : m.index.contains id = c.contains id := by
  obtain ⟨hwf, rfl⟩ := h
  exact (hwf.contents_contains id).symm

theorem Holds.insertNew (h : m.Holds env c) {id : PrincipalId} {canonical : Bytes}
    (hkeyed : validateKeyedRecord id canonical = .ok ()) (hnew : c.contains id = false) :
    ∃ next, m.insertNew env id canonical = .ok next ∧ next.Holds env (c.insert id canonical) := by
  have hok := @insertNew_isOk env m id canonical
  rw [hkeyed, h.contains, hnew] at hok
  obtain ⟨hwf, rfl⟩ := h
  cases hins : m.insertNew env id canonical with
  | error e =>
    rw [hins] at hok
    cases hok
  | ok next => exact ⟨next, rfl, hwf.insertNew hins, hwf.insertNew_contents _ hins⟩

theorem Holds.replaceExisting (h : m.Holds env c) {id : PrincipalId} {canonical : Bytes}
    (hkeyed : validateKeyedRecord id canonical = .ok ()) (hold : c.contains id = true) :
    ∃ next prev, m.replaceExisting env id canonical = .ok (next, prev) ∧ next.Holds env (c.insert id canonical) := by
  have hcontains := h.contains id
  obtain ⟨hwf, rfl⟩ := h
  have hok := hwf.replaceExisting_isOk id canonical
  rw [hkeyed, hcontains, hold] at hok
  cases hrep : m.replaceExisting env id canonical with
  | error e =>
    rw [hrep] at hok
    cases hok
  | ok next => exact ⟨next.1, next.2, rfl, hwf.replaceExisting hrep, hwf.replaceExisting_contents _ hrep⟩

theorem rebuildLevels_leaves (m : SortedMerkleMap) : (rebuildLevels env m).leaves = m.leaves := by
  unfold rebuildLevels
  split_ifs <;> rfl

/-- A full build from the entries of an ordered map. -/
theorem holds_fromValidatedRecords (hkeyed : ∀ k x, c.get? k = some x → validateKeyedRecord k x = .ok ()) :
    ∃ m, fromValidatedRecords env c.entries = .ok m ∧ m.Holds env c := by
  have hsorted : (c.entries.map (leafFor env)).Pairwise fun a b => a.memberId < b.memberId :=
    List.pairwise_map.mpr c.sorted
  have hsort : ((c.entries.map (leafFor env)).insertionSort fun a b => a.memberId ≤ b.memberId) =
      c.entries.map (leafFor env) := insertionSort_keyed (List.Perm.refl _) hsorted
  have hwindows : windowsAny (fun a b => decide (a.memberId = b.memberId)) (c.entries.map (leafFor env)) = false :=
    windowsAny_eq_false (hsorted.imp fun hlt => decide_eq_false hlt.ne)
  have hbuild : fromValidatedRecords env c.entries = .ok
      (rebuildLevels env ⟨c.entries.map (leafFor env), [], positions (c.entries.map (leafFor env))⟩) := by
    have hmap : (c.entries.map fun r => Leaf.mk r.1 r.2 (memberLeafHash env r.2)) = c.entries.map (leafFor env) := rfl
    unfold fromValidatedRecords
    dsimp only
    rw [hmap, hsort, hwindows, if_neg Bool.false_ne_true]
  have hchecked : c.entries.mapM (fun r => validateKeyedRecord r.1 r.2) = .ok (c.entries.map fun _ => ()) := by
    rw [mapM_eq_ok_iff, List.forall₂_map_right_iff, List.forall₂_same]
    exact fun r hr => hkeyed r.1 r.2 (OrdMap.mem_entries.mp hr)
  have hwf := wellFormed_fromRecords (bind_eq_ok_iff.mpr ⟨_, hchecked, hbuild⟩)
  refine ⟨_, hbuild, hwf, OrdMap.ext_get? fun k => Option.ext fun x => ?_⟩
  rw [hwf.contents_get?, rebuildLevels_leaves, ← OrdMap.mem_entries]
  constructor
  · rintro ⟨leaf, hleaf, rfl, rfl⟩
    obtain ⟨r, hr, rfl⟩ := List.mem_map.mp hleaf
    exact hr
  · intro hx
    exact ⟨_, List.mem_map.mpr ⟨_, hx, rfl⟩, rfl, rfl⟩

end SortedMerkleMap

/-! ### Projections of reachable states -/

/-- The bytes of the records. -/
def canonicalRecords (records : OrdMap PrincipalId ProjectedMemberRecord) : OrdMap PrincipalId Bytes :=
  records.mapValues ProjectedMemberRecord.canonicalBytes

theorem isSortedUnique_sortDedup (l : List String) : isSortedUnique (OrdSet.sortDedup l) = true := by
  have hsorted : (OrdSet.sortDedup l).Pairwise (· < ·) := OrdMap.keys_sorted _
  have hwindows : windowsAny (fun a b => decide (b < a)) (OrdSet.sortDedup l) = false :=
    windowsAny_eq_false (hsorted.imp fun hlt => decide_eq_false hlt.asymm)
  have hnodup : (OrdSet.sortDedup l).Nodup := hsorted.imp fun hlt => hlt.ne
  rw [isSortedUnique, hwindows, decide_eq_true hnodup]
  rfl

/-- The projection of a well-formed record is valid. -/
theorem validate_project {m : MemberRecord} {accepted : UInt64} (hm : m.Projectable) (hwf : m.WellFormed accepted) :
    (projectGovernanceMemberUnchecked m).validate = .ok () := by
  have hroles : (projectGovernanceMemberUnchecked m).roles ≠ [] := by
    obtain ⟨role, rest, hne⟩ := List.exists_cons_of_ne_nil hm.roles
    have hmem : role.asStr ∈ (projectGovernanceMemberUnchecked m).roles := by
      show role.asStr ∈ OrdSet.sortDedup (m.roles.map Governance.Role.asStr)
      rw [OrdSet.sortDedup, OrdSet.mem_toList, OrdSet.mem_ofList, hne]
      exact List.mem_cons_self
    exact List.ne_nil_of_mem hmem
  have hparse : ((projectGovernanceMemberUnchecked m).roles.any fun role =>
      (Governance.Role.parse role).isOk = false) = false := by
    rw [List.any_eq_false]
    intro label hlabel
    have hmem : label ∈ OrdSet.sortDedup (m.roles.map Governance.Role.asStr) := hlabel
    rw [OrdSet.sortDedup, OrdSet.mem_toList, OrdSet.mem_ofList] at hmem
    obtain ⟨role, -, rfl⟩ := List.mem_map.mp hmem
    rw [Governance.Role.parse_eq_ok.mpr rfl]
    simp [Except.isOk, Except.toBool]
  have hdevices : windowsAny (fun a b : ActiveDevice => decide (b.deviceId ≤ a.deviceId))
      (projectGovernanceMemberUnchecked m).activeDevices = false :=
    windowsAny_eq_false ((activeDevices_sorted hm.devices).imp fun hlt => decide_eq_false (not_le.mpr hlt))
  have hunique : isSortedUnique (projectGovernanceMemberUnchecked m).roles = true := isSortedUnique_sortDedup _
  have hlabels : ¬ (isSortedUnique (projectGovernanceMemberUnchecked m).roles = false ∨
      ((projectGovernanceMemberUnchecked m).roles.any fun role => (Governance.Role.parse role).isOk = false) = true) := by
    rw [hunique, hparse]
    simp
  rw [ProjectedMemberRecord.validate, if_neg (fun h => hroles h.2), if_neg hlabels, if_neg (by rw [hdevices]; decide)]
  have hseqs : (projectGovernanceMemberUnchecked m).revokeSeq = m.revokeSeq := rfl
  have hstatus : (projectGovernanceMemberUnchecked m).status = m.status := rfl
  have hrevoked := hwf.revoked
  rw [hseqs, hstatus]
  cases hs : m.status with
  | active =>
    cases hr : m.revokeSeq with
    | none => rfl
    | some seq => simp [hs, hr] at hrevoked
  | revoked =>
    cases hr : m.revokeSeq with
    | none => simp [hs, hr] at hrevoked
    | some seq => exact if_neg (not_le.mpr (hwf.later seq hr))

/-- A record of a reachable state is valid and stands under its own id. -/
theorem valid_of_records {s : GovernanceState} (hs : s.Reachable env) {a : PrincipalId} {r : ProjectedMemberRecord}
    (hr : s.records.get? a = some r) : r.validate = .ok () ∧ r.memberId = a := by
  rw [get?_records] at hr
  obtain ⟨m, hm, rfl⟩ := Option.map_eq_some_iff.mp hr
  exact ⟨validate_project (hs.projectable a m hm) (hs.invariant.members a m hm), hs.keyed.members a m hm⟩

/-- The bytes of every record fit in memory. -/
def RecordsFit (s : GovernanceState) : Prop := ∀ a r, s.records.get? a = some r → r.canonicalBytes.length ≤ usizeMax

theorem keyed_canonicalRecords {s : GovernanceState} (hs : s.Reachable env) (hfit : RecordsFit s) (k : PrincipalId)
    (x : Bytes) (hx : (canonicalRecords s.records).get? k = some x) : validateKeyedRecord k x = .ok () := by
  rw [canonicalRecords, OrdMap.get?_mapValues] at hx
  obtain ⟨r, hr, rfl⟩ := Option.map_eq_some_iff.mp hx
  obtain ⟨hvalid, rfl⟩ := valid_of_records hs hr
  exact validateKeyedRecord_canonicalBytes hvalid (hfit _ r hr)

namespace MemberMapProjection

variable {p q : MemberMapProjection} {s : ValidatedGovernanceState}

variable (env) in
/-- The projection is the one of a snapshot. -/
structure Mirrors (p : MemberMapProjection) (s : ValidatedGovernanceState) : Prop where
  communityId : p.communityId = some s.state.communityId
  cursor : p.cursor = some s.tip
  records : p.records = s.state.records
  map : p.map.Holds env (canonicalRecords s.state.records)

theorem Mirrors.unique (h : p.Mirrors env s) (h' : q.Mirrors env s) : p = q := by
  have hmap := h.map.unique h'.map
  obtain ⟨c, t, r, m⟩ := p
  obtain ⟨c', t', r', m'⟩ := q
  obtain ⟨rfl, rfl, rfl, -⟩ := h
  obtain ⟨rfl, rfl, rfl, -⟩ := h'
  exact congrArg (MemberMapProjection.mk _ _ _) hmap

/-- Valid records under ascending ids are collected one after the other. -/
theorem collectRecords_entries {l : List (PrincipalId × ProjectedMemberRecord)}
    {byId : OrdMap PrincipalId ProjectedMemberRecord} (hvalid : ∀ e ∈ l, e.2.validate = .ok () ∧ e.2.memberId = e.1)
    (hsorted : l.Pairwise fun a b => a.1 < b.1) (hnew : ∀ e ∈ l, byId.get? e.1 = none) :
    collectRecords byId (l.map Prod.snd) = .ok (l.foldl (fun m e => m.insert e.1 e.2) byId) := by
  induction l generalizing byId with
  | nil => rfl
  | cons e l ih =>
    obtain ⟨hlt, hsorted⟩ := List.pairwise_cons.mp hsorted
    obtain ⟨hok, hid⟩ := hvalid e List.mem_cons_self
    have habsent : byId.contains e.2.memberId = false := by
      rw [hid, OrdMap.contains, hnew e List.mem_cons_self]
      rfl
    rw [List.map_cons, collectRecords, hok]
    change (if byId.contains e.2.memberId = true then _ else _) = _
    rw [habsent, if_neg Bool.false_ne_true, hid, List.foldl_cons]
    refine ih (fun e' he' => hvalid e' (List.mem_cons_of_mem _ he')) hsorted fun e' he' => ?_
    rw [OrdMap.get?_insert, if_neg (hlt e' he').ne']
    exact hnew e' (List.mem_cons_of_mem _ he')

theorem foldl_insert_entries {ν : Type} (m : OrdMap PrincipalId ν) :
    m.entries.foldl (fun m e => m.insert e.1 e.2) OrdMap.empty = m := by
  refine OrdMap.ext_get? fun k => Option.ext fun x => ?_
  refine (get?_foldl_insert id m.keys_nodup OrdMap.empty (fun _ _ => OrdMap.get?_empty _) x).trans ?_
  simp [← OrdMap.mem_entries]

theorem fromValidatedState_mirrors (hs : s.state.Reachable env) (hfit : RecordsFit s.state) :
    ∃ p, fromValidatedState env s = .ok p ∧ p.Mirrors env s := by
  have hproject : s.state.members.values.mapM projectGovernanceMember = .ok s.state.records.values := by
    have hvalues : s.state.records.values = s.state.members.values.map projectGovernanceMemberUnchecked := by
      simp only [GovernanceState.records, OrdMap.values, OrdMap.mapValues, List.map_map, Function.comp_def]
    rw [hvalues, mapM_eq_ok_iff, List.forall₂_map_right_iff, List.forall₂_same]
    intro m hm
    obtain ⟨a, ha⟩ := OrdMap.mem_values.mp hm
    rw [projectGovernanceMember, validate_project (hs.projectable a m ha) (hs.invariant.members a m ha)]
    rfl
  have hcollect : collectRecords OrdMap.empty s.state.records.values = .ok s.state.records := by
    have hvalid : ∀ e ∈ s.state.records.entries, e.2.validate = .ok () ∧ e.2.memberId = e.1 := fun e he =>
      valid_of_records hs (OrdMap.mem_entries.mp he)
    rw [OrdMap.values, collectRecords_entries hvalid s.state.records.sorted (fun _ _ => OrdMap.get?_empty _),
      foldl_insert_entries]
  obtain ⟨map, hbuild, hmap⟩ := SortedMerkleMap.holds_fromValidatedRecords (keyed_canonicalRecords hs hfit)
  have hentries : (canonicalRecords s.state.records).entries =
      s.state.records.values.map fun r => (r.memberId, r.canonicalBytes) := by
    rw [canonicalRecords, OrdMap.mapValues, OrdMap.values, List.map_map]
    refine List.map_congr_left fun e he => ?_
    rw [Function.comp_apply, (valid_of_records hs (OrdMap.mem_entries.mp he)).2]
  rw [hentries] at hbuild
  refine ⟨⟨some s.state.communityId, some s.tip, s.state.records, map⟩, ?_, rfl, rfl, rfl, hmap⟩
  refine bind_eq_ok_iff.mpr ⟨⟨none, none, s.state.records, map⟩, ?_, rfl⟩
  refine bind_eq_ok_iff.mpr ⟨_, hproject, bind_eq_ok_iff.mpr ⟨_, hcollect, ?_⟩⟩
  exact bind_eq_ok_iff.mpr ⟨map, hbuild, rfl⟩

/-! ### One record -/

/-- The projection with a new record and map. -/
def put (p : MemberMapProjection) (r : ProjectedMemberRecord) (map : SortedMerkleMap) : MemberMapProjection :=
  { p with map := map, records := p.records.insert r.memberId r }

theorem canonicalRecords_insert (records : OrdMap PrincipalId ProjectedMemberRecord) (a : PrincipalId)
    (r : ProjectedMemberRecord) :
    canonicalRecords (records.insert a r) = (canonicalRecords records).insert a r.canonicalBytes := by
  refine OrdMap.ext_get? fun k => ?_
  rw [canonicalRecords, canonicalRecords, OrdMap.get?_mapValues, OrdMap.get?_insert, OrdMap.get?_insert,
    OrdMap.get?_mapValues]
  split_ifs <;> rfl

theorem contains_canonicalRecords (records : OrdMap PrincipalId ProjectedMemberRecord) (a : PrincipalId) :
    (canonicalRecords records).contains a = records.contains a := by
  rw [OrdMap.contains, canonicalRecords, OrdMap.get?_mapValues, Option.isSome_map]
  rfl

variable {r : ProjectedMemberRecord}

theorem insertNew_eq_ok (h : p.map.Holds env (canonicalRecords p.records)) (hvalid : r.validate = .ok ())
    (hfits : r.canonicalBytes.length ≤ usizeMax) (hnew : p.records.contains r.memberId = false) :
    ∃ map, p.insertNew env r = .ok (p.put r map) ∧ map.Holds env (canonicalRecords (p.put r map).records) := by
  obtain ⟨map, hins, hmap⟩ := h.insertNew (validateKeyedRecord_canonicalBytes hvalid hfits)
    ((contains_canonicalRecords _ _).trans hnew)
  refine ⟨map, ?_, canonicalRecords_insert p.records _ r ▸ hmap⟩
  exact bind_eq_ok_iff.mpr ⟨(), hvalid, bind_eq_ok_iff.mpr ⟨map, hins, rfl⟩⟩

theorem replaceExisting_eq_ok (h : p.map.Holds env (canonicalRecords p.records)) (hvalid : r.validate = .ok ())
    (hfits : r.canonicalBytes.length ≤ usizeMax) (hold : p.records.contains r.memberId = true) :
    ∃ map, p.replaceExisting env r = .ok (p.put r map) ∧ map.Holds env (canonicalRecords (p.put r map).records) := by
  obtain ⟨map, prev, hrep, hmap⟩ := h.replaceExisting (validateKeyedRecord_canonicalBytes hvalid hfits)
    ((contains_canonicalRecords _ _).trans hold)
  refine ⟨map, ?_, canonicalRecords_insert p.records _ r ▸ hmap⟩
  refine bind_eq_ok_iff.mpr ⟨(), hvalid, ?_⟩
  rw [if_neg (by simp [hold])]
  exact bind_eq_ok_iff.mpr ⟨(map, prev), hrep, rfl⟩

theorem storeRecord_eq (hvalid : r.validate = .ok ()) : p.storeRecord env r = p.replaceExisting env r := by
  rw [storeRecord, hvalid]
  rfl

/-! ### One payload -/

variable {old mid : GovernanceState} {seq : UInt64} {op : GovernanceOperationPayload} {a : PrincipalId}

/-- The record of an active member is there to be changed. -/
theorem activeRecord_eq_ok (hrecords : p.records = old.records) {m : MemberRecord} (hm : old.members.get? a = some m)
    (hactive : m.status = .active) : p.activeRecord a = .ok (projectGovernanceMemberUnchecked m) := by
  have hget : p.records.get? a = some (projectGovernanceMemberUnchecked m) := by
    rw [hrecords, get?_records, hm]
    rfl
  have hstatus : ¬ (projectGovernanceMemberUnchecked m).status ≠ .active := not_not.mpr hactive
  rw [activeRecord, hget]
  exact if_neg hstatus

/-- A change of an active record replaces it. -/
theorem store_effect (hrecords : p.records = old.records) {m : MemberRecord} (hm : old.members.get? a = some m)
    (hactive : m.status = .active) (change : ProjectedMemberRecord → ProjectedMemberRecord)
    (hvalid : (change (projectGovernanceMemberUnchecked m)).validate = .ok ()) :
    (do
      let record ← p.activeRecord a
      let next ← p.storeRecord env (change record)
      pure (next, some a) : Except Reject (MemberMapProjection × Option PrincipalId)) =
      (if old.records.contains a then p.replaceExisting env (change (projectGovernanceMemberUnchecked m))
        else p.insertNew env (change (projectGovernanceMemberUnchecked m))).map fun next => (next, some a) := by
  have hcontains : old.records.contains a = true := by
    rw [OrdMap.contains, get?_records, hm]
    rfl
  rw [if_pos hcontains, activeRecord_eq_ok hrecords hm hactive]
  dsimp only [bind, Except.bind]
  rw [storeRecord_eq hvalid]
  rfl

/-- A payload stores the record that the operation leaves. -/
theorem applyMemberPayload_effect (hrecords : p.records = old.records) (happly : applyOperation old seq op = .ok mid)
    (heffect : memberEffect old.records seq op = some (a, r)) (hvalid : r.validate = .ok ()) :
    p.applyMemberPayload env op seq =
      (if old.records.contains a then p.replaceExisting env r else p.insertNew env r).map fun next => (next, some a) := by
  cases op with
  | memberGrant g =>
    rw [applyMemberPayload, applyMemberGrantPayload, OrdMap.contains, hrecords, OrdMap.contains]
    rw [memberEffect] at heffect
    cases hget : old.records.get? g.memberId with
    | none =>
      rw [hget] at heffect
      cases heffect
      simp only [hvalid, hget, bind, Except.bind]
      rfl
    | some existing =>
      rw [hget] at heffect
      cases heffect
      simp only [hvalid, hget, bind, Except.bind]
      rfl
  | memberRevoke q =>
    obtain ⟨m, hm, hactive, -⟩ := applyMemberRevokeAt_eq_ok.mp happly
    rw [memberEffect, get?_records, hm] at heffect
    cases heffect
    exact store_effect hrecords hm hactive (fun r => r.revoked seq) hvalid
  | memberRoleSet q =>
    obtain ⟨-, m, hm, hactive, -⟩ := applyMemberRoleSetAt_eq_ok.mp happly
    rw [memberEffect, get?_records, hm] at heffect
    cases heffect
    exact store_effect hrecords hm hactive (fun r => r.withRoles q) hvalid
  | deviceGrant q =>
    obtain ⟨-, m, hm, hactive, -⟩ := applyDeviceGrantAt_eq_ok.mp happly
    rw [memberEffect, get?_records, hm] at heffect
    cases heffect
    exact store_effect hrecords hm hactive (fun r => r.withDevice q) hvalid
  | deviceRevoke q =>
    obtain ⟨m, d, hm, hactive, -⟩ := applyDeviceRevokeAt_eq_ok.mp happly
    rw [memberEffect, get?_records, hm] at heffect
    cases heffect
    exact store_effect hrecords hm hactive (fun r => r.withoutDevice q) hvalid
  | _ => cases heffect

/-- An operation that applies and rewrites no record is not about a member. -/
theorem applyMemberPayload_none (happly : applyOperation old seq op = .ok mid)
    (heffect : memberEffect old.records seq op = none) : p.applyMemberPayload env op seq = .ok (p, none) := by
  cases op with
  | memberGrant g =>
    rw [memberEffect] at heffect
    cases hget : old.records.get? g.memberId <;> rw [hget] at heffect <;> cases heffect
  | memberRevoke q =>
    obtain ⟨m, hm, -⟩ := applyMemberRevokeAt_eq_ok.mp happly
    rw [memberEffect, get?_records, hm] at heffect
    cases heffect
  | memberRoleSet q =>
    obtain ⟨-, m, hm, -⟩ := applyMemberRoleSetAt_eq_ok.mp happly
    rw [memberEffect, get?_records, hm] at heffect
    cases heffect
  | deviceGrant q =>
    obtain ⟨-, m, hm, -⟩ := applyDeviceGrantAt_eq_ok.mp happly
    rw [memberEffect, get?_records, hm] at heffect
    cases heffect
  | deviceRevoke q =>
    obtain ⟨m, d, hm, -⟩ := applyDeviceRevokeAt_eq_ok.mp happly
    rw [memberEffect, get?_records, hm] at heffect
    cases heffect
  | _ => rfl

/-- A payload takes the records of the state before to those of the state after. -/
theorem applyMemberPayload_records (h : p.map.Holds env (canonicalRecords p.records)) (hrecords : p.records = old.records)
    (happly : applyOperation old seq op = .ok mid) (hprojectable : old.Projectable)
    (hvalid : ∀ a r, mid.records.get? a = some r → r.validate = .ok () ∧ r.memberId = a) (hfit : RecordsFit mid) :
    ∃ q effect, p.applyMemberPayload env op seq = .ok (q, effect) ∧ q.communityId = p.communityId ∧
      q.records = mid.records ∧ q.map.Holds env (canonicalRecords mid.records) := by
  have hmid := applyOperation_records hprojectable happly
  cases heffect : memberEffect old.records seq op with
  | none =>
    rw [heffect] at hmid
    have hsame : p.records = mid.records := hrecords.trans hmid.symm
    exact ⟨p, none, applyMemberPayload_none happly heffect, rfl, hsame, hsame ▸ h⟩
  | some e =>
    obtain ⟨a, r⟩ := e
    rw [heffect] at hmid
    have hput : mid.records = old.records.insert a r := hmid
    have hget : mid.records.get? a = some r := by rw [hput, OrdMap.get?_insert_self]
    obtain ⟨hok, rfl⟩ := hvalid a r hget
    have hstored : ∀ map, (p.put r map).records = mid.records := fun map => by rw [put, hrecords, hput]
    have hpayload := @applyMemberPayload_effect env p r old mid seq op r.memberId hrecords happly heffect hok
    rw [← hrecords] at hpayload
    -- one way or the other the record is stored
    obtain ⟨map, hstore, hmap⟩ : ∃ map, (if p.records.contains r.memberId then p.replaceExisting env r
        else p.insertNew env r) = .ok (p.put r map) ∧ map.Holds env (canonicalRecords (p.put r map).records) := by
      cases hcontains : p.records.contains r.memberId with
      | true => exact replaceExisting_eq_ok h hok (hfit _ r hget) hcontains
      | false => exact insertNew_eq_ok h hok (hfit _ r hget) hcontains
    rw [hstore] at hpayload
    exact ⟨p.put r map, some r.memberId, hpayload, rfl, hstored map, hstored map ▸ hmap⟩

/-! ### Transitions -/

variable {prior next : ValidatedGovernanceState} {entry : AuthenticatedGovernanceEvidence}
  {selected : Option ValidatedGovernanceState}

/-- The root of a projection with the records of a state is the one that the state root commits to. -/
theorem root_eq_of_records {s : GovernanceState} (h : p.map.Holds env (canonicalRecords s.records)) :
    p.root env = membersDevicesRolesRoot env s := by
  have hvalues : (canonicalRecords s.records).values =
      s.members.values.map fun m => encode (projectGovernanceMemberUnchecked m).toCbor := by
    simp only [canonicalRecords, GovernanceState.records, OrdMap.values, OrdMap.mapValues, List.map_map,
      Function.comp_def, ProjectedMemberRecord.canonicalBytes]
  rw [root, h.root_eq, hvalues, membersDevicesRolesRoot, List.map_map, List.length_map]
  simp only [List.length_map]
  rfl

/-- The transition of an ordinary entry takes the projection of one snapshot to that of the next. -/
theorem applyCommitted_linear (h : p.Mirrors env prior) (hprior : prior.state.Reachable env)
    (happly : applyEntry prior.state entry.body.seq entry.body.payload = .ok next.state)
    (hfit : RecordsFit next.state) :
    ∃ q update, p.applyCommitted env ⟨prior, next, .linearAdvance, entry, selected⟩ = .ok (q, update) ∧
      q.Mirrors env next := by
  have hcommunity := applyEntry_communityId happly
  have hnext : next.state.Reachable env := .apply hprior happly
  obtain ⟨-, mid, hmid, hstate⟩ := applyEntry_eq_ok.mp happly
  have hrecords : mid.records = next.state.records := by rw [hstate]; rfl
  have hmap : p.map.Holds env (canonicalRecords p.records) := h.records ▸ h.map
  obtain ⟨q, effect, hpayload, hq, hqrecords, hqmap⟩ := applyMemberPayload_records hmap h.records hmid
    hprior.projectable (fun a r hr => valid_of_records hnext (hrecords ▸ hr)) (fun a r hr => hfit a r (hrecords ▸ hr))
  have hroot : q.root env = membersDevicesRolesRoot env next.state := root_eq_of_records (hrecords ▸ hqmap)
  obtain ⟨update, hupdate⟩ : ∃ update, p.linearUpdate env q next.state effect = .ok update := by
    cases effect with
    | none => exact ⟨_, rfl⟩
    | some a => exact ⟨_, if_neg (not_not.mpr hroot)⟩
  refine ⟨{ q with cursor := some next.tip }, update, ?_, ?_, rfl, hqrecords.trans hrecords, hrecords ▸ hqmap⟩
  · refine bind_eq_ok_iff.mpr ⟨_, orReject_eq_ok.mpr h.communityId, ?_⟩
    rw [if_neg]
    · exact bind_eq_ok_iff.mpr ⟨_, hpayload, bind_eq_ok_iff.mpr ⟨update, hupdate, rfl⟩⟩
    · rintro (hne | hne | hne)
      · exact hne rfl
      · exact hne hcommunity
      · exact hne h.cursor
  · show q.communityId = _
    rw [hq, h.communityId, hcommunity]

/-- The transition of a resolution rebuilds the projection. -/
theorem applyCommitted_fork (h : p.Mirrors env prior) (hnext : next.state.Reachable env)
    (hcommunity : next.state.communityId = prior.state.communityId) (hfit : RecordsFit next.state) :
    ∃ q update, p.applyCommitted env ⟨prior, next, .forkResolution, entry, selected⟩ = .ok (q, update) ∧
      q.Mirrors env next := by
  obtain ⟨q, hbuild, hq⟩ := fromValidatedState_mirrors hnext hfit
  refine ⟨q, .synchronized (p.changedMembers q) (p.root env) (q.root env), ?_, hq⟩
  refine bind_eq_ok_iff.mpr ⟨_, orReject_eq_ok.mpr h.communityId, ?_⟩
  rw [if_neg]
  · exact bind_eq_ok_iff.mpr ⟨q, hbuild, rfl⟩
  · rintro (hne | hne | hne)
    · exact hne rfl
    · exact hne hcommunity
    · exact hne h.cursor

end MemberMapProjection

end IrohRooms.Member
