import IrohRooms.Governance.Commitment
import IrohRooms.Governance.Decode

/-!
# Genesis bytes and genesis configurations

A decoded configuration is put in canonical order: administrators are sorted and deduplicated, replicas sorted by id,
the sets of the policy and its markers written in order. Its signed bytes are the received ones exactly if the lists
stood in that order already (`InOrder`); everything else is kept as it was read.
-/

namespace IrohRooms.Governance

open Cbor

/-! ### Values that were decoded -/

/-- The keys of every map in order, and the whole small enough for memory. -/
structure Received (v : CborValue) : Prop where
  ordered : Ordered v
  fits : (encode v).length ≤ usizeMax

namespace Received

variable {entries : List (String × CborValue)} {items : List CborValue} {v : CborValue} {k : String}

theorem of_decode {b : Bytes} (h : decodeCanonical b = .ok v) : Received v ∧ encode v = b :=
  have hv := decodeCanonical_eq_ok.mp h
  ⟨⟨hv.1.ordered, hv.1.fits⟩, hv.2⟩

theorem nodup (h : Received (.map entries)) : (entries.map Prod.fst).Nodup :=
  Fields.keysOnce_iff.mp (Fields.keysOnce_of_ordered h.ordered)

theorem of_lookup (h : Received (.map entries)) (hv : entries.lookup k = some v) : Received v := by
  have hmem := (lookup_eq_some_iff h.nodup).mp hv
  have hordered := h.ordered
  rw [Ordered, orderedEntries_iff] at hordered
  exact ⟨hordered.2 (k, v) hmem, ((fits_entries h.fits).2 (k, v) hmem).2⟩

theorem of_item (h : Received (.array items)) (hv : v ∈ items) : Received v := by
  have hordered := h.ordered
  rw [Ordered, orderedItems_iff] at hordered
  exact ⟨hordered v hv, (fits_items h.fits).2 v hv⟩

/-- A closed record is written back exactly if each of its fields is. -/
theorem encode_closed_iff {written : List (String × CborValue)} {allowed : List String} (h : Received (.map entries))
    (hwritten : (written.map Prod.fst).Nodup) (hclosed : ∀ e ∈ entries, e.1 ∈ allowed)
    (hclosed' : ∀ e ∈ written, e.1 ∈ allowed) :
    encode (.map written) = encode (.map entries) ↔
      ∀ k ∈ allowed, (written.lookup k).map encode = (entries.lookup k).map encode := by
  rw [encode_map_iff_lookup h.nodup hwritten h.fits]
  constructor
  · exact fun hall k _ => hall k
  · intro hall k
    by_cases hk : k ∈ allowed
    · exact hall k hk
    · rw [lookup_eq_none_of_closed hclosed hk, lookup_eq_none_of_closed hclosed' hk]

theorem encode_array_iff {items' : List CborValue} (h : Received (.array items)) :
    encode (.array items') = encode (.array items) ↔ items'.map encode = items.map encode := by
  have hall : items'.map encode = items.map encode ↔ List.Forall₂ (fun a b => encode a = encode b) items items' := by
    rw [eq_comm, ← List.forall₂_eq_eq_eq, List.forall₂_map_left_iff, List.forall₂_map_right_iff]
  rw [hall]
  exact ⟨fun heq => encode_array_inj h.fits heq.symm, fun hall => (encode_array_congr hall).symm⟩

end Received

/-- A reader that keeps what it reads. -/
def Keeps {α : Type} (read : CborValue → Except Reject α) (write : α → CborValue) : Prop :=
  ∀ v x, Received v → read v = .ok x → encode (write x) = encode v

theorem Keeps.mapM {α : Type} {read : CborValue → Except Reject α} {write : α → CborValue} (hread : Keeps read write)
    {items : List CborValue} {l : List α} (hitems : ∀ v ∈ items, Received v) (h : items.mapM read = .ok l) :
    items.map encode = l.map fun x => encode (write x) := by
  have hall := mapM_eq_ok_iff.mp h
  clear h
  induction hall with
  | nil => rfl
  | @cons v x items l hv _ ih =>
    rw [List.map_cons, List.map_cons, hread v x (hitems v List.mem_cons_self) hv,
      ih fun w hw => hitems w (List.mem_cons_of_mem _ hw)]

/-! ### Records that are kept -/

theorem RecoveryConfig.keeps : Keeps RecoveryConfig.fromCanonical RecoveryConfig.toCbor := by
  intro v c hv h
  obtain ⟨entries, hentries, h⟩ := bind_eq_ok_iff.mp h
  obtain ⟨_, hclosed, h⟩ := bind_eq_ok_iff.mp h
  obtain ⟨threshold, hthreshold, h⟩ := bind_eq_ok_iff.mp h
  obtain ⟨recoveryKeys, hkeys, h⟩ := bind_eq_ok_iff.mp h
  obtain rfl := Except.ok.inj h
  rw [orReject_eq_ok, asMap_eq_some] at hentries
  subst hentries
  rw [readU16Field_eq_ok] at hthreshold
  rw [readIdArray_eq_ok] at hkeys
  refine (hv.encode_closed_iff (by simp) (rejectUnknownKeys_eq_ok.mp hclosed) (by simp [keys])).mpr fun k hk => ?_
  simp only [keys, List.mem_cons, List.not_mem_nil, or_false] at hk
  rcases hk with rfl | rfl
  · rw [hthreshold]
    rfl
  · rw [hkeys]
    rfl

theorem ReplicaDescriptor.keeps : Keeps ReplicaDescriptor.fromCanonical ReplicaDescriptor.toCbor := by
  intro v d hv h
  obtain ⟨entries, hentries, h⟩ := bind_eq_ok_iff.mp h
  obtain ⟨_, hclosed, h⟩ := bind_eq_ok_iff.mp h
  obtain ⟨replicaId, hid, h⟩ := bind_eq_ok_iff.mp h
  obtain ⟨endpoint, hendpoint, h⟩ := bind_eq_ok_iff.mp h
  obtain ⟨capability, hcapability, h⟩ := bind_eq_ok_iff.mp h
  obtain rfl := Except.ok.inj h
  rw [orReject_eq_ok, asMap_eq_some] at hentries
  subst hentries
  rw [idField_eq_ok] at hid
  rw [bytes_field_eq_ok] at hendpoint
  rw [readU8Field_eq_ok] at hcapability
  refine (hv.encode_closed_iff (by simp) (rejectUnknownKeys_eq_ok.mp hclosed) (by simp [keys])).mpr fun k hk => ?_
  simp only [keys, List.mem_cons, List.not_mem_nil, or_false] at hk
  rcases hk with rfl | rfl | rfl
  · rw [hid]
    rfl
  · rw [hendpoint]
    rfl
  · rw [hcapability]
    rfl

theorem ResolvedForkMarker.keeps : Keeps ResolvedForkMarker.fromCanonical ResolvedForkMarker.toCbor := by
  intro v m hv h
  rw [fromCanonical, map_eq_ok_iff] at h
  obtain ⟨p, h, rfl⟩ := h
  unfold readResolution at h
  obtain ⟨entries, hentries, h⟩ := bind_eq_ok_iff.mp h
  obtain ⟨_, hclosed, h⟩ := bind_eq_ok_iff.mp h
  obtain ⟨⟨heads, selected⟩, hset, h⟩ := bind_eq_ok_iff.mp h
  obtain ⟨root, hroot, h⟩ := bind_eq_ok_iff.mp h
  obtain ⟨createdAtMs, hcreated, h⟩ := bind_eq_ok_iff.mp h
  obtain rfl := Except.ok.inj h
  rw [orReject_eq_ok, asMap_eq_some] at hentries
  subst hentries
  obtain ⟨hheads, hselected, -⟩ := readCanonicalBranchSet_eq_ok hset
  rw [idField_eq_ok] at hroot
  rw [uint_field_eq_ok] at hcreated
  refine (hv.encode_closed_iff (by simp) (rejectUnknownKeys_eq_ok.mp hclosed) (by simp [ForkResolve.marker])).mpr
    fun k hk => ?_
  simp only [List.mem_cons, List.not_mem_nil, or_false] at hk
  rcases hk with rfl | rfl | rfl | rfl
  · rw [hheads]
    rfl
  · rw [hselected]
    rfl
  · rw [hroot]
    rfl
  · rw [hcreated]
    rfl

/-! ### Lists that are put in order -/

theorem encode_ids_iff {kind : IdKind} {l l' : List (Id kind)} (h : Received (.array (l.map Id.toCbor))) :
    encode (.array (l'.map Id.toCbor)) = encode (.array (l.map Id.toCbor)) ↔ l' = l := by
  constructor
  · exact fun heq => (binds_ids l l' h.fits heq.symm).symm
  · rintro rfl
    rfl

theorem pairwise_insertionSort_iff {α β : Type} {key : α → β} {le : β → β → Prop} [DecidableRel le]
    (htotal : ∀ a b, le a b ∨ le b a) (htrans : ∀ {a b c}, le a b → le b c → le a c) {l : List α} :
    (l.insertionSort fun a b => le (key a) (key b)).map key = l.map key ↔ l.Pairwise fun a b => le (key a) (key b) := by
  have : Std.Total fun a b : α => le (key a) (key b) := ⟨fun a b => htotal (key a) (key b)⟩
  have : IsTrans α fun a b => le (key a) (key b) := ⟨fun _ _ _ => htrans⟩
  constructor
  · intro h
    have hsorted := List.pairwise_map.mpr (List.pairwise_insertionSort (fun a b => le (key a) (key b)) l)
    rw [h] at hsorted
    exact List.pairwise_map.mp hsorted
  · intro h
    rw [List.Pairwise.insertionSort_eq h]

/-- The lists of a received policy in the order in which they are written. -/
structure CommunityPolicy.InOrder (entries : List (String × CborValue)) : Prop where
  invites : ∀ l : List Digest, readIdArray entries "revoked_invites" = .ok l → l.Pairwise (· < ·)
  markers : ∀ l, readMarkerArray entries "fork_markers" = .ok l →
    l.Pairwise fun a b => encode a.toCbor ≤ encode b.toCbor
  migrations : ∀ l : List Digest, readIdArray entries "migrations" = .ok l → l.Pairwise (· < ·)

theorem CommunityPolicy.encode_iff {entries : List (String × CborValue)} {p : CommunityPolicy}
    (hv : Received (.map entries)) (h : CommunityPolicy.fromCanonical (.map entries) = .ok p) :
    encode p.toCbor = encode (.map entries) ↔ CommunityPolicy.InOrder entries := by
  obtain ⟨_, hentries, h⟩ := bind_eq_ok_iff.mp h
  obtain rfl : entries = _ := Option.some.inj (orReject_eq_ok.mp hentries)
  obtain ⟨_, hclosed, h⟩ := bind_eq_ok_iff.mp h
  obtain ⟨revokedInvites, hinvites, h⟩ := bind_eq_ok_iff.mp h
  obtain ⟨forkMarkers, hmarkers, h⟩ := bind_eq_ok_iff.mp h
  obtain ⟨migrations, hmigrations, h⟩ := bind_eq_ok_iff.mp h
  obtain rfl := Except.ok.inj h
  obtain ⟨invites, hlookup₁, hinvites⟩ := readByteArraySet_eq_ok hinvites
  obtain ⟨migrated, hlookup₃, hmigrations⟩ := readByteArraySet_eq_ok hmigrations
  obtain ⟨items, hitems, hmapM⟩ := bind_eq_ok_iff.mp hmarkers
  obtain ⟨_, hlookup₂, harray⟩ := field_eq_ok.mp hitems
  rw [asArray_eq_some] at harray
  subst harray
  -- each list by itself
  have hids : ∀ {l : List Digest} {set : OrdSet Digest} {key : String},
      entries.lookup key = some (.array (l.map Id.toCbor)) → set.toList = OrdSet.sortDedup l →
      (encode (.array (set.toList.map Id.toCbor)) = encode (.array (l.map Id.toCbor)) ↔
        ∀ l' : List Digest, readIdArray entries key = .ok l' → l'.Pairwise (· < ·)) := by
    intro l set key hlookup hset
    rw [hset, encode_ids_iff (hv.of_lookup hlookup), OrdSet.sortDedup_eq_self]
    constructor
    · intro hl l' hread
      rw [readIdArray_eq_ok, hlookup] at hread
      obtain rfl := (encode_ids_iff (hv.of_lookup hlookup)).mp (congrArg encode (Option.some.inj hread)).symm
      exact hl
    · exact fun hall => hall l (readIdArray_eq_ok.mpr hlookup)
  have hencodings := ResolvedForkMarker.keeps.mapM (fun v => (hv.of_lookup hlookup₂).of_item) hmapM
  have hmarked : encode (.array ((ResolvedForkMarker.sort forkMarkers).map ResolvedForkMarker.toCbor)) =
      encode (.array items) ↔ ∀ l, readMarkerArray entries "fork_markers" = .ok l →
        l.Pairwise fun a b => encode a.toCbor ≤ encode b.toCbor := by
    rw [(hv.of_lookup hlookup₂).encode_array_iff, hencodings, List.map_map]
    refine (@pairwise_insertionSort_iff _ _ (fun m : ResolvedForkMarker => encode m.toCbor) _ _ List.le_total
      List.le_trans forkMarkers).trans ?_
    constructor
    · intro hl l hread
      obtain rfl := Except.ok.inj (hmarkers.symm.trans hread)
      exact hl
    · exact fun hall => hall _ hmarkers
  have hfields : encode (CommunityPolicy.toCbor ⟨revokedInvites, forkMarkers, migrations⟩) = encode (.map entries) ↔
      ∀ k ∈ keys, _ := hv.encode_closed_iff (by simp) (rejectUnknownKeys_eq_ok.mp hclosed) (by simp [keys])
  rw [hfields]
  constructor
  · intro hall
    have h₁ := hall "revoked_invites" (by simp [keys])
    have h₂ := hall "fork_markers" (by simp [keys])
    have h₃ := hall "migrations" (by simp [keys])
    rw [hlookup₁] at h₁
    rw [hlookup₂] at h₂
    rw [hlookup₃] at h₃
    exact ⟨(hids hlookup₁ hinvites).mp (Option.some.inj h₁), hmarked.mp (Option.some.inj h₂),
      (hids hlookup₃ hmigrations).mp (Option.some.inj h₃)⟩
  · intro horder k hk
    simp only [keys, List.mem_cons, List.not_mem_nil, or_false] at hk
    rcases hk with rfl | rfl | rfl
    · rw [hlookup₁]
      exact congrArg some ((hids hlookup₁ hinvites).mpr horder.invites)
    · rw [hlookup₂]
      exact congrArg some (hmarked.mpr horder.markers)
    · rw [hlookup₃]
      exact congrArg some ((hids hlookup₃ hmigrations).mpr horder.migrations)

/-! ### The genesis -/

/-- The lists of a received genesis in the order in which they are written. -/
structure GenesisConfig.InOrder (entries : List (String × CborValue)) : Prop where
  administrators : ∀ l : List PrincipalId, readIdArray entries "administrators" = .ok l → l.Pairwise (· < ·)
  replicas : ∀ items l, entries.lookup "replicas" = some (.array items) →
    items.mapM ReplicaDescriptor.fromCanonical = .ok l → l.Pairwise fun a b => a.replicaId ≤ b.replicaId
  policy : ∀ policy, entries.lookup "community_policy" = some (.map policy) → CommunityPolicy.InOrder policy

theorem replicas_encode_iff {items : List CborValue} {replicas : List ReplicaDescriptor} (hv : Received (.array items))
    (h : readReplicaArray (.array items) = .ok replicas) :
    encode (.array (replicas.map ReplicaDescriptor.toCbor)) = encode (.array items) ↔
      ∀ l, items.mapM ReplicaDescriptor.fromCanonical = .ok l → l.Pairwise fun a b => a.replicaId ≤ b.replicaId := by
  obtain ⟨_, hitems, h⟩ := bind_eq_ok_iff.mp h
  obtain rfl : items = _ := Option.some.inj (orReject_eq_ok.mp hitems)
  obtain ⟨out, hout, h⟩ := bind_eq_ok_iff.mp h
  split_ifs at h with hunique
  obtain rfl := Except.ok.inj h
  have hencodings := ReplicaDescriptor.keeps.mapM (fun v => hv.of_item) hout
  rw [hv.encode_array_iff, hencodings, List.map_map]
  have hread : (∀ l, items.mapM ReplicaDescriptor.fromCanonical = .ok l → l.Pairwise fun a b => a.replicaId ≤ b.replicaId) ↔
      out.Pairwise fun a b => a.replicaId ≤ b.replicaId := by
    constructor
    · exact fun hall => hall out hout
    · intro hpairwise l hl
      obtain rfl := Except.ok.inj (hout.symm.trans hl)
      exact hpairwise
  rw [hread]
  have hfits : ∀ d ∈ out, (encode d.toCbor).length ≤ usizeMax := by
    intro d hd
    have hmem : encode d.toCbor ∈ items.map encode := by
      rw [hencodings]
      exact List.mem_map.mpr ⟨d, hd, rfl⟩
    obtain ⟨v, hitem, heq⟩ := List.mem_map.mp hmem
    rw [← heq]
    exact (hv.of_item hitem).fits
  constructor
  · intro h
    -- the encodings tell the replicas apart, so the sort moved none of them
    have hall : List.Forall₂ (fun a b : ReplicaDescriptor => encode a.toCbor = encode b.toCbor)
        (out.insertionSort fun a b => a.replicaId ≤ b.replicaId) out := by
      rw [← List.forall₂_eq_eq_eq, List.forall₂_map_left_iff, List.forall₂_map_right_iff] at h
      exact h
    have hsame := Binds.eq_of_forall₂ hall fun a ha b hab =>
      ReplicaDescriptor.binds a b (hfits a ((List.mem_insertionSort _).mp ha)) hab
    refine (@pairwise_insertionSort_iff _ _ ReplicaDescriptor.replicaId (· ≤ ·) _ le_total le_trans out).mp ?_
    rw [hsame]
  · intro hpairwise
    rw [List.Pairwise.insertionSort_eq hpairwise]
    rfl

section Genesis

variable {env : Env} {entries : List (String × CborValue)} {c : GenesisConfig}

theorem GenesisConfig.encode_iff (hv : Received (.map entries)) (h : GenesisConfig.fromCanonical (.map entries) = .ok c) :
    genesisConfigCsb c = encode (.map entries) ↔ GenesisConfig.InOrder entries := by
  obtain ⟨_, hentries, h⟩ := bind_eq_ok_iff.mp h
  obtain rfl : entries = _ := Option.some.inj (orReject_eq_ok.mp hentries)
  obtain ⟨_, hclosed, h⟩ := bind_eq_ok_iff.mp h
  obtain ⟨schemaVersion, hversion, h⟩ := bind_eq_ok_iff.mp h
  split_ifs at h with hknown
  obtain ⟨createdAtMs, hcreated, h⟩ := bind_eq_ok_iff.mp h
  obtain ⟨nonce, hnonce, h⟩ := bind_eq_ok_iff.mp h
  obtain ⟨threshold, hthreshold, h⟩ := bind_eq_ok_iff.mp h
  obtain ⟨administrators, hadmins, h⟩ := bind_eq_ok_iff.mp h
  obtain ⟨recoveryVal, hrecoveryVal, h⟩ := bind_eq_ok_iff.mp h
  obtain ⟨recovery, hrecovery, h⟩ := bind_eq_ok_iff.mp h
  obtain ⟨replicasVal, hreplicasVal, h⟩ := bind_eq_ok_iff.mp h
  obtain ⟨replicas, hreplicas, h⟩ := bind_eq_ok_iff.mp h
  obtain ⟨policyVal, hpolicyVal, h⟩ := bind_eq_ok_iff.mp h
  obtain ⟨policy, hpolicy, h⟩ := bind_eq_ok_iff.mp h
  obtain rfl := Except.ok.inj h
  rw [orReject_eq_ok] at hrecoveryVal hreplicasVal hpolicyVal
  rw [uint_field_eq_ok] at hversion hcreated
  rw [idField_eq_ok] at hnonce
  rw [readU16Field_eq_ok] at hthreshold
  have hlookup := readIdArray_eq_ok.mp hadmins
  obtain ⟨items, hitems, -⟩ := bind_eq_ok_iff.mp hreplicas
  rw [orReject_eq_ok, asArray_eq_some] at hitems
  subst hitems
  obtain ⟨fields, hfields, -⟩ := bind_eq_ok_iff.mp hpolicy
  rw [orReject_eq_ok, asMap_eq_some] at hfields
  subst hfields
  -- the three fields that are put in order, and the one that is kept though it is a record
  have hkept := RecoveryConfig.keeps _ _ (hv.of_lookup hrecoveryVal) hrecovery
  have hadminsOrder : encode (.array ((OrdSet.sortDedup administrators).map Id.toCbor)) =
      encode (.array (administrators.map Id.toCbor)) ↔
      ∀ l : List PrincipalId, readIdArray entries "administrators" = .ok l → l.Pairwise (· < ·) := by
    rw [encode_ids_iff (hv.of_lookup hlookup), OrdSet.sortDedup_eq_self]
    constructor
    · intro hl l hread
      obtain rfl := Except.ok.inj (hadmins.symm.trans hread)
      exact hl
    · exact fun hall => hall _ hadmins
  have hreplicasOrder := replicas_encode_iff (hv.of_lookup hreplicasVal) hreplicas
  have hpolicyOrder := CommunityPolicy.encode_iff (hv.of_lookup hpolicyVal) hpolicy
  have hall : genesisConfigCsb ⟨schemaVersion, createdAtMs, nonce, threshold, OrdSet.sortDedup administrators, recovery,
      replicas, policy⟩ = encode (.map entries) ↔ ∀ k ∈ keys, _ :=
    hv.encode_closed_iff (by simp) (rejectUnknownKeys_eq_ok.mp hclosed) (by simp [keys])
  rw [hall]
  constructor
  · intro hall
    have h₁ := hall "administrators" (by simp [keys])
    have h₂ := hall "replicas" (by simp [keys])
    have h₃ := hall "community_policy" (by simp [keys])
    rw [hlookup] at h₁
    rw [hreplicasVal] at h₂
    rw [hpolicyVal] at h₃
    refine ⟨hadminsOrder.mp (Option.some.inj h₁), fun items' l hitems' => ?_, fun policy' hpolicy' => ?_⟩
    · obtain rfl : items = items' := CborValue.array.inj (Option.some.inj (hreplicasVal.symm.trans hitems'))
      exact hreplicasOrder.mp (Option.some.inj h₂) l
    · obtain rfl : fields = policy' := CborValue.map.inj (Option.some.inj (hpolicyVal.symm.trans hpolicy'))
      exact hpolicyOrder.mp (Option.some.inj h₃)
  · intro horder k hk
    simp only [keys, List.mem_cons, List.not_mem_nil, or_false] at hk
    rcases hk with rfl | rfl | rfl | rfl | rfl | rfl | rfl | rfl
    · rw [hversion]
      rfl
    · rw [hcreated]
      rfl
    · rw [hnonce]
      rfl
    · rw [hthreshold]
      rfl
    · rw [hlookup]
      exact congrArg some (hadminsOrder.mpr horder.administrators)
    · rw [hrecoveryVal]
      exact congrArg some hkept
    · rw [hreplicasVal]
      exact congrArg some (hreplicasOrder.mpr fun l => horder.replicas items l hreplicasVal)
    · rw [hpolicyVal]
      exact congrArg some (hpolicyOrder.mpr (horder.policy fields hpolicyVal))

/-- A received genesis whose lists stand in canonical order. -/
def GenesisConfig.Sorted (value : CborValue) : Prop := ∃ entries, value = .map entries ∧ GenesisConfig.InOrder entries

theorem genesisConfigCsb_iff {b : Bytes} {value : CborValue} (hdecode : decodeCanonical b = .ok value)
    (hread : GenesisConfig.fromCanonical value = .ok c) : genesisConfigCsb c = b ↔ GenesisConfig.Sorted value := by
  obtain ⟨hvalue, rfl⟩ := Received.of_decode hdecode
  obtain ⟨entries, hentries, -⟩ := bind_eq_ok_iff.mp hread
  rw [orReject_eq_ok, asMap_eq_some] at hentries
  subst hentries
  rw [GenesisConfig.encode_iff hvalue hread]
  constructor
  · exact fun h => ⟨entries, rfl, h⟩
  · rintro ⟨entries', hmap, h⟩
    rwa [CborValue.map.inj hmap]

/-- A configuration is signed as the bytes it was received in exactly if they list it in order; then its community is
bound to these bytes and no other sorted bytes decode to it. -/
theorem genesisConfigCsb_received {b : Bytes} {value : CborValue} (hdecode : decodeCanonical b = .ok value)
    (hread : GenesisConfig.fromCanonical value = .ok c) :
    (genesisConfigCsb c = b ↔ GenesisConfig.Sorted value) ∧
      (GenesisConfig.Sorted value → deriveCommunityId env c = ⟨blake3Domain env Domain.community b⟩ ∧
        ∀ b' value', decodeCanonical b' = .ok value' → GenesisConfig.fromCanonical value' = .ok c →
          GenesisConfig.Sorted value' → b' = b) := by
  have hiff := genesisConfigCsb_iff hdecode hread
  refine ⟨hiff, fun hsorted => ⟨?_, fun b' value' hdecode' hread' hsorted' => ?_⟩⟩
  · rw [deriveCommunityId, hiff.mpr hsorted]
  · exact ((genesisConfigCsb_iff hdecode' hread').mpr hsorted').symm.trans (hiff.mpr hsorted)

end Genesis

namespace Toy

/-- The configuration of a genesis as it is read from bytes. -/
def readGenesis (b : Bytes) : Except Reject GenesisConfig :=
  match decodeCanonical b with
  | .ok value => GenesisConfig.fromCanonical value
  | .error _ => .error .nonCanonicalEncoding

/-- The same genesis with its administrators listed the other way round. -/
def swapped : GenesisConfig := { config small with administrators := [principal 2, principal 1] }

theorem readGenesis_eq_ok {b : Bytes} {c : GenesisConfig} (h : readGenesis b = .ok c) :
    ∃ value, decodeCanonical b = .ok value ∧ GenesisConfig.fromCanonical value = .ok c := by
  unfold readGenesis at h
  split at h
  · rename_i value hvalue
    exact ⟨value, hvalue, h⟩
  · cases h

/-- Both encodings are read as one configuration, evaluated in one go. -/
theorem readGenesis_computed :
    readGenesis (genesisConfigCsb (config small)) = .ok (config small) ∧
      readGenesis (genesisConfigCsb swapped) = .ok (config small) ∧
      genesisConfigCsb (config small) ≠ genesisConfigCsb swapped := by
  decide +kernel

theorem genesisConfigCsb_received_config :
    (∃ value, decodeCanonical (genesisConfigCsb (config small)) = .ok value ∧ GenesisConfig.Sorted value) ∧
      ∃ value, decodeCanonical (genesisConfigCsb swapped) = .ok value ∧ ¬ GenesisConfig.Sorted value := by
  obtain ⟨hconfig, hswapped, hne⟩ := readGenesis_computed
  obtain ⟨value, hdecode, hread⟩ := readGenesis_eq_ok hconfig
  obtain ⟨value', hdecode', hread'⟩ := readGenesis_eq_ok hswapped
  have hsorted := (@genesisConfigCsb_received tailEnv _ _ _ hdecode hread).1.mp rfl
  have hunsorted := (@genesisConfigCsb_received tailEnv _ _ _ hdecode' hread').1
  exact ⟨⟨value, hdecode, hsorted⟩, value', hdecode', fun h => hne (hunsorted.mpr h)⟩

/-- Two byte strings decode to one valid configuration, and it is signed as one of them only. -/
theorem genesis_two_encodings :
    readGenesis (genesisConfigCsb (config small)) = .ok (config small) ∧
      readGenesis (genesisConfigCsb swapped) = .ok (config small) ∧ (config small).validate = .ok () ∧
      genesisConfigCsb (config small) ≠ genesisConfigCsb swapped := by
  obtain ⟨hconfig, hswapped, hne⟩ := readGenesis_computed
  exact ⟨hconfig, hswapped, rfl, hne⟩

end Toy

end IrohRooms.Governance
