import IrohRooms.Governance.Soundness

/-!
# Which resolutions a forked machine accepts

A resolution is accepted exactly when it is for the community, names the open heads and no others, follows the selected
head under its root, is signed by enough recovery keys of the stable ancestor and declares the root of the selected
state with its marker, and the stable ancestor has no more recovery keys than a `u16` counts. What it leaves is the
selected state with the marker: no other branch has an effect on it.
-/

namespace IrohRooms.Governance

section Exact

variable {env : Env}

/-- The rules of a resolution as they are stated, without a bound on the number of recovery keys. -/
structure ResolvesFork (f : GovernanceForkedState) (e : VerifiedGovernanceEntry env) (r : ForkResolve) : Prop where
  community : e.body.communityId = f.evidence.communityId
  heads : ∀ h, h ∈ r.branchHeads ↔ h ∈ f.branches.keys
  selected : ∃ s, f.branches.get? r.selectedHead = some s ∧ s.committedStateRoot = r.selectedStateRoot ∧
    e.body.seq.toNat = s.tip.seqNum + 1 ∧ e.body.prev = some r.selectedHead ∧
    computeStateRoot env (applyForkResolveAt s.state r) = e.body.stateRoot
  sorted : f.stable.state.recovery.config.recoveryKeys.Pairwise (· < ·)
  pos : 1 ≤ f.stable.state.recovery.config.threshold.toNat
  le : f.stable.state.recovery.config.threshold.toNat ≤ f.stable.state.recovery.config.recoveryKeys.length
  quorum : e.evidence.Quorum f.stable.state.recovery.config.recoveryKeys f.stable.state.recovery.config.threshold

variable {f : GovernanceForkedState} {e : VerifiedGovernanceEntry env} {r : ForkResolve}
  {selected : ValidatedGovernanceState} {resolved : GovernanceState}

theorem payload_eq_of_resolve? {op : GovernanceOperationPayload} (h : op.resolve? = some r) : op = .forkResolve r := by
  unfold GovernanceOperationPayload.resolve? at h
  split at h
  · rw [Option.some.inj h]
  · exact absurd h (by simp)

/-- A resolution adds its marker to the selected state and takes the next sequence number, nothing else. -/
theorem Resolution.resolved_eq (h : Resolution f e r selected resolved) :
    resolved = { applyForkResolveAt selected.state r with acceptedSeq := e.body.seq } := by
  obtain ⟨-, mid, hmid, rfl⟩ := applyEntry_eq_ok.mp h.apply
  rw [payload_eq_of_resolve? h.payload] at hmid
  rw [← Except.ok.inj hmid]

theorem resolution_iff (hs : f.lineage.Sound env) (hf : f.Coherent) (hr : e.body.payload.resolve? = some r) :
    (∃ r' selected resolved, Resolution f e r' selected resolved) ↔
      ResolvesFork f e r ∧ f.stable.state.recovery.config.recoveryKeys.length ≤ 65535 := by
  constructor
  · rintro ⟨r', selected, resolved, h⟩
    obtain rfl : r' = r := Option.some.inj (h.payload.symm.trans hr)
    refine ⟨⟨h.community, h.heads, ⟨selected, h.branch, h.selectedRoot, h.seq, h.prev_eq hs hf, ?_⟩, h.config.sorted,
      h.config.pos, h.config.le, h.quorum⟩, h.config.count⟩
    -- the root does not cover the sequence number
    rw [← h.root, h.resolved_eq]
    rfl
  · rintro ⟨h, hcount⟩
    obtain ⟨s, hbranch, hroot, hseq, hprev, hresult⟩ := h.selected
    obtain ⟨node, hnode, rfl⟩ := hf.states _ _ hbranch
    have hsound := hs.nodes _ _ hnode
    refine ⟨r, node.state, { applyForkResolveAt node.state.state r with acceptedSeq := e.body.seq }, hr, h.community,
      h.heads, hbranch, hroot, hseq, ?_, ⟨h.sorted, hcount, h.pos, h.le⟩, h.quorum, ?_, hresult⟩
    · rw [hprev, hsound.tip]
      rfl
    · refine applyEntry_eq_ok.mpr ⟨by rw [hseq, hsound.wellFormed.seq], applyForkResolveAt node.state.state r, ?_, rfl⟩
      rw [payload_eq_of_resolve? hr]
      rfl

namespace GovernanceMachine

/-- Acceptance, effect and refusal of a resolution by a reachable forked machine. -/
theorem observe_resolution_exact {config : GenesisConfig} {signatures : List GenesisSignature}
    {genesis : ValidatedGovernanceState} (hg : validatedGenesisState env config signatures = .ok genesis)
    {calls : List (Call env)} (hids : CollisionFree (entriesOf calls))
    (hm : (fromGenesis genesis).run calls = .governanceForked f) (hr : e.body.payload.resolve? = some r) :
    ((∃ obs, ((governanceForked f).call (.observe e)).1 = .ok obs) ↔
      ResolvesFork f e r ∧ f.stable.state.recovery.config.recoveryKeys.length ≤ 65535) ∧
    (∀ obs, ((governanceForked f).call (.observe e)).1 = .ok obs →
      ∃ selected l, f.branches.get? r.selectedHead = some selected ∧
        ((governanceForked f).call (.observe e)).2 = .linear l ∧
        l.accepted = ⟨{ applyForkResolveAt selected.state r with acceptedSeq := e.body.seq },
          .entry e.body.seq e.id, e.body.stateRoot⟩) ∧
    (∀ x, ((governanceForked f).call (.observe e)).1 = .error x →
      ((governanceForked f).call (.observe e)).2 = .governanceForked f) := by
  have inv : (governanceForked f).Inv (entriesOf calls) := hm ▸ run_inv hg hids mem_entriesOf
  have hiff := resolution_iff inv.sound inv.mode hr
  have hokay : ∀ obs, ((governanceForked f).call (.observe e)).1 = .ok obs →
      ∃ r' selected resolved, Resolution f e r' selected resolved ∧ ((governanceForked f).call (.observe e)).2 =
        .linear ⟨(e.node resolved).state, f.lineage.insert e.id (e.node resolved),
          f.priorAudit ++ [f.resolvedRecord e r']⟩ := fun obs hobs => by
    rcases hl : observeForked f e with x | l
    · rw [call, observeCommitted, hl] at hobs
      exact absurd hobs (by simp [Except.map])
    · obtain ⟨r', selected, resolved, hres, rfl⟩ := observeForked_eq_ok.mp hl
      exact ⟨r', selected, resolved, hres, by rw [call, observeCommitted, hl]⟩
  refine ⟨⟨fun hok => ?_, fun h => ?_⟩, fun obs hobs => ?_, fun x hx => inv.call_error hx⟩
  · obtain ⟨obs, hobs⟩ := hok
    obtain ⟨r', selected, resolved, hres, -⟩ := hokay obs hobs
    exact hiff.mp ⟨r', selected, resolved, hres⟩
  · rcases inv.call_cases (.observe e) with ⟨-, -, obs, hobs, -⟩ | ⟨hnot, -, -⟩
    · exact ⟨obs, hobs⟩
    · exact absurd (hiff.mpr h) hnot
  · obtain ⟨r', selected, resolved, hres, hcall⟩ := hokay obs hobs
    obtain rfl : r' = r := Option.some.inj (hres.payload.symm.trans hr)
    refine ⟨selected, _, hres.branch, hcall, ?_⟩
    rw [← hres.resolved_eq]
    rfl

end GovernanceMachine

end Exact

/-! ### Resolving the worked fork -/

namespace Toy

open GovernanceMachine

section World

variable (recovery : RecoveryConfig)

/-- One of the two administrators is enough to revoke an invite. -/
theorem authorised_revoke {p : ValidatedGovernanceState} {k n : Nat} (h : (revokeBody p n).Canonical)
    (hadmins : p.state.administrators = ⟨[principal 1, principal 2], 1⟩) (hk : principal k ∈ [principal 1, principal 2])
    (hseq : (p.state.acceptedSeq + 1).toNat = p.state.acceptedSeq.toNat + 1)
    (htip : p.state.acceptedSeq.toNat = p.tip.seqNum) :
    Authorised p (.sign tailEnv (key k) (revokeBody p n) h) (revoked p n) where
  ordinary := rfl
  community := rfl
  seq := htip ▸ hseq
  back := rfl
  apply := applyEntry_eq_ok.mpr ⟨hseq, applyInviteRevokeAt p.state ⟨Id.ofNat n⟩, rfl, rfl⟩
  config := by
    rw [hadmins]
    exact ⟨by decide, by decide, by decide, by decide⟩
  quorum := by
    rw [hadmins]
    refine ⟨[principal k], List.nodup_singleton _, fun p hp => ?_, le_rfl⟩
    rw [List.mem_singleton.mp hp]
    exact ⟨hk, .inl rfl⟩
  root := rfl

theorem authorised_a : Authorised (genesis recovery) (a recovery) (revoked (genesis recovery) 1) :=
  authorised_revoke _ rfl (by simp) rfl rfl

theorem authorised_b : Authorised (genesis recovery) (b recovery) (revoked (genesis recovery) 2) :=
  authorised_revoke _ rfl (by simp) rfl rfl

def lineageA : GovernanceLineage :=
  (GovernanceLineage.new (genesis recovery)).insert (a recovery).id ((a recovery).node (revoked (genesis recovery) 1))

theorem get_lineageA_of_ne {recovery : RecoveryConfig} {x : GovernanceId} (hx : x ≠ (a recovery).id) :
    (lineageA recovery).get x = none := by
  rw [lineageA, GovernanceLineage.get_insert, if_neg hx]
  rfl

def lineageAB : GovernanceLineage :=
  (lineageA recovery).insert (b recovery).id ((b recovery).node (revoked (genesis recovery) 2))

theorem get_lineageAB {x : GovernanceId} {node : LineageNode} (h : (lineageAB recovery).get x = some node) :
    x = (b recovery).id ∧ node = (b recovery).node (revoked (genesis recovery) 2) ∨
      x = (a recovery).id ∧ node = (a recovery).node (revoked (genesis recovery) 1) := by
  rw [lineageAB, lineageA, GovernanceLineage.get_insert, GovernanceLineage.get_insert] at h
  split_ifs at h with hb ha
  · exact .inl ⟨hb, (Option.some.inj h).symm⟩
  · exact .inr ⟨ha, (Option.some.inj h).symm⟩
  · exact absurd h (by simp [GovernanceLineage.new, GovernanceLineage.get])

variable {recovery} (hlt : (a recovery).id < (b recovery).id)
include hlt

theorem get_lineageAB_a :
    (lineageAB recovery).get (a recovery).id = some ((a recovery).node (revoked (genesis recovery) 1)) := by
  rw [lineageAB, lineageA, GovernanceLineage.get_insert, if_neg hlt.ne, GovernanceLineage.get_insert, if_pos rfl]

theorem live_lineageAB {x : GovernanceId} :
    (lineageAB recovery).Live x ↔ x = (a recovery).id ∨ x = (b recovery).id := by
  constructor
  · intro h
    obtain ⟨node, hnode⟩ := Option.isSome_iff_exists.mp h.known
    rcases get_lineageAB recovery hnode with ⟨hx, -⟩ | ⟨hx, -⟩
    · exact .inr hx
    · exact .inl hx
  · intro h
    refine ⟨?_, fun y node hy => ?_, fun y node r hy hr => ?_⟩
    · rcases h with rfl | rfl
      · rw [get_lineageAB_a hlt]
        rfl
      · rw [lineageAB, GovernanceLineage.get_insert, if_pos rfl]
        rfl
    · rcases get_lineageAB recovery hy with ⟨-, rfl⟩ | ⟨-, rfl⟩ <;> exact (Option.some_ne_none _).symm
    · rcases get_lineageAB recovery hy with ⟨-, rfl⟩ | ⟨-, rfl⟩ <;> exact absurd hr (Option.some_ne_none _).symm

omit hlt in
/-- `a` is accepted at the genesis. -/
theorem advanced_a (recovery : RecoveryConfig) : (fromGenesis (genesis recovery)).run [.observe (a recovery)] =
    .linear ⟨afterA recovery, lineageA recovery, []⟩ := by
  obtain ⟨htip, hwf⟩ := validatedGenesisState_eq_ok (genesis_validated recovery)
  have inv : (fromGenesis (genesis recovery)).Inv (entriesOf [.observe (a recovery)]) := inv_fromGenesis htip hwf
  show ((linear ⟨genesis recovery, .new (genesis recovery), []⟩).call (.observe (a recovery))).2 = _
  rw [call, observeCommitted, inv.observeLinear_advance rfl (authorised_a recovery)]
  rfl

/-- `a` and `b` leave the machine forked over them, whatever the recovery keys are. -/
theorem forked_ab :
    ∃ f, (fromGenesis (genesis recovery)).run [.observe (a recovery), .observe (b recovery)] = .governanceForked f ∧
      f.lineage = lineageAB recovery ∧ f.priorAudit = [] ∧ f.Coherent ∧
      ∀ x, x ∈ f.branches.keys ↔ x = (a recovery).id ∨ x = (b recovery).id := by
  have inv : (linear ⟨afterA recovery, lineageA recovery, []⟩).Inv (entriesOf [.observe (a recovery)]) :=
    advanced_a recovery ▸ run_inv (genesis_validated recovery) (collisionFree_of_nodup (List.nodup_singleton _))
      mem_entriesOf
  have hnew : (lineageA recovery).get (b recovery).id = none := get_lineageA_of_ne hlt.ne'
  have hpred : (lineageA recovery).pred (b recovery).body.prev = some (genesis recovery) := rfl
  obtain ⟨f, hf, hstep⟩ := inv.observeLinear_fork hnew hpred (Option.some_ne_none _).symm (authorised_b recovery)
  refine ⟨f, ?_, ?_⟩
  · show (((fromGenesis (genesis recovery)).run [.observe (a recovery)]).call (.observe (b recovery))).2 = _
    rw [advanced_a, call, observeCommitted, hf]
  · obtain ⟨p, next, hp, hauth, hlineage, haudit, hcoherent, hheads⟩ := hstep.forked_inv
    obtain rfl := Option.some.inj (hpred.symm.trans hp)
    obtain rfl := Except.ok.inj (hauth.apply.symm.trans (authorised_b recovery).apply)
    have hab : f.lineage = lineageAB recovery := hlineage
    refine ⟨hab, haudit, hcoherent, fun x => ?_⟩
    rw [hheads, hab, live_lineageAB hlt]

variable {f : GovernanceForkedState} (hlineage : f.lineage = lineageAB recovery) (hf : f.Coherent)

omit hlt in
include hlineage hf in
/-- Neither entry changes the recovery keys. -/
theorem stable_ab : f.stable.state.recovery.config = recovery ∧
    f.stable.state.communityId = (genesis recovery).state.communityId := by
  have hstable := hf.stableAt
  rw [hlineage] at hstable
  rcases htip : f.evidence.stableTip with _ | ⟨seq, id⟩ <;> rw [htip] at hstable
  · rw [← Except.ok.inj hstable]
    exact ⟨rfl, rfl⟩
  · rw [GovernanceLineage.stateAt] at hstable
    rcases hid : (lineageAB recovery).get id with _ | node <;> rw [hid] at hstable
    · exact absurd hstable (by simp)
    · rw [← Except.ok.inj hstable]
      rcases get_lineageAB recovery hid with ⟨-, rfl⟩ | ⟨-, rfl⟩ <;> exact ⟨rfl, rfl⟩

include hlineage hf in
theorem resolvesFork_r (hkeys : ∀ x, x ∈ f.branches.keys ↔ x = (a recovery).id ∨ x = (b recovery).id)
    (hsorted : recovery.recoveryKeys.Pairwise (· < ·)) (hone : recovery.threshold = 1)
    (hkey : principal 8 ∈ recovery.recoveryKeys) : ResolvesFork f (r recovery hlt) (resolve recovery) := by
  obtain ⟨hrecovery, hcommunity⟩ := stable_ab hlineage hf
  obtain ⟨s, hs⟩ := Option.isSome_iff_exists.mp (OrdMap.mem_keys.mp ((hkeys (a recovery).id).mpr (.inl rfl)))
  obtain ⟨node, hnode, rfl⟩ := hf.states _ _ hs
  rw [hlineage, get_lineageAB_a hlt] at hnode
  obtain rfl := Option.some.inj hnode
  refine ⟨?_, fun h => ?_, ⟨_, hs, rfl, rfl, rfl, rfl⟩, ?_, ?_, ?_, ?_⟩
  · rw [hf.community, hcommunity]
    rfl
  · rw [hkeys]
    simp [resolve]
  · rwa [hrecovery]
  · rw [hrecovery, hone]
    decide
  · rw [hrecovery, hone]
    exact List.length_pos_of_mem hkey
  · rw [hrecovery, hone]
    refine ⟨[principal 8], List.nodup_singleton _, fun p hp => ?_, le_rfl⟩
    rw [List.mem_singleton.mp hp]
    exact ⟨hkey, .inl rfl⟩

end World

/-- The resolution `r` is accepted and leaves the state of `a` with its marker. -/
theorem observe_resolution_exact_r :
    ∃ f selected l, (fromGenesis (genesis small)).run [.observe (a small), .observe (b small)] = .governanceForked f ∧
      f.branches.get? (a small).id = some selected ∧
      ((governanceForked f).call (.observe (r small a_lt_b))).2 = .linear l ∧
      l.accepted = ⟨{ applyForkResolveAt selected.state (resolve small) with acceptedSeq := 2 },
        .entry 2 (r small a_lt_b).id, (r small a_lt_b).body.stateRoot⟩ := by
  obtain ⟨f, hf, hlineage, -, hcoherent, hkeys⟩ := forked_ab a_lt_b
  have hids : CollisionFree (entriesOf [.observe (a small), .observe (b small)]) :=
    collisionFree_of_nodup (ids_nodup.sublist (List.sublist_append_left [_, _] [_, _]))
  obtain ⟨haccept, heffect, -⟩ := observe_resolution_exact (e := r small a_lt_b) (genesis_validated small) hids hf rfl
  obtain ⟨obs, hobs⟩ := haccept.mpr
    ⟨resolvesFork_r a_lt_b hlineage hcoherent hkeys (by decide) rfl (by decide), by
      rw [(stable_ab hlineage hcoherent).1]
      decide⟩
  obtain ⟨selected, l, hsel, hl, hacc⟩ := heffect obs hobs
  exact ⟨f, selected, l, hf, hsel, hl, hacc⟩

/-- The first `n` principals, of whom one suffices. -/
def upTo (n : Nat) : RecoveryConfig := ⟨1, (List.range n).map principal⟩

theorem upTo_sorted {n : Nat} (hn : n < 2 ^ 256) : (upTo n).recoveryKeys.Pairwise (· < ·) := by
  refine List.pairwise_map.mpr (List.pairwise_lt_range.imp_of_mem fun {x y} _ hy hxy => ?_)
  have hlt : y < n := List.mem_range.mp hy
  show (BitVec.ofNat 256 x).toNat < (BitVec.ofNat 256 y).toNat
  rw [BitVec.toNat_ofNat, BitVec.toNat_ofNat, Nat.mod_eq_of_lt (by omega), Nat.mod_eq_of_lt (by omega)]
  exact hxy

theorem principal_mem_upTo {k n : Nat} (h : k < n) : principal k ∈ (upTo n).recoveryKeys :=
  List.mem_map_of_mem (List.mem_range.mpr h)

theorem length_upTo (n : Nat) : (upTo n).recoveryKeys.length = n := by
  rw [upTo, List.length_map, List.length_range]

/-- One key more than a `u16` counts. -/
def many : RecoveryConfig := upTo 65536

theorem a_lt_b_many : (a many).id < (b many).id := by decide +kernel

/-- With so many recovery keys at the genesis, no resolution is accepted, although `r` obeys every rule. -/
theorem many_keys_refused :
    validatedGenesisState tailEnv (config many) (signatures many) = .ok (genesis many) ∧
    ∃ f, (fromGenesis (genesis many)).run [.observe (a many), .observe (b many)] = .governanceForked f ∧
      (r many a_lt_b_many).body.payload.resolve? = some (resolve many) ∧
      ResolvesFork f (r many a_lt_b_many) (resolve many) ∧
      ∀ obs, ((governanceForked f).call (.observe (r many a_lt_b_many))).1 ≠ .ok obs := by
  obtain ⟨f, hf, hlineage, -, hcoherent, hkeys⟩ := forked_ab a_lt_b_many
  refine ⟨genesis_validated many, f, hf, rfl, resolvesFork_r a_lt_b_many hlineage hcoherent hkeys
    (upTo_sorted (by decide)) rfl (principal_mem_upTo (by decide)), fun obs hobs => ?_⟩
  rw [call, observeCommitted] at hobs
  rcases hl : observeForked f (r many a_lt_b_many) with x | l <;> rw [hl] at hobs
  · exact absurd hobs (by simp [Except.map])
  · obtain ⟨r', selected, resolved, hres, -⟩ := observeForked_eq_ok.mp hl
    have hcount := hres.config.count
    rw [(stable_ab hlineage hcoherent).1, many, length_upTo] at hcount
    omega

end Toy

end IrohRooms.Governance
