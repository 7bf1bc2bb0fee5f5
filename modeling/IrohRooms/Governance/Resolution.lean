import IrohRooms.Governance.Lineage

/-!
# The rules of a resolution

`Resolution` is the conjunction of the rules that `validateAndCommitResolution` checks one after the other: the
community, the exact set of heads, the selected head with its root, the chain link, the recovery keys of the stable
ancestor and the root of the selected state with the marker.
-/

namespace IrohRooms.Governance

variable {env : Env}

/-- The node of an accepted entry. -/
def VerifiedGovernanceEntry.node (e : VerifiedGovernanceEntry env) (next : GovernanceState) : LineageNode :=
  ⟨e.body.seq, e.body.prev, ⟨next, .entry e.body.seq e.id, e.body.stateRoot⟩, e.evidence⟩

/-- The resolution meets every rule, over the selected snapshot and to the resolved state. -/
structure Resolution (f : GovernanceForkedState) (e : VerifiedGovernanceEntry env) (r : ForkResolve)
    (selected : ValidatedGovernanceState) (resolved : GovernanceState) : Prop where
  payload : e.body.payload.resolve? = some r
  community : e.body.communityId = f.evidence.communityId
  heads : ∀ h, h ∈ r.branchHeads ↔ h ∈ f.branches.keys
  branch : f.branches.get? r.selectedHead = some selected
  selectedRoot : selected.committedStateRoot = r.selectedStateRoot
  seq : e.body.seq.toNat = selected.tip.seqNum + 1
  back : e.body.prev = selected.tip.id?
  config : ValidThreshold f.stable.state.recovery.config.recoveryKeys f.stable.state.recovery.config.threshold
  quorum : e.evidence.Quorum f.stable.state.recovery.config.recoveryKeys f.stable.state.recovery.config.threshold
  apply : applyEntry selected.state e.body.seq e.body.payload = .ok resolved
  root : computeStateRoot env resolved = e.body.stateRoot

/-- The audit record of a fork that `e` resolved. -/
def GovernanceForkedState.resolvedRecord (f : GovernanceForkedState) (e : VerifiedGovernanceEntry env)
    (r : ForkResolve) : GovernanceForkAuditRecord :=
  f.evidence.record (.resolved ⟨e.evidence, r.selectedHead, r.selectedStateRoot,
    (e.evidence.signersAmong f.stable.state.recovery.config.recoveryKeys).toList, e.id, e.body.stateRoot⟩)

section Rules

variable {f : GovernanceForkedState} {e : VerifiedGovernanceEntry env} {r : ForkResolve}
  {selected : ValidatedGovernanceState}

theorem toList_ofList_of_sorted {l : List GovernanceId} (hl : l.Pairwise (· < ·)) : (OrdSet.ofList l).toList = l :=
  OrdSet.sortDedup_eq_self.mpr hl

theorem checkDeclaredHeads_eq_ok (hr : r.branchHeads.Pairwise (· < ·)) :
    checkDeclaredHeads f r = .ok () ↔ ∀ h, h ∈ r.branchHeads ↔ h ∈ f.branches.keys := by
  rw [checkDeclaredHeads, toList_ofList_of_sorted hr, if_neg (by simp)]
  split_ifs with h₁ h₂
  · obtain ⟨x, hx, hnot⟩ := List.any_eq_true.mp h₁
    refine iff_of_false (by simp) fun h => ?_
    have hkeys := OrdMap.mem_keys.mp ((h x).mp hx)
    rw [OrdMap.contains, hkeys] at hnot
    exact absurd hnot (by simp)
  · exact iff_of_false (by simp) fun h => h₂ (OrdSet.eq_of_sorted hr f.branches.keys_sorted h)
  · exact iff_of_true rfl fun h => by rw [not_not.mp h₂]

theorem selectedState_eq_ok :
    selectedState f r = .ok selected ↔
      f.branches.get? r.selectedHead = some selected ∧ selected.committedStateRoot = r.selectedStateRoot := by
  rw [selectedState]
  rcases f.branches.get? r.selectedHead with _ | s
  · simp
  · dsimp only
    split_ifs with h
    · refine iff_of_false (by simp) ?_
      rintro ⟨hs, hroot⟩
      exact h (Option.some.inj hs ▸ hroot)
    · rw [Except.ok.injEq, Option.some_inj]
      exact ⟨fun hs => ⟨hs, hs ▸ not_not.mp h⟩, fun hs => hs.1⟩

theorem checkFollows_eq_ok {seq : UInt64} {prevId : Option GovernanceId} {body : GovernanceEntryBody} :
    checkFollows seq prevId body = .ok () ↔ body.seq.toNat = seq.toNat + 1 ∧ body.prev = prevId := by
  rw [checkFollows, ← checkedSucc_eq_some]
  rcases checkedSucc seq with _ | next
  · simp
  · dsimp only
    rw [Option.some_inj, eq_comm (a := next)]
    split_ifs with h
    · refine iff_of_false (by simp) ?_
      rintro ⟨hseq, hprev⟩
      exact h.elim (fun hne => hne hseq) fun hne => hne hprev
    · rw [not_or, not_not, not_not] at h
      exact iff_of_true rfl h

theorem checkResolutionLink_eq_ok {body : GovernanceEntryBody} :
    checkResolutionLink selected body = .ok () ↔
      body.seq.toNat = selected.tip.seqNum + 1 ∧ body.prev = selected.tip.id? := by
  rw [checkResolutionLink]
  rcases selected.tip with _ | ⟨seq, id⟩
  · exact checkFollows_eq_ok
  · exact checkFollows_eq_ok

theorem countEligibleRecoverySigners_eq_ok {config : RecoveryConfig} {eligible : OrdSet PrincipalId} :
    countEligibleRecoverySigners config e = .ok eligible ↔
      ValidThreshold config.recoveryKeys config.threshold ∧
        e.evidence.Quorum config.recoveryKeys config.threshold ∧
        eligible = e.evidence.signersAmong config.recoveryKeys := by
  rw [countEligibleRecoverySigners, recoveryAuthorizationInvariantsHold,
    AuthenticatedGovernanceEvidence.quorum_iff, ← thresholdInvariantsHold_iff]
  by_cases h₁ : thresholdInvariantsHold config.recoveryKeys config.threshold = true
  · dsimp only
    rw [if_neg (by simp [h₁])]
    split_ifs with h₂
    · rw [Except.ok.injEq]
      exact ⟨fun h => ⟨h₁, h₂, h.symm⟩, fun h => h.2.2.symm⟩
    · exact iff_of_false (by simp) fun h => h₂ h.2.1
  · rw [if_pos (by simpa using h₁)]
    exact iff_of_false (by simp) fun h => h₁ h.1

theorem validateAndCommitResolution_eq_ok {l : LinearGovernanceState} :
    validateAndCommitResolution f e = .ok l ↔
      ∃ r selected resolved, Resolution f e r selected resolved ∧
        l = ⟨(e.node resolved).state, f.lineage.insert e.id (e.node resolved),
          f.priorAudit ++ [f.resolvedRecord e r]⟩ := by
  rw [validateAndCommitResolution]
  split
  · next hnone =>
    refine iff_of_false (by simp) ?_
    rintro ⟨r, selected, resolved, h, -⟩
    exact absurd (hnone.symm.trans h.payload) (by simp)
  · next r hr =>
    split_ifs with hcomm
    · refine iff_of_false (by simp) ?_
      rintro ⟨r', selected, resolved, h, -⟩
      exact hcomm h.community
    · simp only [bind_eq_ok_iff]
      constructor
      · rintro ⟨_, hheads, selected, hsel, _, hlink, eligible, hcount, resolved, happly, hl⟩
        rw [checkDeclaredHeads_eq_ok (e.verified.body.heads r hr).1] at hheads
        obtain ⟨hbranch, hroot⟩ := selectedState_eq_ok.mp hsel
        obtain ⟨hseq, hback⟩ := checkResolutionLink_eq_ok.mp hlink
        obtain ⟨hconfig, hquorum, rfl⟩ := countEligibleRecoverySigners_eq_ok.mp hcount
        split_ifs at hl with hres
        refine ⟨r, selected, resolved, ⟨hr, not_not.mp hcomm, hheads, hbranch, hroot, hseq, hback, hconfig, hquorum,
          happly, not_not.mp hres⟩, ?_⟩
        exact (Except.ok.inj hl).symm
      · rintro ⟨r', selected, resolved, h, rfl⟩
        obtain rfl : r' = r := Option.some.inj (h.payload.symm.trans hr)
        refine ⟨(), (checkDeclaredHeads_eq_ok (e.verified.body.heads r' hr).1).mpr h.heads, selected,
          selectedState_eq_ok.mpr ⟨h.branch, h.selectedRoot⟩, (), checkResolutionLink_eq_ok.mpr ⟨h.seq, h.back⟩,
          _, countEligibleRecoverySigners_eq_ok.mpr ⟨h.config, h.quorum, rfl⟩, resolved, h.apply, ?_⟩
        rw [if_neg (not_not.mpr h.root)]
        rfl

end Rules

end IrohRooms.Governance
