import IrohRooms.Lib.Ancestry
import IrohRooms.Governance.Authz

/-!
# The fork-aware governance machine

The retained lineage and the two modes over it. A linear machine follows one accepted tip and enters the forked mode
when a second authorized branch shows up; a forked machine collects branches and refuses every ordinary entry until a
resolution, authorized by the recovery keys of the last common ancestor, selects one head. A call returns the machine
it leaves behind whether or not it succeeds.
-/

namespace IrohRooms.Governance

/-! ### Lineage -/

structure LineageNode where
  seq : UInt64
  prev : Option GovernanceId
  state : ValidatedGovernanceState
  evidence : AuthenticatedGovernanceEvidence

structure GovernanceLineage where
  genesis : ValidatedGovernanceState
  nodes : OrdMap GovernanceId LineageNode

namespace GovernanceLineage

def new (genesis : ValidatedGovernanceState) : GovernanceLineage := ⟨genesis, OrdMap.empty⟩

def insert (lineage : GovernanceLineage) (id : GovernanceId) (node : LineageNode) : GovernanceLineage :=
  { lineage with nodes := lineage.nodes.insert id node }

def get (lineage : GovernanceLineage) (id : GovernanceId) : Option LineageNode := lineage.nodes.get? id

def links (lineage : GovernanceLineage) : Ancestry.Links GovernanceId := fun id => (lineage.get id).map LineageNode.prev

/-- A chain meets every node at most once, so their number bounds it. -/
def ancestorIds (lineage : GovernanceLineage) (tip : GovernanceId) : Except Reject (List GovernanceId) :=
  match Ancestry.chain lineage.links lineage.nodes.keys.length (some tip) with
  | some chain => .ok chain
  | none => .error .missingDependency

/-- The ids that the chains of the given heads have in common with `common`. -/
def meetChains (lineage : GovernanceLineage) :
    List GovernanceId → List GovernanceId → Except Reject (List GovernanceId)
  | common, [] => .ok common
  | common, head :: rest => do
    let chain ← lineage.ancestorIds head
    meetChains lineage (common.filter (· ∈ chain)) rest

def commonAncestorOf (lineage : GovernanceLineage) (heads : OrdSet GovernanceId) :
    Except Reject (GovernanceTip × StateRoot) :=
  match heads.toList with
  | [] => .error .missingDependency
  | first :: rest => do
    let firstChain ← lineage.ancestorIds first
    let common ← lineage.meetChains firstChain rest
    match firstChain.find? (· ∈ common) with
    | none => pure (lineage.genesis.tip, lineage.genesis.committedStateRoot)
    | some id => match lineage.get id with
      | some node => pure (node.state.tip, node.state.committedStateRoot)
      | none => .error .missingDependency

def isAncestor (lineage : GovernanceLineage) (ancestor descendant : GovernanceId) : Bool :=
  Ancestry.reaches lineage.links ancestor (lineage.nodes.keys.length + 1) (some descendant)

end GovernanceLineage

/-! ### Evidence and audit -/

structure GovernanceBranchEvidence where
  head : GovernanceId
  seq : UInt64
  predecessor : Option GovernanceId
  stateRoot : StateRoot
  entry : AuthenticatedGovernanceEvidence

structure GovernanceForkEvidence where
  communityId : CommunityId
  stableTip : GovernanceTip
  stableStateRoot : StateRoot
  branches : List GovernanceBranchEvidence

/-- What a resolution adds to the record of its fork. -/
structure GovernanceForkResolution where
  resolution : AuthenticatedGovernanceEvidence
  selectedHead : GovernanceId
  selectedStateRoot : StateRoot
  eligibleRecoverySigners : List PrincipalId
  resultingTip : GovernanceId
  resultingStateRoot : StateRoot

inductive GovernanceForkAuditStatus
  | unresolved
  | resolved (r : GovernanceForkResolution)

structure GovernanceForkAuditRecord where
  communityId : CommunityId
  stableTip : GovernanceTip
  stableStateRoot : StateRoot
  branches : List GovernanceBranchEvidence
  status : GovernanceForkAuditStatus

/-- The record of a fork with the given status. -/
def GovernanceForkEvidence.record (evidence : GovernanceForkEvidence) (status : GovernanceForkAuditStatus) :
    GovernanceForkAuditRecord :=
  ⟨evidence.communityId, evidence.stableTip, evidence.stableStateRoot, evidence.branches, status⟩

/-! ### Machine state -/

structure LinearGovernanceState where
  accepted : ValidatedGovernanceState
  lineage : GovernanceLineage
  audit : List GovernanceForkAuditRecord

structure GovernanceForkedState where
  stable : ValidatedGovernanceState
  projectionPrior : ValidatedGovernanceState
  branches : OrdMap GovernanceId ValidatedGovernanceState
  evidence : GovernanceForkEvidence
  priorAudit : List GovernanceForkAuditRecord
  lineage : GovernanceLineage

/-- The machine is its state. -/
inductive GovernanceMachine
  | linear (l : LinearGovernanceState)
  | governanceForked (f : GovernanceForkedState)

inductive GovernanceObservation
  | advanced (tip : GovernanceTip) (stateRoot : StateRoot)
  | forkDetected (evidence : GovernanceForkEvidence)
  | duplicate (id : GovernanceId)

inductive CommittedGovernanceTransitionKind
  | linearAdvance | forkResolution

structure CommittedGovernanceTransition where
  prior : ValidatedGovernanceState
  next : ValidatedGovernanceState
  kind : CommittedGovernanceTransitionKind
  entry : AuthenticatedGovernanceEvidence
  selected : Option ValidatedGovernanceState

namespace GovernanceMachine

def fromGenesis (genesis : ValidatedGovernanceState) : GovernanceMachine := .linear ⟨genesis, .new genesis, []⟩

def lineage : GovernanceMachine → GovernanceLineage
  | linear l => l.lineage
  | governanceForked f => f.lineage

def accepted : GovernanceMachine → Option ValidatedGovernanceState
  | linear l => some l.accepted
  | governanceForked _ => none

def forked : GovernanceMachine → Option GovernanceForkedState
  | linear _ => none
  | governanceForked f => some f

def audit : GovernanceMachine → List GovernanceForkAuditRecord
  | linear l => l.audit
  | governanceForked f => f.priorAudit ++ [f.evidence.record .unresolved]

/-- The records of the forks that are closed. -/
def closedAudit : GovernanceMachine → List GovernanceForkAuditRecord
  | linear l => l.audit
  | governanceForked f => f.priorAudit

end GovernanceMachine

/-! ### Forked states -/

def predecessorForLineage (lineage : GovernanceLineage) (prev : Option GovernanceId) (seq : UInt64) :
    Except Reject ValidatedGovernanceState :=
  match prev with
  | none => if seq ≠ 1 then .error .invalidContent else .ok lineage.genesis
  | some prevId =>
    if seq = 1 then .error .invalidContent
    else match lineage.get prevId with
      | some node => .ok node.state
      | none => .error .missingDependency

/-- The heads that are not an ancestor of another head. -/
def maximalHeads (lineage : GovernanceLineage) (heads : OrdSet GovernanceId) : OrdSet GovernanceId :=
  heads.filter fun candidate =>
    !(heads.toList.any fun other => candidate ≠ other && lineage.isAncestor candidate other)

/-- The nodes of the given heads, in their order. -/
def headNodes (lineage : GovernanceLineage) : List GovernanceId → Except Reject (List (GovernanceId × LineageNode))
  | [] => .ok []
  | head :: rest => match lineage.get head with
    | none => .error .missingDependency
    | some node => do
      let nodes ← headNodes lineage rest
      pure ((head, node) :: nodes)

def LineageNode.branchEvidence (head : GovernanceId) (node : LineageNode) : GovernanceBranchEvidence :=
  ⟨head, node.seq, node.prev, node.state.committedStateRoot, node.evidence⟩

/-- The snapshot at a tip of the lineage. -/
def GovernanceLineage.stateAt (lineage : GovernanceLineage) : GovernanceTip → Except Reject ValidatedGovernanceState
  | .genesis => .ok lineage.genesis
  | .entry _ id => match lineage.get id with
    | some node => .ok node.state
    | none => .error .missingDependency

def buildForkedState (lineage : GovernanceLineage) (heads : OrdSet GovernanceId)
    (priorAudit : List GovernanceForkAuditRecord) (projectionPrior : ValidatedGovernanceState) :
    Except Reject GovernanceForkedState := do
  let maximal := maximalHeads lineage heads
  if maximal.toList.length < 2 then .error .missingDependency
  else
    let (stableTip, stableStateRoot) ← lineage.commonAncestorOf maximal
    let stable ← lineage.stateAt stableTip
    let nodes ← headNodes lineage maximal.toList
    let branches := nodes.foldl (fun m e => m.insert e.1 e.2.state) OrdMap.empty
    let evidence := nodes.map fun e => e.2.branchEvidence e.1
    pure ⟨stable, projectionPrior, branches, ⟨stable.state.communityId, stableTip, stableStateRoot, evidence⟩,
      priorAudit, lineage⟩

/-- The lineage with the node of an accepted candidate. -/
def GovernanceLineage.insertCandidate (lineage : GovernanceLineage) (c : ValidatedGovernanceCandidate) :
    GovernanceLineage :=
  lineage.insert c.evidence.id ⟨c.evidence.body.seq, c.evidence.body.prev, c.resulting, c.evidence⟩

def enterForkedFromLinear (linear : LinearGovernanceState) (c : ValidatedGovernanceCandidate) :
    Except Reject GovernanceForkedState :=
  match linear.accepted.tip with
  | .genesis => .error .missingDependency
  | .entry _ acceptedHead =>
    buildForkedState (linear.lineage.insertCandidate c) (OrdSet.ofList [acceptedHead, c.evidence.id]) linear.audit
      linear.accepted

/-! ### Resolution -/

variable {env : Env}

def countEligibleRecoverySigners (config : RecoveryConfig) (entry : VerifiedGovernanceEntry env) :
    Except Reject (OrdSet PrincipalId) :=
  if recoveryAuthorizationInvariantsHold config = false then .error .insufficientAuthorization
  else
    let eligible := entry.evidence.signersAmong config.recoveryKeys
    if config.threshold.toNat ≤ eligible.toList.length then .ok eligible else .error .insufficientAuthorization

/-- The declared branches are exactly the known heads. -/
def checkDeclaredHeads (forked : GovernanceForkedState) (resolve : ForkResolve) : Except Reject Unit :=
  let declared := OrdSet.ofList resolve.branchHeads
  if declared.toList.length ≠ resolve.branchHeads.length then .error .invalidForkResolution
  else if declared.toList.any fun head => !forked.branches.contains head then .error .missingDependency
  else if declared.toList ≠ forked.branches.keys then .error .invalidForkResolution
  else .ok ()

/-- The snapshot of the selected head, under the declared root. -/
def selectedState (forked : GovernanceForkedState) (resolve : ForkResolve) : Except Reject ValidatedGovernanceState :=
  match forked.branches.get? resolve.selectedHead with
  | none => .error .invalidForkResolution
  | some selected =>
    if selected.committedStateRoot ≠ resolve.selectedStateRoot then .error .stateRootMismatch else .ok selected

/-- The body has the sequence number after `seq` and the given predecessor. -/
def checkFollows (seq : UInt64) (prevId : Option GovernanceId) (body : GovernanceEntryBody) : Except Reject Unit :=
  match checkedSucc seq with
  | none => .error .invalidForkResolution
  | some expectedSeq =>
    if body.seq ≠ expectedSeq ∨ body.prev ≠ prevId then .error .invalidForkResolution else .ok ()

/-- The resolution follows the selected head. -/
def checkResolutionLink (selected : ValidatedGovernanceState) (body : GovernanceEntryBody) : Except Reject Unit :=
  match selected.tip with
  | .entry seq id => checkFollows seq (some id) body
  | .genesis => checkFollows 0 none body

def validateAndCommitResolution (forked : GovernanceForkedState) (entry : VerifiedGovernanceEntry env) :
    Except Reject LinearGovernanceState :=
  match entry.body.payload.resolve? with
  | none => .error .invalidForkResolution
  | some resolve =>
    if entry.body.communityId ≠ forked.evidence.communityId then .error .invalidForkResolution
    else do
      checkDeclaredHeads forked resolve
      let selected ← selectedState forked resolve
      checkResolutionLink selected entry.body
      let eligible ← countEligibleRecoverySigners forked.stable.state.recovery.config entry
      let resolved ← applyEntry selected.state entry.body.seq entry.body.payload
      if computeStateRoot env resolved ≠ entry.body.stateRoot then .error .stateRootMismatch
      else
        let newAccepted : ValidatedGovernanceState :=
          ⟨resolved, .entry entry.body.seq entry.id, entry.body.stateRoot⟩
        let resolution : GovernanceForkResolution :=
          ⟨entry.evidence, resolve.selectedHead, resolve.selectedStateRoot, eligible.toList, entry.id,
            entry.body.stateRoot⟩
        pure ⟨newAccepted,
          forked.lineage.insert entry.id ⟨entry.body.seq, entry.body.prev, newAccepted, entry.evidence⟩,
          forked.priorAudit ++ [forked.evidence.record (.resolved resolution)]⟩

/-! ### Calls -/

/-- The replacement state of a fork, or the linear state changed in place. -/
def observeLinear (linear : LinearGovernanceState) (entry : VerifiedGovernanceEntry env) :
    Except Reject (Option GovernanceForkedState × GovernanceObservation) × LinearGovernanceState :=
  if entry.body.payload.resolve?.isSome then (.error .invalidForkResolution, linear)
  else if linear.lineage.nodes.contains entry.id then (.ok (none, .duplicate entry.id), linear)
  else match predecessorForLineage linear.lineage entry.body.prev entry.body.seq with
    | .error e => (.error e, linear)
    | .ok predecessor => match validateCandidate predecessor entry with
      | .error e => (.error e, linear)
      | .ok candidate =>
        if candidate.predecessor.tip ≠ linear.accepted.tip then
          match enterForkedFromLinear linear candidate with
          | .error e => (.error e, linear)
          | .ok forked => (.ok (some forked, .forkDetected forked.evidence), linear)
        else
          let accepted := candidate.resulting
          (.ok (none, .advanced accepted.tip accepted.committedStateRoot),
            { linear with accepted := accepted, lineage := linear.lineage.insertCandidate candidate })

def observeForked (forked : GovernanceForkedState) (entry : VerifiedGovernanceEntry env) :
    Except Reject LinearGovernanceState :=
  if entry.body.payload.resolve?.isNone then .error .unresolvedFork else validateAndCommitResolution forked entry

namespace GovernanceMachine

/-- The commit that an observation reports: an advance of the accepted tip, and nothing else. -/
def transitionOf (prior next : ValidatedGovernanceState) (entry : AuthenticatedGovernanceEvidence) :
    GovernanceObservation → Option CommittedGovernanceTransition
  | .advanced _ _ => some ⟨prior, next, .linearAdvance, entry, none⟩
  | _ => none

def observeCommitted (m : GovernanceMachine) (entry : VerifiedGovernanceEntry env) :
    Except Reject (GovernanceObservation × Option CommittedGovernanceTransition) × GovernanceMachine :=
  match m with
  | linear l => match observeLinear l entry with
    | (.error e, l') => (.error e, linear l')
    | (.ok (some forked, observation), l') =>
      (.ok (observation, transitionOf l.accepted l'.accepted entry.evidence observation), governanceForked forked)
    | (.ok (none, observation), l') =>
      (.ok (observation, transitionOf l.accepted l'.accepted entry.evidence observation), linear l')
  | governanceForked f => match observeForked f entry with
    | .error e => (.error e, governanceForked f)
    | .ok l =>
      let selected := entry.body.payload.resolve?.bind fun resolve => f.branches.get? resolve.selectedHead
      (.ok (.advanced l.accepted.tip l.accepted.committedStateRoot,
        some ⟨f.projectionPrior, l.accepted, .forkResolution, entry.evidence, selected⟩), linear l)

def ingestBranchEvidence (m : GovernanceMachine) (entry : VerifiedGovernanceEntry env) :
    Except Reject GovernanceObservation × GovernanceMachine :=
  match m with
  | linear _ => (.error .unresolvedFork, m)
  | governanceForked f =>
    if entry.body.payload.resolve?.isSome then (.error .invalidForkResolution, m)
    else if f.lineage.nodes.contains entry.id then (.ok (.duplicate entry.id), m)
    else match predecessorForLineage f.lineage entry.body.prev entry.body.seq with
      | .error e => (.error e, m)
      | .ok predecessor => match validateCandidate predecessor entry with
        | .error e => (.error e, m)
        | .ok candidate =>
          match buildForkedState (f.lineage.insertCandidate candidate)
              ((OrdSet.ofList f.branches.keys).add candidate.evidence.id) f.priorAudit f.projectionPrior with
          | .error e => (.error e, m)
          | .ok next => (.ok (.forkDetected next.evidence), governanceForked next)

end GovernanceMachine

/-- A call of the machine. -/
inductive Call (env : Env)
  | observe (entry : VerifiedGovernanceEntry env)
  | ingest (entry : VerifiedGovernanceEntry env)

namespace Call

def entry : Call env → VerifiedGovernanceEntry env
  | observe e => e
  | ingest e => e

end Call

namespace GovernanceMachine

def call (m : GovernanceMachine) : Call env → Except Reject GovernanceObservation × GovernanceMachine
  | .observe e => match m.observeCommitted e with
    | (result, m') => (result.map Prod.fst, m')
  | .ingest e => m.ingestBranchEvidence e

/-- The machine after a sequence of calls. -/
def run (m : GovernanceMachine) (calls : List (Call env)) : GovernanceMachine :=
  calls.foldl (fun m c => (m.call c).2) m

end GovernanceMachine

end IrohRooms.Governance
