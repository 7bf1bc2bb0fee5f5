import Mathlib.Data.List.Perm.Subperm
import IrohRooms.Governance.State

/-!
# Authorization of governance entries

The verified genesis, the validated snapshots and the five rules by which an ordinary entry extends one of them: a
trusted predecessor, the exact chain link, an operation that applies, a threshold of the *old* administrators, and the
declared root. `Authorised` says in one place what the rules amount to (`validateCandidate_eq_ok`).
-/

namespace IrohRooms.Governance

/-! ### Genesis -/

structure GenesisConfig where
  schemaVersion : UInt64
  createdAtMs : UInt64
  genesisNonce : Digest
  adminThreshold : UInt16
  administrators : List PrincipalId
  recovery : RecoveryConfig
  replicas : List ReplicaDescriptor
  communityPolicy : CommunityPolicy

def genesisSchemaVersion : UInt64 := 2

namespace GenesisConfig

def toCbor (c : GenesisConfig) : CborValue :=
  .map [("schema_version", .uint c.schemaVersion), ("created_at_ms", .uint c.createdAtMs),
    ("genesis_nonce", c.genesisNonce.toCbor), ("admin_threshold", .uint c.adminThreshold.toUInt64),
    ("administrators", .array (c.administrators.map Id.toCbor)), ("recovery", c.recovery.toCbor),
    ("replicas", .array (c.replicas.map ReplicaDescriptor.toCbor)), ("community_policy", c.communityPolicy.toCbor)]

def validate (c : GenesisConfig) : Except Reject Unit :=
  if c.schemaVersion ≠ genesisSchemaVersion then .error .unknownVersion
  else if c.administrators.isEmpty then .error .invalidContent
  else if (OrdSet.sortDedup c.administrators).length ≠ c.administrators.length then .error .invalidContent
  else if OrdSet.sortDedup c.administrators ≠ c.administrators then .error .invalidContent
  else if c.adminThreshold = 0 then .error .invalidContent
  else if c.administrators.length ≥ 2 ^ 16 then .error .invalidContent
  else if c.adminThreshold.toNat > c.administrators.length then .error .invalidContent
  else if (OrdSet.sortDedup (c.replicas.map ReplicaDescriptor.replicaId)).length ≠ c.replicas.length then
    .error .invalidContent
  else if c.replicas.insertionSort (fun a b => a.replicaId ≤ b.replicaId) ≠ c.replicas then .error .invalidContent
  else .ok ()

end GenesisConfig

def genesisConfigCsb (config : GenesisConfig) : Bytes := Cbor.encode config.toCbor

def deriveCommunityId (env : Env) (config : GenesisConfig) : CommunityId :=
  ⟨blake3Domain env Domain.community (genesisConfigCsb config)⟩

structure GenesisSignature where
  signer : PrincipalId
  signature : Signature

/-- The signatures counted so far; an outsider, a repeated signer or a bad signature refuses them all. -/
def countGenesisSignatures (env : Env) (config : GenesisConfig) (msg : Bytes) :
    List GenesisSignature → OrdSet PrincipalId → UInt16 → Except Reject UInt16
  | [], _, validCount => .ok validCount
  | sig :: rest, seen, validCount =>
    if sig.signer ∉ config.administrators then .error .invalidApproval
    else if sig.signer ∈ seen then .error .invalidApproval
    else if env.verify sig.signer.bits msg sig.signature = false then .error .badSignature
    else if validCount.toNat + 1 ≥ 2 ^ 16 then .error .invalidApproval
    else countGenesisSignatures env config msg rest (seen.add sig.signer) (validCount + 1)

def verifyGenesis (env : Env) (config : GenesisConfig) (signatures : List GenesisSignature) :
    Except Reject CommunityId := do
  config.validate
  let msg := signingMessage Domain.community (genesisConfigCsb config)
  let validCount ← countGenesisSignatures env config msg signatures OrdMap.empty 0
  if validCount < config.adminThreshold then .error .insufficientAuthorization
  else pure (deriveCommunityId env config)

def GovernanceState.fromGenesis (config : GenesisConfig) (communityId : CommunityId) : GovernanceState where
  communityId := communityId
  acceptedSeq := 0
  administrators := ⟨config.administrators, config.adminThreshold⟩
  recovery := ⟨config.recovery⟩
  replicas := config.replicas.foldl (fun m d => m.insert d.replicaId ⟨d, .active⟩) OrdMap.empty
  members := config.administrators.foldl
    (fun m a => m.insert a ⟨a, [.admin], .active, OrdMap.empty, 0, none, none⟩) OrdMap.empty
  streams := OrdMap.empty
  policy := config.communityPolicy

/-! ### Validated snapshots -/

inductive GovernanceTip
  | genesis
  | entry (seq : UInt64) (id : GovernanceId)
  deriving DecidableEq

namespace GovernanceTip

def seqNum : GovernanceTip → Nat
  | genesis => 0
  | entry seq _ => seq.toNat

def id? : GovernanceTip → Option GovernanceId
  | genesis => none
  | entry _ id => some id

/-- The sequence number and the predecessor that the next entry has to declare. -/
def expectedLink : GovernanceTip → Except Reject (UInt64 × Option GovernanceId)
  | genesis => .ok (1, none)
  | entry seq id => match checkedSucc seq with
    | some next => .ok (next, some id)
    | none => .error .invalidContent

end GovernanceTip

structure ValidatedGovernanceState where
  state : GovernanceState
  tip : GovernanceTip
  committedStateRoot : StateRoot

def validatedGenesisState (env : Env) (config : GenesisConfig) (signatures : List GenesisSignature) :
    Except Reject ValidatedGovernanceState := do
  let communityId ← verifyGenesis env config signatures
  let state := GovernanceState.fromGenesis config communityId
  pure ⟨state, .genesis, computeStateRoot env state⟩

structure ValidatedGovernanceCandidate where
  predecessor : ValidatedGovernanceState
  resulting : ValidatedGovernanceState
  evidence : AuthenticatedGovernanceEvidence

/-! ### Thresholds -/

/-- A threshold that can authorize anything: the keys ascend without duplicates, fit a `u16` count, and the threshold
lies between one and their number. -/
def thresholdInvariantsHold (keys : List PrincipalId) (threshold : UInt16) : Bool :=
  if keys.isEmpty || threshold = 0 then false
  else if OrdSet.sortDedup keys ≠ keys then false
  else if keys.length < 2 ^ 16 then decide (threshold.toNat ≤ keys.length)
  else false

def oldAdministratorInvariantsHold (admins : AdministratorState) : Bool :=
  thresholdInvariantsHold admins.administrators admins.threshold

def recoveryAuthorizationInvariantsHold (config : RecoveryConfig) : Bool :=
  thresholdInvariantsHold config.recoveryKeys config.threshold

/-- The distinct signers of an entry among the given keys. -/
def AuthenticatedGovernanceEvidence.signersAmong (e : AuthenticatedGovernanceEvidence) (keys : List PrincipalId) :
    OrdSet PrincipalId := e.signers.inter (OrdSet.ofList keys)

variable {env : Env}

/-- A count that does not fit a `u16` is above every threshold. -/
def verifyOldAdminThreshold (admins : AdministratorState) (entry : VerifiedGovernanceEntry env) : Except Reject Unit :=
  if oldAdministratorInvariantsHold admins = false then .error .insufficientAuthorization
  else
    let count := (entry.evidence.signersAmong admins.administrators).toList.length
    if count ≥ 2 ^ 16 || admins.threshold.toNat ≤ count then .ok () else .error .insufficientAuthorization

def validateCandidate (prevState : ValidatedGovernanceState) (entry : VerifiedGovernanceEntry env) :
    Except Reject ValidatedGovernanceCandidate := do
  if entry.body.payload.resolve?.isSome then .error .invalidForkResolution
  else
    verifyStateRoot env prevState.state prevState.committedStateRoot
    if entry.body.communityId ≠ prevState.state.communityId then .error .invalidContent
    else
      let (expectedSeq, expectedPrev) ← prevState.tip.expectedLink
      checkChainLink entry.body expectedPrev expectedSeq
      let candidateState ← applyEntry prevState.state entry.body.seq entry.body.payload
      verifyOldAdminThreshold prevState.state.administrators entry
      verifyStateRoot env candidateState entry.body.stateRoot
      pure ⟨prevState, ⟨candidateState, .entry entry.body.seq entry.id, entry.body.stateRoot⟩, entry.evidence⟩

/-! ### What authorization means -/

namespace AuthenticatedGovernanceEvidence

/-- `p` signed the entry or one of its approvals. -/
def SignedBy (e : AuthenticatedGovernanceEvidence) (p : PrincipalId) : Prop :=
  p = e.signer ∨ ∃ a ∈ e.approvals, a.body.approver = p

/-- At least `threshold` distinct keys of the list signed. -/
def Quorum (e : AuthenticatedGovernanceEvidence) (keys : List PrincipalId) (threshold : UInt16) : Prop :=
  ∃ ps : List PrincipalId, ps.Nodup ∧ (∀ p ∈ ps, p ∈ keys ∧ e.SignedBy p) ∧ threshold.toNat ≤ ps.length

variable {e : AuthenticatedGovernanceEvidence} {keys : List PrincipalId} {threshold : UInt16} {p : PrincipalId}

theorem mem_signersAmong : p ∈ e.signersAmong keys ↔ p ∈ keys ∧ e.SignedBy p := by
  simp only [signersAmong, signers, OrdSet.mem_inter, OrdSet.mem_extend, OrdSet.mem_ofList, List.mem_singleton,
    List.mem_map, SignedBy]
  exact and_comm

theorem quorum_iff : e.Quorum keys threshold ↔ threshold.toNat ≤ (e.signersAmong keys).toList.length := by
  constructor
  · rintro ⟨ps, hnodup, hmem, hle⟩
    have hsub : ps ⊆ (e.signersAmong keys).toList := fun p hp => by
      rw [OrdSet.mem_toList, mem_signersAmong]
      exact hmem p hp
    exact hle.trans (List.subperm_of_subset hnodup hsub).length_le
  · intro h
    refine ⟨(e.signersAmong keys).toList, OrdMap.keys_nodup _, fun p hp => ?_, h⟩
    rwa [OrdSet.mem_toList, mem_signersAmong] at hp

end AuthenticatedGovernanceEvidence

/-- The configurations that can authorize. -/
structure ValidThreshold (keys : List PrincipalId) (threshold : UInt16) : Prop where
  sorted : keys.Pairwise (· < ·)
  count : keys.length ≤ 65535
  pos : 1 ≤ threshold.toNat
  le : threshold.toNat ≤ keys.length

theorem thresholdInvariantsHold_iff {keys : List PrincipalId} {threshold : UInt16} :
    thresholdInvariantsHold keys threshold = true ↔ ValidThreshold keys threshold := by
  have hzero : threshold = 0 ↔ threshold.toNat = 0 := by rw [← UInt16.toNat_inj, UInt16.toNat_zero]
  rw [thresholdInvariantsHold]
  split_ifs with h₁ h₂ h₃
  · refine iff_of_false (by simp) fun h => ?_
    have hpos := h.pos
    have hle := h.le
    rcases Bool.or_eq_true_iff.mp h₁ with he | ht
    · rw [List.isEmpty_iff.mp he] at hle
      simp at hle
      omega
    · rw [hzero.mp (of_decide_eq_true ht)] at hpos
      omega
  · exact iff_of_false (by simp) fun h => h₂ (OrdSet.sortDedup_eq_self.mpr h.sorted)
  · rw [decide_eq_true_iff]
    refine ⟨fun hle => ⟨OrdSet.sortDedup_eq_self.mp (not_not.mp h₂), by omega, ?_, hle⟩, fun h => h.le⟩
    have hne : threshold ≠ 0 := fun h => h₁ (by simp [h])
    have : threshold.toNat ≠ 0 := fun h => hne (hzero.mpr h)
    omega
  · refine iff_of_false (by simp) fun h => ?_
    have := h.count
    omega

theorem verifyOldAdminThreshold_eq_ok {admins : AdministratorState} {entry : VerifiedGovernanceEntry env} :
    verifyOldAdminThreshold admins entry = .ok () ↔
      ValidThreshold admins.administrators admins.threshold ∧
        entry.evidence.Quorum admins.administrators admins.threshold := by
  rw [verifyOldAdminThreshold, oldAdministratorInvariantsHold, AuthenticatedGovernanceEvidence.quorum_iff,
    ← thresholdInvariantsHold_iff]
  have hlt := admins.threshold.toNat_lt
  by_cases h₁ : thresholdInvariantsHold admins.administrators admins.threshold = true
  · dsimp only
    rw [if_neg (by simp [h₁])]
    split_ifs with h₂
    · simp only [Bool.or_eq_true, decide_eq_true_eq] at h₂
      exact iff_of_true rfl ⟨h₁, by omega⟩
    · simp only [Bool.or_eq_true, decide_eq_true_eq, not_or] at h₂
      exact iff_of_false (by simp) fun h => h₂.2 h.2
  · rw [if_pos (by simpa using h₁)]
    exact iff_of_false (by simp) fun h => h₁ h.1

namespace ValidatedGovernanceState

/-- A snapshot whose root is the root of its state, at a tip that an entry can follow. -/
structure WellFormed (env : Env) (s : ValidatedGovernanceState) : Prop where
  root : s.committedStateRoot = computeStateRoot env s.state
  tip : ∀ seq id, s.tip = .entry seq id → seq ≠ 0
  seq : s.state.acceptedSeq.toNat = s.tip.seqNum

end ValidatedGovernanceState

/-- The entry extends the snapshot to `next` by the authority of the snapshot's own administrators. -/
structure Authorised (prev : ValidatedGovernanceState) (entry : VerifiedGovernanceEntry env)
    (next : GovernanceState) : Prop where
  ordinary : entry.body.payload.resolve? = none
  community : entry.body.communityId = prev.state.communityId
  seq : entry.body.seq.toNat = prev.tip.seqNum + 1
  back : entry.body.prev = prev.tip.id?
  apply : applyEntry prev.state entry.body.seq entry.body.payload = .ok next
  config : ValidThreshold prev.state.administrators.administrators prev.state.administrators.threshold
  quorum : entry.evidence.Quorum prev.state.administrators.administrators prev.state.administrators.threshold
  root : computeStateRoot env next = entry.body.stateRoot

theorem verifyStateRoot_eq_ok {s : GovernanceState} {root : StateRoot} :
    verifyStateRoot env s root = .ok () ↔ computeStateRoot env s = root := by
  rw [verifyStateRoot]
  split_ifs with h <;> simp [h]

/-- The chain link of a verified entry, at a tip that an entry can follow. -/
theorem checkLink_eq_ok {tip : GovernanceTip} (entry : VerifiedGovernanceEntry env)
    (htip : ∀ seq id, tip = .entry seq id → seq ≠ 0) :
    (do let (expectedSeq, expectedPrev) ← tip.expectedLink
        checkChainLink entry.body expectedPrev expectedSeq) = .ok () ↔
      entry.body.seq.toNat = tip.seqNum + 1 ∧ entry.body.prev = tip.id? := by
  have hprev := entry.verified.body.prev
  have hone : entry.body.seq = 1 ↔ entry.body.seq.toNat = 1 := by rw [← UInt64.toNat_inj, UInt64.toNat_one]
  rcases htip' : tip with _ | ⟨seq, id⟩
  · show checkChainLink entry.body none 1 = .ok () ↔ _
    rw [checkChainLink]
    split_ifs with h₁ h₂ h₃
    · exact iff_of_false (by simp) fun h => h₁ (hone.mpr h.1)
    · exact iff_of_false (by simp) fun h => by
        rw [h.2] at h₃
        exact absurd h₃ (by simp [GovernanceTip.id?])
    · simp only [not_not] at h₁
      exact iff_of_true rfl ⟨hone.mp h₂, by simpa [GovernanceTip.id?] using h₃⟩
    · exact absurd (not_not.mp h₁) h₂
    · exact absurd (not_not.mp h₁) h₂
  · have hseq : seq.toNat ≠ 0 := fun h => htip seq id htip' (by rw [← UInt64.toNat_inj, UInt64.toNat_zero, h])
    rw [bind_eq_ok_iff]
    constructor
    · rintro ⟨⟨next, back⟩, hlink, hcheck⟩
      rw [GovernanceTip.expectedLink] at hlink
      split at hlink <;> cases hlink
      rename_i hnext
      have hnext := checkedSucc_eq_some.mp hnext
      dsimp only at hcheck
      rw [checkChainLink] at hcheck
      split_ifs at hcheck with h₁ h₂ h₃ h₄
      · rw [not_not.mp h₁] at h₂
        rw [h₂, UInt64.toNat_one] at hnext
        omega
      · exact ⟨by rw [not_not.mp h₁, hnext, GovernanceTip.seqNum], not_not.mp h₄⟩
    · rintro ⟨hs, hp⟩
      have hnext : checkedSucc seq = some entry.body.seq := checkedSucc_eq_some.mpr hs
      refine ⟨(entry.body.seq, some id), by rw [GovernanceTip.expectedLink, hnext], ?_⟩
      have hne : entry.body.seq ≠ 1 := fun h => by
        rw [hone.mp h, GovernanceTip.seqNum] at hs
        omega
      simp [checkChainLink, hne, hp, GovernanceTip.id?]

theorem validateCandidate_eq_ok {prev : ValidatedGovernanceState} {entry : VerifiedGovernanceEntry env}
    {c : ValidatedGovernanceCandidate} (hprev : prev.WellFormed env) :
    validateCandidate prev entry = .ok c ↔
      ∃ next, Authorised prev entry next ∧
        c = ⟨prev, ⟨next, .entry entry.body.seq entry.id, entry.body.stateRoot⟩, entry.evidence⟩ := by
  rw [validateCandidate]
  split_ifs with h₁ h₂
  · refine iff_of_false (by simp) ?_
    rintro ⟨next, h, -⟩
    rw [h.ordinary] at h₁
    exact absurd h₁ (by simp)
  · refine iff_of_false ?_ ?_
    · rw [bind_eq_ok_iff]
      rintro ⟨-, -, h⟩
      exact absurd h (by simp)
    · rintro ⟨next, h, -⟩
      exact h₂ h.community
  · have hroot : verifyStateRoot env prev.state prev.committedStateRoot = .ok () :=
      verifyStateRoot_eq_ok.mpr hprev.root.symm
    have hlink := checkLink_eq_ok entry hprev.tip
    simp only [bind_eq_ok_iff, hroot, pure, Except.pure, Except.ok.injEq] at hlink ⊢
    constructor
    · rintro ⟨_, -, expected, hexp, _, hcheck, next, happly, _, hadmin, _, hnext, rfl⟩
      obtain ⟨hconfig, hquorum⟩ := verifyOldAdminThreshold_eq_ok.mp hadmin
      obtain ⟨hseq, hback⟩ := hlink.mp ⟨expected, hexp, hcheck⟩
      exact ⟨next, ⟨by simpa using h₁, not_not.mp h₂, hseq, hback, happly, hconfig, hquorum,
        verifyStateRoot_eq_ok.mp hnext⟩, rfl⟩
    · rintro ⟨next, h, rfl⟩
      obtain ⟨expected, hexp, hcheck⟩ := hlink.mpr ⟨h.seq, h.back⟩
      exact ⟨(), trivial, expected, hexp, (), hcheck, next, h.apply, (),
        verifyOldAdminThreshold_eq_ok.mpr ⟨h.config, h.quorum⟩, (), verifyStateRoot_eq_ok.mpr h.root, rfl⟩

end IrohRooms.Governance
