import IrohRooms.Governance.Decode
import IrohRooms.Governance.Soundness

/-!
# Verifying a received entry

An entry is verified over the exact bytes it came in: its signature, that its body encodes to these bytes and decodes
from them again, and its approvals in an order of their own, whatever order they were supplied in. What a success means
is said once (`verifyGovernanceEntry_eq_ok`), in terms in which the supplied order does not occur.
-/

namespace IrohRooms.Governance

/-! ### Signed records -/

structure GovernanceApproval where
  body : GovernanceApprovalBody
  csb : Bytes
  signature : Signature

structure GovernanceEntry where
  body : GovernanceEntryBody
  csb : Bytes
  signer : PrincipalId
  signature : Signature
  approvals : List GovernanceApproval

def GovernanceApproval.fromReceivedCsb (csb : Bytes) (signature : Signature) : Except Reject GovernanceApproval := do
  let body ← decodeApprovalCsb csb
  pure ⟨body, csb, signature⟩

def GovernanceEntry.fromReceivedCsb (csb : Bytes) (signer : PrincipalId) (signature : Signature)
    (approvals : List GovernanceApproval) : Except Reject GovernanceEntry := do
  let body ← decodeEntryCsb csb
  pure ⟨body, csb, signer, signature, approvals⟩

section Verify

variable (env : Env)

def approvalIdFromCsb (csb : Bytes) : Digest := ⟨blake3Domain env Domain.governanceApproval csb⟩

def verifyEntryCrypto (entry : GovernanceEntry) : Except Reject GovernanceEntryBody :=
  if env.verify entry.signer.bits (signingMessage Domain.governanceEntry entry.csb) entry.signature = false then
    .error .badSignature
  else if entryCsb entry.body ≠ entry.csb then .error .nonCanonicalEncoding
  else if entry.body.kind ≠ entry.body.payload.kind then .error .invalidContent
  else do
    let decoded ← decodeEntryCsb entry.csb
    if decoded ≠ entry.body then .error .nonCanonicalEncoding else pure decoded

def verifyApprovalCrypto (approval : GovernanceApproval) : Except Reject GovernanceApprovalBody :=
  if env.verify approval.body.approver.bits (signingMessage Domain.governanceApproval approval.csb) approval.signature =
      false then .error .badSignature
  else if approvalCsb approval.body ≠ approval.csb then .error .nonCanonicalEncoding
  else .ok approval.body

/-- By approver, then by the hash of the exact bytes. -/
def approvalLe (a b : GovernanceApproval) : Prop :=
  a.body.approver < b.body.approver ∨
    a.body.approver = b.body.approver ∧ approvalIdFromCsb env a.csb ≤ approvalIdFromCsb env b.csb

instance : DecidableRel (approvalLe env) := fun a b =>
  inferInstanceAs (Decidable (a.body.approver < b.body.approver ∨
    a.body.approver = b.body.approver ∧ approvalIdFromCsb env a.csb ≤ approvalIdFromCsb env b.csb))

/-- The evidence of approvals that are all bound to the entry, each by another approver. -/
def verifyApprovals (body : GovernanceEntryBody) (id : GovernanceId) :
    List GovernanceApproval → OrdSet PrincipalId → Except Reject (List VerifiedGovernanceApprovalEvidence)
  | [], _ => .ok []
  | approval :: rest, seen => do
    let verified ← verifyApprovalCrypto env approval
    if verified.communityId ≠ body.communityId ∨ verified.entryId ≠ id ∨ verified.stateRoot ≠ body.stateRoot then
      .error .invalidApproval
    else if verified.approver ∈ seen then .error .invalidApproval
    else do
      let evidence ← verifyApprovals body id rest (seen.add verified.approver)
      pure (⟨verified, approval.csb, approval.signature⟩ :: evidence)

def verifyGovernanceEntry (entry : GovernanceEntry) : Except Reject AuthenticatedGovernanceEvidence := do
  let body ← verifyEntryCrypto env entry
  let verifiedId := entryIdFromCsb env entry.csb
  let approvals := entry.approvals.insertionSort (approvalLe env)
  let evidence ← verifyApprovals env body verifiedId approvals OrdMap.empty
  pure ⟨verifiedId, body, entry.csb, entry.signer, entry.signature, evidence⟩

end Verify

/-! ### What decoding guarantees -/

theorem readResolution_eq_ok {code : Reject} {value : CborValue} {p : ForkResolve} (h : readResolution code value = .ok p) :
    p.branchHeads.Pairwise (· < ·) ∧ 2 ≤ p.branchHeads.length ∧ p.selectedHead ∈ p.branchHeads := by
  unfold readResolution at h
  obtain ⟨entries, -, h⟩ := bind_eq_ok_iff.mp h
  obtain ⟨_, -, h⟩ := bind_eq_ok_iff.mp h
  obtain ⟨⟨heads, selected⟩, hset, h⟩ := bind_eq_ok_iff.mp h
  obtain ⟨root, -, h⟩ := bind_eq_ok_iff.mp h
  obtain ⟨createdAtMs, -, h⟩ := bind_eq_ok_iff.mp h
  obtain rfl := Except.ok.inj h
  exact (readCanonicalBranchSet_eq_ok hset).2.2

theorem GovernanceEntryBody.fromCanonical_canonical {value : CborValue} {body : GovernanceEntryBody}
    (h : GovernanceEntryBody.fromCanonical value = .ok body) : body.Canonical := by
  obtain ⟨entries, -, h⟩ := bind_eq_ok_iff.mp h
  obtain ⟨_, -, h⟩ := bind_eq_ok_iff.mp h
  obtain ⟨communityId, -, h⟩ := bind_eq_ok_iff.mp h
  obtain ⟨seq, -, h⟩ := bind_eq_ok_iff.mp h
  split_ifs at h with hseq
  obtain ⟨createdAtMs, -, h⟩ := bind_eq_ok_iff.mp h
  obtain ⟨name, -, h⟩ := bind_eq_ok_iff.mp h
  obtain ⟨kind, -, h⟩ := bind_eq_ok_iff.mp h
  obtain ⟨payloadVal, -, h⟩ := bind_eq_ok_iff.mp h
  obtain ⟨payload, hpayload, h⟩ := bind_eq_ok_iff.mp h
  obtain ⟨stateRoot, -, h⟩ := bind_eq_ok_iff.mp h
  obtain ⟨prev, -, h⟩ := bind_eq_ok_iff.mp h
  split_ifs at h with hprev hkind
  obtain rfl := Except.ok.inj h
  have hkind := not_not.mp hkind
  refine ⟨hkind.symm, hseq, ?_, fun p hp => ?_⟩
  · have hprev := not_not.mp hprev
    rw [← Option.isNone_iff_eq_none, ← hprev, decide_eq_true_iff]
  · -- only the kind of a resolution reads one
    obtain rfl : payload = .forkResolve p := by
      cases payload with
      | forkResolve q => exact congrArg _ (Option.some.inj hp)
      | _ => cases hp
    obtain rfl : GovernanceOperationKind.forkResolve = kind := hkind
    obtain ⟨_, -, hpayload⟩ := bind_eq_ok_iff.mp hpayload
    obtain ⟨q, hq, hpayload⟩ := bind_eq_ok_iff.mp hpayload
    obtain rfl := GovernanceOperationPayload.forkResolve.inj (Except.ok.inj hpayload)
    exact readResolution_eq_ok hq

theorem decodeEntryCsb_canonical {csb : Bytes} {body : GovernanceEntryBody} (h : decodeEntryCsb csb = .ok body) :
    body.Canonical := by
  unfold decodeEntryCsb at h
  split at h
  · exact GovernanceEntryBody.fromCanonical_canonical h
  · cases h

/-! ### What verification says -/

section Spec

variable {env : Env}

def GovernanceApproval.evidence (a : GovernanceApproval) : VerifiedGovernanceApprovalEvidence :=
  ⟨a.body, a.csb, a.signature⟩

/-- An approval signed by its approver and bound to the entry. -/
structure GovernanceApproval.BoundTo (env : Env) (body : GovernanceEntryBody) (id : GovernanceId) (a : GovernanceApproval) :
    Prop where
  signature : env.verify a.body.approver.bits (signingMessage Domain.governanceApproval a.csb) a.signature = true
  csb : approvalCsb a.body = a.csb
  community : a.body.communityId = body.communityId
  entry : a.body.entryId = id
  root : a.body.stateRoot = body.stateRoot

theorem verifyEntryCrypto_eq_ok {entry : GovernanceEntry} {body : GovernanceEntryBody} :
    verifyEntryCrypto env entry = .ok body ↔
      env.verify entry.signer.bits (signingMessage Domain.governanceEntry entry.csb) entry.signature = true ∧
      entryCsb entry.body = entry.csb ∧ entry.body.kind = entry.body.payload.kind ∧
      decodeEntryCsb entry.csb = .ok entry.body ∧ body = entry.body := by
  unfold verifyEntryCrypto
  constructor
  · intro h
    split_ifs at h with hsig hcsb hkind
    obtain ⟨decoded, hdecoded, h⟩ := bind_eq_ok_iff.mp h
    split_ifs at h with hsame
    obtain rfl := not_not.mp hsame
    exact ⟨by simpa using hsig, not_not.mp hcsb, not_not.mp hkind, hdecoded, (Except.ok.inj h).symm⟩
  · rintro ⟨hsig, hcsb, hkind, hdecoded, rfl⟩
    rw [hsig, if_neg (by simp), if_neg (not_not.mpr hcsb), if_neg (not_not.mpr hkind), hdecoded]
    exact if_neg (not_not.mpr rfl)

theorem verifyApprovalCrypto_eq_ok {a : GovernanceApproval} {body : GovernanceApprovalBody} :
    verifyApprovalCrypto env a = .ok body ↔
      env.verify a.body.approver.bits (signingMessage Domain.governanceApproval a.csb) a.signature = true ∧
      approvalCsb a.body = a.csb ∧ body = a.body := by
  unfold verifyApprovalCrypto
  constructor
  · intro h
    split_ifs at h with hsig hcsb
    exact ⟨by simpa using hsig, not_not.mp hcsb, (Except.ok.inj h).symm⟩
  · rintro ⟨hsig, hcsb, rfl⟩
    rw [hsig, if_neg (by simp), if_neg (not_not.mpr hcsb)]

/-- The loop over the approvals succeeds exactly if all are bound to the entry and their approvers are all new. -/
theorem verifyApprovals_eq_ok {body : GovernanceEntryBody} {id : GovernanceId} {l : List GovernanceApproval}
    {seen : OrdSet PrincipalId} {out : List VerifiedGovernanceApprovalEvidence} :
    verifyApprovals env body id l seen = .ok out ↔
      (∀ a ∈ l, a.BoundTo env body id) ∧ (l.map fun a => a.body.approver).Nodup ∧ (∀ a ∈ l, a.body.approver ∉ seen) ∧
      out = l.map GovernanceApproval.evidence := by
  induction l generalizing seen out with
  | nil => simp [verifyApprovals, eq_comm]
  | cons a l ih =>
    simp only [verifyApprovals, bind_eq_ok_iff, verifyApprovalCrypto_eq_ok]
    constructor
    · rintro ⟨_, ⟨hsig, hcsb, rfl⟩, h⟩
      split_ifs at h with hbound hseen
      obtain ⟨evidence, hevidence, h⟩ := bind_eq_ok_iff.mp h
      obtain rfl := Except.ok.inj h
      obtain ⟨hall, hnodup, hnew, rfl⟩ := ih.mp hevidence
      simp only [not_or, not_not] at hbound
      have hfresh : a.body.approver ∉ l.map fun a => a.body.approver := by
        intro hmem
        obtain ⟨b, hb, heq⟩ := List.mem_map.mp hmem
        exact hnew b hb (OrdSet.mem_add.mpr (.inl heq))
      refine ⟨?_, List.nodup_cons.mpr ⟨hfresh, hnodup⟩, ?_, rfl⟩
      · intro b hb
        rcases List.mem_cons.mp hb with rfl | hb
        · exact ⟨hsig, hcsb, hbound.1, hbound.2.1, hbound.2.2⟩
        · exact hall b hb
      · intro b hb
        rcases List.mem_cons.mp hb with rfl | hb
        · exact hseen
        · exact fun hmem => hnew b hb (OrdSet.mem_add.mpr (.inr hmem))
    · rintro ⟨hall, hnodup, hnew, rfl⟩
      obtain ⟨hsig, hcsb, hcommunity, hentry, hroot⟩ := hall a List.mem_cons_self
      obtain ⟨hfresh, hnodup⟩ := List.nodup_cons.mp hnodup
      refine ⟨a.body, ⟨hsig, hcsb, rfl⟩, ?_⟩
      rw [if_neg (by simp [hcommunity, hentry, hroot]), if_neg (hnew a List.mem_cons_self), bind_eq_ok_iff]
      refine ⟨_, ih.mpr ⟨fun b hb => hall b (List.mem_cons_of_mem _ hb), hnodup, fun b hb hmem => ?_, rfl⟩, rfl⟩
      rcases OrdSet.mem_add.mp hmem with heq | hmem
      · exact hfresh (List.mem_map.mpr ⟨b, hb, heq⟩)
      · exact hnew b (List.mem_cons_of_mem _ hb) hmem

theorem verifyGovernanceEntry_eq_ok {entry : GovernanceEntry} {e : AuthenticatedGovernanceEvidence} :
    verifyGovernanceEntry env entry = .ok e ↔
      verifyEntryCrypto env entry = .ok entry.body ∧
      (∀ a ∈ entry.approvals, a.BoundTo env entry.body (entryIdFromCsb env entry.csb)) ∧
      (entry.approvals.map fun a => a.body.approver).Nodup ∧
      e = ⟨entryIdFromCsb env entry.csb, entry.body, entry.csb, entry.signer, entry.signature,
        (entry.approvals.insertionSort (approvalLe env)).map GovernanceApproval.evidence⟩ := by
  have hperm := List.perm_insertionSort (approvalLe env) entry.approvals
  have hmem : (∀ a ∈ entry.approvals.insertionSort (approvalLe env),
      a.BoundTo env entry.body (entryIdFromCsb env entry.csb)) ↔
      ∀ a ∈ entry.approvals, a.BoundTo env entry.body (entryIdFromCsb env entry.csb) := by
    simp only [hperm.mem_iff]
  have hnodup := (hperm.map fun a => a.body.approver).nodup_iff
  simp only [verifyGovernanceEntry, bind_eq_ok_iff]
  constructor
  · rintro ⟨body, hbody, evidence, hevidence, h⟩
    obtain rfl := (verifyEntryCrypto_eq_ok.mp hbody).2.2.2.2
    obtain ⟨hall, hdistinct, -, rfl⟩ := verifyApprovals_eq_ok.mp hevidence
    exact ⟨hbody, hmem.mp hall, hnodup.mp hdistinct, (Except.ok.inj h).symm⟩
  · rintro ⟨hbody, hall, hdistinct, rfl⟩
    exact ⟨entry.body, hbody, _, verifyApprovals_eq_ok.mpr ⟨hmem.mpr hall, hnodup.mpr hdistinct, by simp, rfl⟩, rfl⟩

/-- Approvals by different approvers have one order. -/
theorem sort_approvals_eq {l l' : List GovernanceApproval} (h : l.Perm l')
    (hnodup : (l.map fun a => a.body.approver).Nodup) :
    l.insertionSort (approvalLe env) = l'.insertionSort (approvalLe env) := by
  have htotal : Std.Total (approvalLe env) := ⟨fun a b => by
    rcases lt_trichotomy a.body.approver b.body.approver with hlt | heq | hgt
    · exact .inl (.inl hlt)
    · rcases le_total (approvalIdFromCsb env a.csb) (approvalIdFromCsb env b.csb) with hle | hle
      · exact .inl (.inr ⟨heq, hle⟩)
      · exact .inr (.inr ⟨heq.symm, hle⟩)
    · exact .inr (.inl hgt)⟩
  have htrans : IsTrans GovernanceApproval (approvalLe env) := ⟨fun a b c hab hbc => by
    rcases hab with hab | ⟨hab, hle⟩
    · rcases hbc with hbc | ⟨hbc, -⟩
      · exact .inl (hab.trans hbc)
      · exact .inl (hbc ▸ hab)
    · rcases hbc with hbc | ⟨hbc, hle'⟩
      · exact .inl (hab ▸ hbc)
      · exact .inr ⟨hab.trans hbc, hle.trans hle'⟩⟩
  have hsorted := List.pairwise_insertionSort (approvalLe env) l
  have hsorted' := List.pairwise_insertionSort (approvalLe env) l'
  have hperm := List.perm_insertionSort (approvalLe env) l
  have hperm' := List.perm_insertionSort (approvalLe env) l'
  refine List.Perm.eq_of_pairwise (fun a b ha hb hab hba => ?_) hsorted hsorted' (hperm.trans (h.trans hperm'.symm))
  have hsame : a.body.approver = b.body.approver := by
    rcases hab with hab | ⟨hab, -⟩
    · rcases hba with hba | ⟨hba, -⟩
      · exact absurd hba (lt_asymm hab)
      · exact hba.symm
    · exact hab
  exact List.inj_on_of_nodup_map hnodup (hperm.mem_iff.mp ha) (h.mem_iff.mpr (hperm'.mem_iff.mp hb)) hsame

theorem verifyGovernanceEntry_verified {entry : GovernanceEntry} {e : AuthenticatedGovernanceEvidence}
    (h : verifyGovernanceEntry env entry = .ok e) : e.Verified env := by
  rw [verifyGovernanceEntry_eq_ok] at h
  obtain ⟨hentry, hall, hnodup, rfl⟩ := h
  rw [verifyEntryCrypto_eq_ok] at hentry
  obtain ⟨hsig, hcsb, -, hdecoded, -⟩ := hentry
  have hperm := List.perm_insertionSort (approvalLe env) entry.approvals
  refine ⟨decodeEntryCsb_canonical hdecoded, hcsb.symm, rfl, hsig, ?_, ?_⟩
  · have hmap : ((entry.approvals.insertionSort (approvalLe env)).map GovernanceApproval.evidence).map
        (fun a => a.body.approver) = (entry.approvals.insertionSort (approvalLe env)).map fun a => a.body.approver := by
      rw [List.map_map]
      rfl
    rw [hmap]
    exact (hperm.map fun a => a.body.approver).nodup_iff.mpr hnodup
  · intro a ha
    obtain ⟨b, hb, rfl⟩ := List.mem_map.mp ha
    obtain ⟨hsig, hcsb, hcommunity, hid, hroot⟩ := hall b (hperm.mem_iff.mp hb)
    exact ⟨hcsb.symm, hsig, hcommunity, hid, hroot⟩

/-- A verified entry is the received one to the byte, and the order in which its approvals came makes no difference. -/
theorem verifyGovernanceEntry_exact (entry : GovernanceEntry) :
    (∀ e, verifyGovernanceEntry env entry = .ok e → e.Verified env ∧ entryCsb e.body = entry.csb ∧
      e.id = entryIdFromCsb env entry.csb ∧ e.csb = entry.csb ∧ e.signer = entry.signer ∧ e.signature = entry.signature ∧
      e.approvals.Perm (entry.approvals.map GovernanceApproval.evidence)) ∧
    ∀ approvals, entry.approvals.Perm approvals → ∀ e,
      verifyGovernanceEntry env { entry with approvals := approvals } = .ok e ↔ verifyGovernanceEntry env entry = .ok e := by
  refine ⟨fun e h => ?_, fun approvals hperm e => ?_⟩
  · have hverified := verifyGovernanceEntry_verified h
    rw [verifyGovernanceEntry_eq_ok] at h
    obtain ⟨hentry, -, -, rfl⟩ := h
    exact ⟨hverified, hverified.csb.symm, rfl, rfl, rfl, rfl, (List.perm_insertionSort _ _).map _⟩
  · have hcrypto : verifyEntryCrypto env { entry with approvals := approvals } = verifyEntryCrypto env entry := rfl
    have hnodup := (hperm.map fun a => a.body.approver).nodup_iff
    rw [verifyGovernanceEntry_eq_ok, verifyGovernanceEntry_eq_ok, hcrypto]
    simp only [hperm.symm.mem_iff, ← hnodup]
    constructor
    · rintro ⟨hentry, hall, hdistinct, rfl⟩
      exact ⟨hentry, hall, hdistinct, by rw [sort_approvals_eq hperm hdistinct]⟩
    · rintro ⟨hentry, hall, hdistinct, rfl⟩
      exact ⟨hentry, hall, hdistinct, by rw [sort_approvals_eq hperm hdistinct]⟩

end Spec

namespace Toy

def approvalBy (k : Nat) : GovernanceApproval :=
  let body : GovernanceApprovalBody :=
    ⟨(a small).body.communityId, (a small).id, (a small).body.stateRoot, principal k, 5⟩
  ⟨body, approvalCsb body, tailEnv.sign (key k) (signingMessage Domain.governanceApproval (approvalCsb body))⟩

/-- The entry `a` with two approvals. -/
def approved (approvals : List GovernanceApproval) : GovernanceEntry :=
  ⟨(a small).body, (a small).evidence.csb, principal 1, (a small).evidence.signature, approvals⟩

theorem verifyGovernanceEntry_exact_swapped :
    ∃ e, verifyGovernanceEntry tailEnv (approved [approvalBy 2, approvalBy 1]) = .ok e ∧
      verifyGovernanceEntry tailEnv (approved [approvalBy 1, approvalBy 2]) = .ok e ∧ e.Verified tailEnv := by
  have hok : (verifyGovernanceEntry tailEnv (approved [approvalBy 2, approvalBy 1])).isOk = true := by decide +kernel
  cases h : verifyGovernanceEntry tailEnv (approved [approvalBy 2, approvalBy 1]) with
  | error x =>
    rw [h] at hok
    cases hok
  | ok e =>
    have hexact := @verifyGovernanceEntry_exact tailEnv (approved [approvalBy 2, approvalBy 1])
    refine ⟨e, rfl, ?_, (hexact.1 e h).1⟩
    exact (hexact.2 [approvalBy 1, approvalBy 2] (List.Perm.swap _ _ _) e).mpr h

end Toy

end IrohRooms.Governance
