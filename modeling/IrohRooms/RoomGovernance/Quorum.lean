import Mathlib.Data.Finset.Card
import IrohRooms.RoomGovernance.Authorship

/-!
# Who is counted towards a quorum

Under an `m_of_n` policy the engine adds up, over the listed approvers, one for the signer of the entry and one for an
approval in the approver's name. What it counts is the number of listings that speak for the entry and, once more, of
those that speak for it in both ways (`quorumCount_eq`). It is a number of principals as long as nobody is listed twice
and no listed author approves its own entry.
-/

namespace IrohRooms.RoomGovernance

open Governance (Id Reject)

def ApprovalPolicy.approvers : ApprovalPolicy → List MemberId
  | .adminAlone => []
  | .mOfN _ approvers => approvers

theorem ApprovalPolicy.fromCbor_nodup {entries : List (String × CborValue)} {policy : ApprovalPolicy}
    (h : fromCbor entries = .ok policy) : policy.approvers.Nodup := by
  obtain ⟨type, -, h⟩ := bind_eq_ok_iff.mp h
  split at h
  · split_ifs at h
    obtain rfl := Except.ok.inj h
    exact List.nodup_nil
  · obtain ⟨_, -, h⟩ := bind_eq_ok_iff.mp h
    obtain ⟨m, -, h⟩ := bind_eq_ok_iff.mp h
    obtain ⟨items, -, h⟩ := bind_eq_ok_iff.mp h
    obtain ⟨listed, -, h⟩ := bind_eq_ok_iff.mp h
    split_ifs at h
    obtain rfl := Except.ok.inj h
    exact OrdMap.keys_nodup _
  · cases h

/-- A policy that is read from a record lists nobody twice. -/
theorem GovernanceEntryBody.fromCanonical_nodup {value : CborValue} {body : GovernanceEntryBody}
    (h : fromCanonical value = .ok body) {policy : ApprovalPolicy} (hpolicy : body.action = .setPolicy policy) :
    policy.approvers.Nodup := by
  obtain ⟨-, kind, actionVal, -, -, -, -, -, -, -, -, -, -, -, haction⟩ := of_fromCanonical h
  obtain rfl : body.action.kindStr = kind := GovernanceAction.kindStr_of_fromCbor haction
  rw [hpolicy] at haction
  obtain ⟨entries, -, haction⟩ := bind_eq_ok_iff.mp haction
  obtain ⟨policy', hread, heq⟩ := map_eq_ok_iff.mp haction
  obtain rfl := GovernanceAction.setPolicy.inj heq
  exact ApprovalPolicy.fromCbor_nodup hread

section Count

variable {signer : MemberId} {approvals : List ApprovalBody} {approvers : List MemberId}

variable (approvals) in
/-- Some approval is in the principal's name. -/
def HasApproved (x : MemberId) : Prop := ∃ a ∈ approvals, a.approver = x

instance (x : MemberId) : Decidable (HasApproved approvals x) := inferInstanceAs (Decidable (∃ a ∈ approvals, a.approver = x))

/-- A listing that is both the signer's and an approver's counts twice. -/
theorem quorumCount_eq : quorumCount signer approvals approvers =
    approvers.countP (fun x => x = signer ∨ HasApproved approvals x) +
      approvers.countP (fun x => x = signer ∧ HasApproved approvals x) := by
  induction approvers with
  | nil => rfl
  | cons x rest ih =>
    have hany : (approvals.any fun a => decide (a.approver = x)) = true ↔ HasApproved approvals x := by
      simp [HasApproved]
    simp only [quorumCount, List.countP_cons, ih, hany, decide_eq_true_eq]
    by_cases hsigner : x = signer <;> by_cases happroved : HasApproved approvals x <;> simp [hsigner, happroved] <;> omega

/-- Where nobody can be counted twice, the count is one of principals. -/
theorem quorumCount_eq_card (hnodup : approvers.Nodup) (honce : ¬ (signer ∈ approvers ∧ HasApproved approvals signer)) :
    quorumCount signer approvals approvers =
      (approvers.toFinset.filter fun x => x = signer ∨ HasApproved approvals x).card := by
  have htwice : approvers.countP (fun x => x = signer ∧ HasApproved approvals x) = 0 := by
    rw [List.countP_eq_zero]
    intro x hx htwice
    obtain ⟨rfl, happroved⟩ := of_decide_eq_true htwice
    exact honce ⟨hx, happroved⟩
  rw [quorumCount_eq, htwice, Nat.add_zero, List.countP_eq_length_filter,
    ← List.toFinset_card_of_nodup (hnodup.filter _), List.toFinset_filter]
  simp only [decide_eq_true_eq]

/-- Whatever else an entry has to pass, under an `m_of_n` policy it needs the count. -/
theorem le_quorumCount_of_authorized {state : GovernanceState} {entry : GovernanceEntryBody} {m : UInt64}
    (h : authorizeGovernanceEntry state entry approvals = .ok ()) (hinit : entry.action.isInitRoom = false)
    (hpolicy : state.policy = .mOfN m approvers) : m.toNat ≤ quorumCount entry.author approvals approvers := by
  have hcount : authorizeAdminOrPolicy state entry.author approvals = .ok () →
      m.toNat ≤ quorumCount entry.author approvals approvers := by
    intro h
    unfold authorizeAdminOrPolicy at h
    rw [hpolicy] at h
    dsimp only at h
    split_ifs at h with hle
    exact hle
  unfold authorizeGovernanceEntry at h
  split_ifs at h
  cases haction : entry.action with
  | initRoom admin adminDevice roomName => simp [haction, GovernanceAction.isInitRoom] at hinit
  | removeMember member =>
    simp only [haction] at h
    split_ifs at h
    exact hcount h
  | addMember member device role => exact hcount (by simpa only [haction] using h)
  | setRole member role => exact hcount (by simpa only [haction] using h)
  | rotateDevice member device => exact hcount (by simpa only [haction] using h)
  | setPolicy policy => exact hcount (by simpa only [haction] using h)

end Count

namespace GovernanceFold

/-- A supplied approval of the entry is in the principal's name. -/
def Approves (fold : GovernanceFold) (id : GovernanceEntryId) (x : MemberId) : Prop :=
  ∃ a ∈ fold.approvals, a.entryId = id ∧ a.approver = x

instance (fold : GovernanceFold) (id : GovernanceEntryId) (x : MemberId) : Decidable (fold.Approves id x) :=
  inferInstanceAs (Decidable (∃ a ∈ fold.approvals, a.entryId = id ∧ a.approver = x))

/-- The approvers that speak for an entry, as its author or in an approval. -/
def voices (fold : GovernanceFold) (id : GovernanceEntryId) (author : MemberId) (approvers : List MemberId) :
    Finset MemberId := approvers.toFinset.filter fun x => x = author ∨ fold.Approves id x

/-- Nobody can be counted twice: no principal is listed twice, and no listed author approves its own entry. -/
def CountsOnce (fold : GovernanceFold) (state : GovernanceState) (id : GovernanceEntryId) (author : MemberId) : Prop :=
  state.policy.approvers.Nodup ∧ ¬ (author ∈ state.policy.approvers ∧ fold.Approves id author)

instance (fold : GovernanceFold) (state : GovernanceState) (id : GovernanceEntryId) (author : MemberId) :
    Decidable (fold.CountsOnce state id author) := inferInstanceAs (Decidable (_ ∧ ¬ (_ ∧ _)))

variable {env : Env} {fold : GovernanceFold}

theorem hasApproved_iff {id : GovernanceEntryId} {x : MemberId} :
    HasApproved (approvalsFor fold.approvalsByEntry id) x ↔ fold.Approves id x := by
  unfold HasApproved Approves
  simp only [mem_approvalsFor, and_assoc]

/-- One acceptance: a quorum that counts nobody twice is one of `m` principals. -/
theorem AcceptedIn.quorum {roomId : RoomId} {state : GovernanceState} {id : GovernanceEntryId}
    {body : GovernanceEntryBody} (h : fold.AcceptedIn env roomId state id body)
    (hinit : body.action.isInitRoom = false) (honce : fold.CountsOnce state id body.author) {m : UInt64}
    {approvers : List MemberId} (hpolicy : state.policy = .mOfN m approvers) :
    m.toNat ≤ (fold.voices id body.author approvers).card := by
  obtain ⟨-, ⟨-, hgenesis, -⟩ | ⟨-, -, -, -, -, hauthorized⟩⟩ := classify_eq_accept.mp h.classify
  · rw [hinit] at hgenesis
    cases hgenesis
  · have hcount := le_quorumCount_of_authorized hauthorized hinit hpolicy
    simp only [CountsOnce, hpolicy, ApprovalPolicy.approvers, ← hasApproved_iff] at honce
    rw [quorumCount_eq_card honce.1 honce.2] at hcount
    unfold voices
    simpa only [hasApproved_iff] using hcount

/-- What sets the policy of a room lists nobody twice, if no supplied entry does. -/
theorem moves_nodup {roomId : RoomId}
    (hpolicies : ∀ body ∈ fold.entries, ∀ policy, body.action = .setPolicy policy → policy.approvers.Nodup) :
    ∀ v ∈ fold.moves env roomId, v.1.state.policy.approvers.Nodup := by
  refine (passMoves_follows.invariant (P := fun p => p.state.policy.approvers.Nodup) ?_ List.nodup_nil).1
  rintro ⟨p, id, body⟩ hmove p' hstep hp
  have hbody := (OrdMap.mem_of_get?_indexBy (OrdMap.mem_entries.mp (Rounds.mem_of_mem_moves hmove))).1
  obtain ⟨-, -, ⟨-, rfl⟩ | ⟨reason, -, rfl⟩ | ⟨evidence, -, rfl⟩⟩ := visitEntry_cases hstep
  · show (applyAction p.state id body.action).policy.approvers.Nodup
    cases haction : body.action with
    | setPolicy policy => exact hpolicies body hbody policy haction
    | _ => exact hp
  · exact hp
  · exact hp

/-- In a run that can count nobody twice, every entry accepted under an `m_of_n` policy has `m` principals behind it. -/
theorem finish_quorum {outcome : FoldOutcome} (h : fold.finish env = .ok outcome)
    (honce : ∀ v ∈ fold.moves env outcome.roomId, fold.CountsOnce v.1.state v.2.1 v.2.2.author)
    {id : GovernanceEntryId} (hid : .accepted id ∈ outcome.items) :
    (∃ state body, fold.AcceptedIn env outcome.roomId state id body) ∧
    ∀ state body, fold.AcceptedIn env outcome.roomId state id body → body.action.isInitRoom = false →
      ∀ m approvers, state.policy = .mOfN m approvers → m.toNat ≤ (fold.voices id body.author approvers).card := by
  refine ⟨exists_acceptedIn h hid, fun state body haccepted hinit m approvers hpolicy => ?_⟩
  obtain ⟨p, hp, rfl, hclass⟩ := haccepted
  exact AcceptedIn.quorum ⟨p, hp, rfl, hclass⟩ hinit (honce _ hp) hpolicy

end GovernanceFold

namespace Toy

def policy : GovernanceEntryBody := entry 1 2 (some (idOfBody toyEnv genesis)) (.setPolicy (.mOfN 2 [who 1, who 2]))

def third : GovernanceEntryBody := entry 1 3 (some (idOfBody toyEnv policy)) (.addMember (who 3) (.ofNat 3) .member)

/-- The admin's third entry under the policy, approved by `k`. -/
def underPolicy (k : Nat) : GovernanceFold :=
  (((GovernanceFold.new.entry genesis).entry policy).entry third).approval (approve k third)

/-- A decision of the fold that accepts the third entry under the policy. -/
def AcceptsThird (k : Nat) (v : Pass × GovernanceEntryId × GovernanceEntryBody) : Prop :=
  v.2 = (idOfBody toyEnv third, third) ∧ v.1.state.policy = .mOfN 2 [who 1, who 2] ∧
    classify third v.1.state (idOfBody toyEnv third) (underPolicy k).approvalsByEntry = .accept

instance (k : Nat) (v : Pass × GovernanceEntryId × GovernanceEntryBody) : Decidable (AcceptsThird k v) :=
  inferInstanceAs (Decidable (_ ∧ _ ∧ _))

theorem acceptedIn_third {k : Nat} (h : ∃ v ∈ (underPolicy k).moves toyEnv roomId, AcceptsThird k v) :
    ∃ state, (underPolicy k).AcceptedIn toyEnv roomId state (idOfBody toyEnv third) third ∧
      state.policy = .mOfN 2 [who 1, who 2] := by
  obtain ⟨⟨p, e⟩, hp, rfl, hpolicy, hclass⟩ := h
  exact ⟨p.state, ⟨p, hp, rfl, hclass⟩, hpolicy⟩

/-- With the approval of another approver, the entry has both of them behind it. -/
theorem finish_quorum_underPolicy :
    ∃ outcome, (underPolicy 2).finish toyEnv = .ok outcome ∧ .accepted (idOfBody toyEnv third) ∈ outcome.items ∧
      ∃ state, (underPolicy 2).AcceptedIn toyEnv outcome.roomId state (idOfBody toyEnv third) third ∧
        state.policy = .mOfN 2 [who 1, who 2] ∧
        2 ≤ ((underPolicy 2).voices (idOfBody toyEnv third) third.author [who 1, who 2]).card := by
  obtain ⟨hid, honce⟩ : .accepted (idOfBody toyEnv third) ∈ ((underPolicy 2).items toyEnv roomId).values ∧
      ∀ v ∈ (underPolicy 2).moves toyEnv roomId, (underPolicy 2).CountsOnce v.1.state v.2.1 v.2.2.author := by
    decide +kernel
  obtain ⟨state, haccepted, hpolicy⟩ := @acceptedIn_third 2 (by decide +kernel)
  obtain ⟨outcome, hfinish, hroom, hitems⟩ := @GovernanceFold.exists_finish toyEnv (underPolicy 2) roomId rfl
  rw [← hitems] at hid
  rw [← hroom] at honce haccepted
  have hquorum := (GovernanceFold.finish_quorum hfinish honce hid).2 state third haccepted rfl 2 _ hpolicy
  exact ⟨outcome, hfinish, hid, state, haccepted, hpolicy, hquorum⟩

/-- The admin's own approval counts next to its authorship: one principal is a quorum of two. -/
theorem own_approval_counts_twice :
    ∃ outcome, (underPolicy 1).finish toyEnv = .ok outcome ∧ .accepted (idOfBody toyEnv third) ∈ outcome.items ∧
      ∃ state, (underPolicy 1).AcceptedIn toyEnv outcome.roomId state (idOfBody toyEnv third) third ∧
        third.action.isInitRoom = false ∧ state.policy = .mOfN 2 [who 1, who 2] ∧
        ((underPolicy 1).voices (idOfBody toyEnv third) third.author [who 1, who 2]).card = 1 := by
  have hid : .accepted (idOfBody toyEnv third) ∈ ((underPolicy 1).items toyEnv roomId).values := by decide +kernel
  have hvoices : ((underPolicy 1).voices (idOfBody toyEnv third) third.author [who 1, who 2]).card = 1 := by
    decide +kernel
  obtain ⟨state, haccepted, hpolicy⟩ := @acceptedIn_third 1 (by decide +kernel)
  obtain ⟨outcome, hfinish, hroom, hitems⟩ := @GovernanceFold.exists_finish toyEnv (underPolicy 1) roomId rfl
  rw [← hroom] at haccepted
  exact ⟨outcome, hfinish, hitems ▸ hid, state, haccepted, rfl, hpolicy, hvoices⟩

end Toy

end IrohRooms.RoomGovernance
