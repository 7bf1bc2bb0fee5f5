import IrohRooms.RoomGovernance.Authorship

/-!
# The admin's chain

A room whose policy is the admin's alone has one chain, that of the admin. What a pass over its entries can do to the
chain is said once (`TipAt.visit_cases`): it accepts what continues the tip, refuses what names the tip and may not
continue it, and records what stands beside the tip as a fork; as long as a fork is open the tip stays.
-/

namespace IrohRooms.RoomGovernance

open Governance (Id Reject)

/-! ### Positions on the admin's chain -/

/-- An entry of the admin at the position, other than a genesis. -/
def atSeq (admin : MemberId) (seq : UInt64) (e : GovernanceEntryId × GovernanceEntryBody) : Bool :=
  decide (e.2.author = admin ∧ e.2.action.isInitRoom = false ∧ e.2.seq = seq)

/-- An entry of the admin that may come next behind `parent`. -/
def continues (admin : MemberId) (seq : UInt64) (parent : GovernanceEntryId)
    (e : GovernanceEntryId × GovernanceEntryBody) : Bool :=
  atSeq admin seq e && decide (e.2.parent = some parent ∧ e.2.action ≠ .removeMember admin)

section Positions

variable {admin : MemberId} {seq : UInt64} {parent : GovernanceEntryId} {e : GovernanceEntryId × GovernanceEntryBody}

theorem atSeq_iff : atSeq admin seq e = true ↔
    e.2.author = admin ∧ e.2.action.isInitRoom = false ∧ e.2.seq = seq := by
  simp [atSeq]

theorem continues_iff : continues admin seq parent e = true ↔
    atSeq admin seq e = true ∧ e.2.parent = some parent ∧ e.2.action ≠ .removeMember admin := by
  simp [continues]

end Positions

/-! ### One decision -/

section State

variable {state : GovernanceState} {entry : GovernanceEntryBody} {id : GovernanceEntryId}

theorem get?_tips_applyEntry (a : MemberId) : (applyEntry state entry id).tips.get? a =
    if a = entry.author then some (entry.seq, id) else state.tips.get? a := by
  have hsame : (applyAction state id entry.action).tips = state.tips := by
    cases entry.action <;> rfl
  show ((applyAction state id entry.action).tips.insert entry.author (entry.seq, id)).get? a = _
  rw [hsame, OrdMap.get?_insert]

theorem authorSeq_applyEntry (a : MemberId) :
    (applyEntry state entry id).authorSeq a = if a = entry.author then entry.seq else state.authorSeq a := by
  unfold GovernanceState.authorSeq
  rw [get?_tips_applyEntry]
  split_ifs <;> rfl

@[simp] theorem forks_applyEntry : (applyEntry state entry id).forks = state.forks := by
  unfold applyEntry
  cases entry.action <;> rfl

@[simp] theorem roomId_applyEntry : (applyEntry state entry id).roomId = state.roomId := by
  unfold applyEntry
  cases entry.action <;> rfl

theorem policy_applyEntry (h : ∀ policy, entry.action ≠ .setPolicy policy) :
    (applyEntry state entry id).policy = state.policy := by
  unfold applyEntry
  cases haction : entry.action with
  | setPolicy policy => exact absurd haction (h policy)
  | _ => rfl

theorem admin_applyEntry (h : entry.action.isInitRoom = false) : (applyEntry state entry id).admin = state.admin := by
  unfold applyEntry
  cases haction : entry.action with
  | initRoom admin device name =>
    rw [haction] at h
    cases h
  | _ => rfl

theorem forkWithTip_of_tip {n : UInt64} {t : GovernanceEntryId} (h : state.tips.get? entry.author = some (n, t)) :
    forkWithTip state entry id = detect entry.author id entry.seq (some (n, t)) := by
  simp [forkWithTip, GovernanceState.authorTip, GovernanceState.authorSeq, h]

/-- Under the admin's own policy, what is authorized is the admin's, removes nobody essential and meets no open fork. -/
theorem authorize_adminAlone {approvals : List ApprovalBody} (hpolicy : state.policy = .adminAlone)
    (hinit : entry.action.isInitRoom = false) : authorizeGovernanceEntry state entry approvals = .ok () ↔
      state.hasUnresolvedFork entry.author = false ∧ entry.action ≠ .removeMember entry.author ∧
        state.admin = some entry.author := by
  have halone : authorizeAdminOrPolicy state entry.author approvals = .ok () ↔ state.admin = some entry.author := by
    simp [authorizeAdminOrPolicy, hpolicy]
  unfold authorizeGovernanceEntry
  cases state.hasUnresolvedFork entry.author with
  | true => simp
  | false =>
    rw [if_neg Bool.false_ne_true]
    cases haction : entry.action with
    | initRoom admin device name =>
      rw [haction] at hinit
      cases hinit
    | removeMember member =>
      dsimp only
      by_cases hmember : state.admin = some member
      · simp [hmember]
      · rw [if_neg hmember, halone]
        constructor
        · intro hadmin
          refine ⟨rfl, fun heq => ?_, hadmin⟩
          rw [GovernanceAction.removeMember.injEq] at heq
          exact hmember (heq ▸ hadmin)
        · exact fun h => h.2.2
    | _ => simp [halone]

/-- Behind a genesis, what is not one is compared with its author's tip, then linked to it, then authorized. -/
theorem classify_chained {approvalsByEntry : OrdMap GovernanceEntryId (List ApprovalBody)} {n : UInt64}
    {t : GovernanceEntryId} (hroom : entry.roomId = state.roomId) (hadmin : state.admin ≠ none)
    (hinit : entry.action.isInitRoom = false) (htip : state.tips.get? entry.author = some (n, t)) :
    classify entry state id approvalsByEntry =
      if n = entry.seq ∧ t ≠ id then .fork ⟨entry.author, (min t id, max t id), entry.seq, false⟩
      else if entry.seq ≠ n + 1 then .wait
      else if entry.parent ≠ some t then .wait
      else .ofResult (authorizeGovernanceEntry state entry (approvalsFor approvalsByEntry id)) := by
  unfold classify
  rw [if_neg (not_not.mpr hroom), if_neg hadmin, if_neg (by simp [hinit]), forkWithTip_of_tip htip]
  have hseq : state.authorSeq entry.author = n := by simp [GovernanceState.authorSeq, htip]
  have hparent : state.authorTip entry.author = some t := by simp [GovernanceState.authorTip, htip]
  rw [hseq, hparent]
  unfold detect
  by_cases hfork : n = entry.seq ∧ t ≠ id
  · rw [if_pos hfork]
    simp [hfork]
  · rw [if_neg hfork]
    have hnone : n ≠ entry.seq ∨ t = id := by
      by_contra hboth
      simp only [not_or, not_not] at hboth
      exact hfork hboth
    simp only [if_pos hnone]

/-- What is decided, and is no genesis, stands at its author's tip or next to it. -/
theorem seq_of_classify {approvalsByEntry : OrdMap GovernanceEntryId (List ApprovalBody)}
    (hroom : entry.roomId = state.roomId) (hinit : entry.action.isInitRoom = false)
    (h : classify entry state id approvalsByEntry ≠ .wait) :
    entry.seq = state.authorSeq entry.author ∨ entry.seq = state.authorSeq entry.author + 1 := by
  have hadmin : state.admin ≠ none := by
    intro hnone
    apply h
    unfold classify
    rw [if_neg (not_not.mpr hroom), if_pos hnone, if_pos hinit]
  cases htip : state.tips.get? entry.author with
  | none =>
    right
    by_contra hseq
    apply h
    unfold classify
    rw [if_neg (not_not.mpr hroom), if_neg hadmin, if_neg (by simp [hinit])]
    have hnone : forkWithTip state entry id = none := by simp [forkWithTip, GovernanceState.authorTip, htip]
    rw [hnone]
    exact if_pos hseq
  | some tip =>
    obtain ⟨n, t⟩ := tip
    have hn : state.authorSeq entry.author = n := by simp [GovernanceState.authorSeq, htip]
    rw [hn]
    rw [classify_chained hroom hadmin hinit htip] at h
    by_contra hneither
    simp only [not_or] at hneither
    rw [if_neg fun hfork => hneither.1 hfork.1.symm, if_pos hneither.2] at h
    exact h rfl

/-- A fork is one with the author's tip. -/
theorem tip_of_fork {approvalsByEntry : OrdMap GovernanceEntryId (List ApprovalBody)} {evidence : ForkEvidence}
    (h : classify entry state id approvalsByEntry = .fork evidence) :
    entry.action.isInitRoom = false ∧ evidence.author = entry.author ∧ evidence.seq = entry.seq ∧
      evidence.resolved = false ∧ ∃ t, state.tips.get? entry.author = some (entry.seq, t) := by
  have hresult : ∀ result : Except Reject Unit, Class.ofResult result ≠ .fork evidence := by
    intro result
    cases result <;> simp [Class.ofResult]
  unfold classify at h
  by_cases hroom : entry.roomId = state.roomId
  · rw [if_neg (not_not.mpr hroom)] at h
    by_cases hadmin : state.admin = none
    · rw [if_pos hadmin] at h
      split_ifs at h
      exact absurd h (hresult _)
    · rw [if_neg hadmin] at h
      cases hinit : entry.action.isInitRoom with
      | true =>
        rw [if_pos hinit] at h
        cases h
      | false =>
        rw [if_neg (by simp [hinit])] at h
        cases hfork : forkWithTip state entry id with
        | none =>
          rw [hfork] at h
          dsimp only at h
          split_ifs at h
          exact absurd h (hresult _)
        | some found =>
          rw [hfork] at h
          obtain rfl := Class.fork.inj h
          cases htip : state.tips.get? entry.author with
          | none => simp [forkWithTip, GovernanceState.authorTip, htip] at hfork
          | some tip =>
            obtain ⟨n, t⟩ := tip
            rw [forkWithTip_of_tip htip] at hfork
            unfold detect at hfork
            dsimp only at hfork
            split_ifs at hfork with hnone
            obtain rfl := Option.some.inj hfork
            simp only [not_or, not_not] at hnone
            exact ⟨rfl, rfl, rfl, rfl, t, by rw [hnone.1]⟩
  · rw [if_pos hroom] at h
    cases h

end State

section Pass

variable {approvalsByEntry : OrdMap GovernanceEntryId (List ApprovalBody)} {roomId : RoomId}
variable {entriesById : OrdMap GovernanceEntryId GovernanceEntryBody}

/-- Decide one entry, with nothing dropped. -/
def visit (approvalsByEntry : OrdMap GovernanceEntryId (List ApprovalBody)) :
    Pass → GovernanceEntryId × GovernanceEntryBody → Option Pass :=
  visitEntry approvalsByEntry OrdMap.empty

/-- How many entries are not decided yet. -/
def undecided (entriesById : OrdMap GovernanceEntryId GovernanceEntryBody) (p : Pass) : Nat :=
  (entriesById.entries.filter fun e => !p.items.contains e.1).length

theorem exists_visit {p : Pass} {e : GovernanceEntryId × GovernanceEntryBody} (hopen : p.items.get? e.1 = none)
    (hclass : classify e.2 p.state e.1 approvalsByEntry ≠ .wait) : ∃ p', visit approvalsByEntry p e = some p' := by
  unfold visit visitEntry
  rw [if_neg (by simp [OrdMap.contains, hopen])]
  cases h : classify e.2 p.state e.1 approvalsByEntry with
  | wait => exact absurd h hclass
  | _ => exact ⟨_, rfl⟩

/-- Every decision leaves one entry less to decide. -/
theorem undecided_lt {p p' : Pass} {e : GovernanceEntryId × GovernanceEntryBody} (he : e ∈ entriesById.entries)
    (h : visit approvalsByEntry p e = some p') : undecided entriesById p' < undecided entriesById p := by
  obtain ⟨hopen, -, -⟩ := visitEntry_cases h
  obtain ⟨item, hitems, -⟩ := visitEntry_items h
  unfold undecided
  have hsub : (entriesById.entries.filter fun b => !p'.items.contains b.1) =
      (entriesById.entries.filter fun b => !p.items.contains b.1).filter fun b => decide (b.1 ≠ e.1) := by
    rw [List.filter_filter]
    refine List.filter_congr fun b _ => ?_
    simp only [OrdMap.contains, hitems, OrdMap.get?_insert]
    split_ifs with hb <;> simp [hb]
  rw [hsub, List.length_filter_lt_length_iff_exists]
  exact ⟨e, List.mem_filter.mpr ⟨he, by simp [OrdMap.contains, hopen]⟩, by simp⟩

/-- Entries of one room that leave the policy to the admin, no more of them than a vector can hold. -/
structure OneRoom (entriesById : OrdMap GovernanceEntryId GovernanceEntryBody) (roomId : RoomId) : Prop where
  room : ∀ id body, entriesById.get? id = some body → body.roomId = roomId
  policy : ∀ id body, entriesById.get? id = some body → ∀ policy, body.action ≠ .setPolicy policy
  fits : entriesById.entries.length < 2 ^ 64

/-- The state of a pass over such entries: one chain, the admin's, with every fork at its tip. -/
structure OneChain (entriesById : OrdMap GovernanceEntryId GovernanceEntryBody) (roomId : RoomId) (p : Pass) :
    Prop where
  room : p.state.roomId = roomId
  policy : p.state.policy = .adminAlone
  tips : ∀ a tip, p.state.tips.get? a = some tip → p.state.admin = some a
  founded : ∀ a, p.state.admin = some a → ∃ tip, p.state.tips.get? a = some tip
  forks : ∀ f ∈ p.state.forks, f.resolved = false ∧ p.state.admin = some f.author ∧
    f.seq = p.state.authorSeq f.author
  decided : ∀ id item body, p.items.get? id = some item → entriesById.get? id = some body →
    body.action.isInitRoom = false → body.seq.toNat ≤ (p.state.authorSeq body.author).toNat + 1
  accepted : ∀ k id, p.items.get? k = some (.accepted id) → k = id ∧ ∀ body, entriesById.get? k = some body →
    body.seq.toNat ≤ (p.state.authorSeq body.author).toNat
  bound : ∀ a, (p.state.authorSeq a).toNat + undecided entriesById p ≤ entriesById.entries.length

namespace OneChain

variable {p p' : Pass} {e : GovernanceEntryId × GovernanceEntryBody}

theorem start : OneChain entriesById roomId (.start roomId) where
  room := rfl
  policy := rfl
  tips := by simp [Pass.start, GovernanceState.empty]
  founded := by simp [Pass.start, GovernanceState.empty]
  forks := by simp [Pass.start, GovernanceState.empty]
  decided := by simp [Pass.start]
  accepted := by simp [Pass.start]
  bound a := by
    have hzero : ((Pass.start roomId).state.authorSeq a).toNat = 0 := rfl
    rw [hzero, Nat.zero_add]
    exact List.length_filter_le _ _

/-- Where a fork is open, the admin can add nothing. -/
theorem hasUnresolvedFork_iff (h : OneChain entriesById roomId p) {admin : MemberId}
    (hadmin : p.state.admin = some admin) : p.state.hasUnresolvedFork admin = false ↔ p.state.forks = [] := by
  unfold GovernanceState.hasUnresolvedFork
  rw [List.any_eq_false, List.eq_nil_iff_forall_not_mem]
  refine forall_congr' fun f => ?_
  constructor
  · intro hfork hf
    obtain ⟨hopen, hauthor, -⟩ := h.forks f hf
    rw [hadmin] at hauthor
    exact hfork hf (by simp [hopen, Option.some.inj hauthor])
  · exact fun hno hf => absurd hf hno

/-- What an acceptance finds: the next position of its author, who is or becomes the admin, and no fork. -/
theorem of_accept (hone : OneRoom entriesById roomId) (h : OneChain entriesById roomId p)
    (hclass : classify e.2 p.state e.1 approvalsByEntry = .accept) (hpos : 0 < undecided entriesById p) :
    e.2.seq.toNat = (p.state.authorSeq e.2.author).toNat + 1 ∧ p.state.forks = [] ∧
      (applyEntry p.state e.2 e.1).admin = some e.2.author ∧
      ∀ a, a ≠ e.2.author → p.state.tips.get? a = none := by
  obtain ⟨-, ⟨hadmin, hinit, hseq, -, hauthorized⟩ | ⟨hadmin, hinit, -, hseq, -, hauthorized⟩⟩ :=
    classify_eq_accept.mp hclass
  · have hnone : ∀ a, p.state.tips.get? a = none := by
      intro a
      by_contra hsome
      obtain ⟨tip, htip⟩ := Option.ne_none_iff_exists'.mp hsome
      have hset := h.tips a tip htip
      rw [hadmin] at hset
      cases hset
    have hzero : p.state.authorSeq e.2.author = 0 := by
      unfold GovernanceState.authorSeq
      rw [hnone]
      rfl
    refine ⟨by rw [hseq, hzero]; rfl, ?_, ?_, fun a _ => hnone a⟩
    · rw [List.eq_nil_iff_forall_not_mem]
      intro f hf
      have hset := (h.forks f hf).2.1
      rw [hadmin] at hset
      cases hset
    · unfold authorizeGovernanceEntry at hauthorized
      split_ifs at hauthorized
      cases haction : e.2.action with
      | initRoom admin device name =>
        rw [haction] at hauthorized
        dsimp only at hauthorized
        split_ifs at hauthorized with hauthor
        unfold applyEntry
        rw [haction]
        exact congrArg some (not_not.mp hauthor)
      | _ =>
        rw [haction] at hinit
        cases hinit
  · obtain ⟨hopen, -, hauthor⟩ := (authorize_adminAlone h.policy hinit).mp hauthorized
    have hbound := h.bound e.2.author
    have hfits := hone.fits
    refine ⟨?_, (h.hasUnresolvedFork_iff hauthor).mp hopen, by rw [admin_applyEntry hinit, hauthor], fun a ha => ?_⟩
    · have hle : (p.state.authorSeq e.2.author).toNat + 1 < 2 ^ 64 := by omega
      rw [hseq, UInt64.toNat_add]
      exact Nat.mod_eq_of_lt hle
    · by_contra hsome
      obtain ⟨tip, htip⟩ := Option.ne_none_iff_exists'.mp hsome
      have hother := h.tips a tip htip
      rw [hauthor] at hother
      exact ha (Option.some.inj hother).symm

/-- A refusal leaves the chain where it is. -/
theorem refuse (hone : OneRoom entriesById roomId) (h : OneChain entriesById roomId p)
    (he : entriesById.get? e.1 = some e.2) (hclass : classify e.2 p.state e.1 approvalsByEntry ≠ .wait)
    {reason : Reject} {forks : List ForkEvidence}
    (hforks : ∀ f ∈ forks, f.resolved = false ∧ p.state.admin = some f.author ∧ f.seq = p.state.authorSeq f.author)
    (hlt : undecided entriesById ⟨{ p.state with forks := forks }, p.items.insert e.1 (.rejected e.1 reason)⟩ <
      undecided entriesById p) :
    OneChain entriesById roomId ⟨{ p.state with forks := forks }, p.items.insert e.1 (.rejected e.1 reason)⟩ := by
  have hkept : ∀ {k : GovernanceEntryId} {item : FoldItem}, (p.items.insert e.1 (.rejected e.1 reason)).get? k =
      some item → k = e.1 ∧ item = .rejected e.1 reason ∨ p.items.get? k = some item := by
    intro k item hitem
    rw [OrdMap.get?_insert] at hitem
    split_ifs at hitem with hk
    · exact .inl ⟨hk, (Option.some.inj hitem).symm⟩
    · exact .inr hitem
  refine ⟨h.room, h.policy, h.tips, h.founded, hforks, ?_, ?_, fun a => ?_⟩
  · intro id item body hitem hbody hinit
    show body.seq.toNat ≤ (p.state.authorSeq body.author).toNat + 1
    rcases hkept hitem with ⟨rfl, -⟩ | hitem
    · obtain rfl := Option.some.inj (he.symm.trans hbody)
      have hroom := (hone.room e.1 e.2 he).trans h.room.symm
      rcases seq_of_classify hroom hinit hclass with hseq | hseq
      · rw [hseq]
        exact Nat.le_succ _
      · rw [hseq, UInt64.toNat_add]
        exact Nat.mod_le _ _
    · exact h.decided id item body hitem hbody hinit
  · intro k id hitem
    rcases hkept hitem with ⟨-, hitem⟩ | hitem
    · cases hitem
    · exact h.accepted k id hitem
  · exact Nat.le_trans (Nat.add_le_add_left (Nat.le_of_lt hlt) _) (h.bound a)

/-- The state of a pass stays on one chain. -/
theorem step (hone : OneRoom entriesById roomId) (h : OneChain entriesById roomId p)
    (he : entriesById.get? e.1 = some e.2) (hvisit : visit approvalsByEntry p e = some p') :
    OneChain entriesById roomId p' := by
  have hlt := undecided_lt (OrdMap.mem_entries.mpr he) hvisit
  obtain ⟨hopen, -, ⟨hclass, rfl⟩ | ⟨reason, hclass, rfl⟩ | ⟨evidence, hclass, rfl⟩⟩ := visitEntry_cases hvisit
  · obtain ⟨hseq, hforks, hadmin, hother⟩ := h.of_accept hone hclass (by omega)
    have hmono : ∀ a, (p.state.authorSeq a).toNat ≤ ((applyEntry p.state e.2 e.1).authorSeq a).toNat := by
      intro a
      rw [authorSeq_applyEntry]
      split_ifs with ha
      · rw [ha]
        omega
      · exact Nat.le_refl _
    have hself : (applyEntry p.state e.2 e.1).authorSeq e.2.author = e.2.seq := by
      rw [authorSeq_applyEntry, if_pos rfl]
    constructor
    · simp [h.room]
    · rw [policy_applyEntry (hone.policy e.1 e.2 he), h.policy]
    · intro a tip htip
      rw [get?_tips_applyEntry] at htip
      split_ifs at htip with ha
      · rw [ha, hadmin]
      · rw [hother a ha] at htip
        cases htip
    · intro a ha
      rw [hadmin] at ha
      obtain rfl := Option.some.inj ha
      exact ⟨_, by rw [get?_tips_applyEntry, if_pos rfl]⟩
    · simp [hforks]
    · intro id item body hitem hbody hinit
      rw [OrdMap.get?_insert] at hitem
      split_ifs at hitem with hid
      · subst hid
        obtain rfl := Option.some.inj (he.symm.trans hbody)
        dsimp only
        rw [hself]
        omega
      · exact Nat.le_trans (h.decided id item body hitem hbody hinit) (Nat.succ_le_succ (hmono body.author))
    · intro k id hitem
      rw [OrdMap.get?_insert] at hitem
      split_ifs at hitem with hid
      · subst hid
        refine ⟨by simpa using hitem, fun body hbody => ?_⟩
        obtain rfl := Option.some.inj (he.symm.trans hbody)
        dsimp only
        rw [hself]
      · obtain ⟨hkey, hle⟩ := h.accepted k id hitem
        exact ⟨hkey, fun body hbody => Nat.le_trans (hle body hbody) (hmono body.author)⟩
    · intro a
      have hbound := h.bound a
      dsimp only
      rw [authorSeq_applyEntry]
      split_ifs with ha
      · rw [ha] at hbound
        omega
      · omega
  · have hdecided : classify e.2 p.state e.1 approvalsByEntry ≠ .wait := by simp [hclass]
    exact h.refuse hone he hdecided h.forks hlt
  · have hdecided : classify e.2 p.state e.1 approvalsByEntry ≠ .wait := by simp [hclass]
    refine h.refuse hone he hdecided (fun f hf => ?_) hlt
    rcases List.mem_append.mp hf with hf | hf
    · exact h.forks f hf
    · obtain rfl := List.mem_singleton.mp hf
      obtain ⟨-, hauthor, hseq, hopen, t, htip⟩ := tip_of_fork hclass
      refine ⟨hopen, ?_, ?_⟩
      · rw [hauthor]
        exact h.tips _ _ htip
      · rw [hauthor, hseq, GovernanceState.authorSeq, htip]
        rfl

end OneChain

/-! ### One step at a tip -/

/-- The admin's chain ends at the given position in the given entry. -/
structure TipAt (entriesById : OrdMap GovernanceEntryId GovernanceEntryBody) (roomId : RoomId) (admin : MemberId)
    (n : UInt64) (t : GovernanceEntryId) (p : Pass) : Prop where
  chain : OneChain entriesById roomId p
  holder : p.state.admin = some admin
  tip : p.state.tips.get? admin = some (n, t)

namespace TipAt

variable {admin : MemberId} {n : UInt64} {t : GovernanceEntryId} {p p' : Pass}
variable {e : GovernanceEntryId × GovernanceEntryBody}

theorem classify_eq (hone : OneRoom entriesById roomId) (h : TipAt entriesById roomId admin n t p)
    (he : entriesById.get? e.1 = some e.2) {seq : UInt64} (hat : atSeq admin seq e = true) :
    classify e.2 p.state e.1 approvalsByEntry =
      if n = e.2.seq ∧ t ≠ e.1 then .fork ⟨e.2.author, (min t e.1, max t e.1), e.2.seq, false⟩
      else if e.2.seq ≠ n + 1 then .wait
      else if e.2.parent ≠ some t then .wait
      else .ofResult (authorizeGovernanceEntry p.state e.2 (approvalsFor approvalsByEntry e.1)) := by
  obtain ⟨hauthor, hinit, -⟩ := atSeq_iff.mp hat
  refine classify_chained ((hone.room e.1 e.2 he).trans h.chain.room.symm) (by simp [h.holder]) hinit ?_
  rw [hauthor]
  exact h.tip

theorem authorSeq_eq (h : TipAt entriesById roomId admin n t p) : p.state.authorSeq admin = n := by
  simp [GovernanceState.authorSeq, h.tip]

/-- While an entry is open there is room for another position. -/
theorem lt_of_open (hone : OneRoom entriesById roomId) (h : TipAt entriesById roomId admin n t p)
    (he : e ∈ entriesById.entries) (hopen : p.items.get? e.1 = none) : n.toNat + 1 < 2 ^ 64 := by
  have hpos : 0 < undecided entriesById p :=
    List.length_pos_of_mem (List.mem_filter.mpr ⟨he, by simp [OrdMap.contains, hopen]⟩)
  have hbound := h.chain.bound admin
  rw [h.authorSeq_eq] at hbound
  have hfits := hone.fits
  omega

/-- An undecided entry at the tip's own position is decided when its turn comes. -/
theorem exists_visit_at (hone : OneRoom entriesById roomId) (h : TipAt entriesById roomId admin n t p)
    (he : entriesById.get? e.1 = some e.2) (hopen : p.items.get? e.1 = none) (hat : atSeq admin n e = true)
    (hne : e.1 ≠ t) : ∃ p', visit approvalsByEntry p e = some p' := by
  refine exists_visit hopen ?_
  rw [h.classify_eq hone he hat, if_pos ⟨(atSeq_iff.mp hat).2.2.symm, hne.symm⟩]
  simp

/-- An undecided entry that names the tip is decided when its turn comes. -/
theorem exists_visit_next (hone : OneRoom entriesById roomId) (h : TipAt entriesById roomId admin n t p)
    (he : entriesById.get? e.1 = some e.2) (hopen : p.items.get? e.1 = none) (hat : atSeq admin (n + 1) e = true)
    (hparent : e.2.parent = some t) : ∃ p', visit approvalsByEntry p e = some p' := by
  refine exists_visit hopen ?_
  have hseq := (atSeq_iff.mp hat).2.2
  rw [h.classify_eq hone he hat, if_neg (by simp [hseq]), if_neg (not_not.mpr hseq), if_neg (not_not.mpr hparent)]
  cases authorizeGovernanceEntry p.state e.2 (approvalsFor approvalsByEntry e.1) <;> simp [Class.ofResult]

/-- What one decision can do to the admin's chain. -/
theorem visit_cases (hone : OneRoom entriesById roomId) (h : TipAt entriesById roomId admin n t p)
    (he : entriesById.get? e.1 = some e.2) (hvisit : visit approvalsByEntry p e = some p') :
    p.items.get? e.1 = none ∧ (∃ item, p'.items = p.items.insert e.1 item) ∧
      ((continues admin (n + 1) t e = true ∧ (n + 1).toNat = n.toNat + 1 ∧ p.state.forks = [] ∧
          p'.state.forks = [] ∧ TipAt entriesById roomId admin (n + 1) e.1 p') ∨
        (TipAt entriesById roomId admin n t p' ∧ p'.state.forks = p.state.forks ∧
          ∀ seq, atSeq admin seq e = true → seq = n + 1 ∧ e.2.parent = some t ∧
            (e.2.action = .removeMember admin ∨ p.state.forks ≠ [])) ∨
        (TipAt entriesById roomId admin n t p' ∧ atSeq admin n e = true ∧ ∃ f : ForkEvidence, f.author = admin ∧ f.seq = n ∧
          p'.state.forks = p.state.forks ++ [f])) := by
  have hchain := h.chain.step hone he hvisit
  have hpos : 0 < undecided entriesById p := Nat.zero_lt_of_lt (undecided_lt (OrdMap.mem_entries.mpr he) hvisit)
  obtain ⟨hopen, -, ⟨hclass, rfl⟩ | ⟨reason, hclass, rfl⟩ | ⟨evidence, hclass, rfl⟩⟩ := visitEntry_cases hvisit
  · refine ⟨hopen, ⟨_, rfl⟩, .inl ?_⟩
    obtain ⟨hnext, hforks, hadmin, -⟩ := h.chain.of_accept hone hclass hpos
    obtain ⟨-, ⟨hnone, -⟩ | ⟨-, hinit, -, hseq, hparent, hauthorized⟩⟩ := classify_eq_accept.mp hclass
    · rw [h.holder] at hnone
      cases hnone
    · obtain ⟨-, hremoves, hauthor⟩ := (authorize_adminAlone h.chain.policy hinit).mp hauthorized
      obtain rfl : admin = e.2.author := Option.some.inj (h.holder.symm.trans hauthor)
      have hn := h.authorSeq_eq
      have ht : p.state.authorTip e.2.author = some t := by simp [GovernanceState.authorTip, h.tip]
      rw [hn] at hseq hnext
      rw [ht] at hparent
      refine ⟨continues_iff.mpr ⟨atSeq_iff.mpr ⟨rfl, hinit, hseq⟩, hparent, hremoves⟩, ?_, hforks, by simp [hforks],
        hchain, hadmin, ?_⟩
      · rw [← hseq, hnext]
      · rw [← hseq]
        exact (get?_tips_applyEntry _).trans (if_pos rfl)
  · refine ⟨hopen, ⟨_, rfl⟩, .inr (.inl ⟨⟨hchain, h.holder, h.tip⟩, rfl, fun seq hat => ?_⟩)⟩
    obtain ⟨hauthor, hinit, hseq⟩ := atSeq_iff.mp hat
    rw [h.classify_eq hone he hat] at hclass
    split_ifs at hclass with hfork hnext hparent
    rw [not_not] at hnext hparent
    refine ⟨hseq.symm.trans hnext, hparent, ?_⟩
    by_contra hneither
    simp only [not_or, not_not] at hneither
    have hok : authorizeGovernanceEntry p.state e.2 (approvalsFor approvalsByEntry e.1) = .ok () := by
      refine (authorize_adminAlone h.chain.policy hinit).mpr ?_
      rw [hauthor]
      exact ⟨(h.chain.hasUnresolvedFork_iff h.holder).mpr hneither.2, hneither.1, h.holder⟩
    rw [hok] at hclass
    cases hclass
  · obtain ⟨hinit, hauthor, hseq, -, t', htip⟩ := tip_of_fork hclass
    obtain rfl : admin = e.2.author := Option.some.inj (h.holder.symm.trans (h.chain.tips _ _ htip))
    obtain ⟨rfl, -⟩ := Prod.mk.inj (Option.some.inj (h.tip.symm.trans htip))
    exact ⟨hopen, ⟨_, rfl⟩, .inr (.inr ⟨⟨hchain, h.holder, h.tip⟩, atSeq_iff.mpr ⟨rfl, hinit, rfl⟩, evidence, hauthor,
      hseq, rfl⟩)⟩

/-- The chain only grows. -/
theorem step (hone : OneRoom entriesById roomId) (h : TipAt entriesById roomId admin n t p)
    (he : entriesById.get? e.1 = some e.2) (hvisit : visit approvalsByEntry p e = some p') :
    ∃ n' t', n.toNat ≤ n'.toNat ∧ TipAt entriesById roomId admin n' t' p' := by
  obtain ⟨-, -, ⟨-, hnext, -, -, htip⟩ | ⟨htip, -⟩ | ⟨htip, -⟩⟩ := h.visit_cases hone he hvisit
  · exact ⟨n + 1, e.1, by omega, htip⟩
  · exact ⟨n, t, Nat.le_refl _, htip⟩
  · exact ⟨n, t, Nat.le_refl _, htip⟩

end TipAt

theorem decided_of_visit {p p' : Pass} {e : GovernanceEntryId × GovernanceEntryBody} {k : GovernanceEntryId}
    (hvisit : visit approvalsByEntry p e = some p') (hk : p.items.get? k ≠ none) : p'.items.get? k ≠ none := by
  obtain ⟨item, hitems, -⟩ := visitEntry_items hvisit
  rw [hitems, OrdMap.get?_insert]
  split_ifs
  · simp
  · exact hk

theorem mem_forks_of_visit {p p' : Pass} {e : GovernanceEntryId × GovernanceEntryBody} {f : ForkEvidence}
    (hvisit : visit approvalsByEntry p e = some p') (hf : f ∈ p.state.forks) : f ∈ p'.state.forks := by
  obtain ⟨-, -, ⟨-, rfl⟩ | ⟨reason, -, rfl⟩ | ⟨evidence, -, rfl⟩⟩ := visitEntry_cases hvisit
  · simpa using hf
  · exact hf
  · exact List.mem_append_left _ hf

end Pass

end IrohRooms.RoomGovernance
