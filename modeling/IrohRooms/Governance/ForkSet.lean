import IrohRooms.Lib.Grouping
import IrohRooms.Governance.Exactness

/-!
# Forks in a set of candidates

The two pure fork predicates over validated candidates. The set form indexes its candidates by entry id, groups them
by community and by sequence number, and builds evidence at the lowest contested sequence number. An id commits to the
body of its entry but not to the signatures around it, and the index keeps the candidate that came last: the evidence
is the same in every order exactly when the candidates of one id at the contested position carry the same evidence
(`detectGovernanceForks_perm_iff`).
-/

namespace IrohRooms.Governance

namespace ValidatedGovernanceCandidate

def entryId (c : ValidatedGovernanceCandidate) : GovernanceId := c.evidence.id

def communityId (c : ValidatedGovernanceCandidate) : CommunityId := c.evidence.body.communityId

def seq (c : ValidatedGovernanceCandidate) : UInt64 := c.evidence.body.seq

def prev (c : ValidatedGovernanceCandidate) : Option GovernanceId := c.evidence.body.prev

def resultingStateRoot (c : ValidatedGovernanceCandidate) : StateRoot := c.resulting.committedStateRoot

end ValidatedGovernanceCandidate

def branchFromCandidate (c : ValidatedGovernanceCandidate) : GovernanceBranchEvidence :=
  ⟨c.entryId, c.seq, c.prev, c.resultingStateRoot, c.evidence⟩

/-- The shared predecessor; candidates with different ones cannot prove a deeper ancestor. -/
def commonAncestorFromCandidates (left right : ValidatedGovernanceCandidate) : Option (GovernanceTip × StateRoot) :=
  if left.predecessor.tip = right.predecessor.tip then
    some (left.predecessor.tip, left.predecessor.committedStateRoot)
  else none

/-- Stable sort by head. -/
def sortBranches (branches : List GovernanceBranchEvidence) : List GovernanceBranchEvidence :=
  branches.insertionSort fun a b => a.head ≤ b.head

def detectGovernanceFork (left right : ValidatedGovernanceCandidate) : Option GovernanceForkEvidence := do
  if left.communityId ≠ right.communityId then none
  else if left.entryId = right.entryId then none
  else if left.seq ≠ right.seq then none
  else
    let (stableTip, stableStateRoot) ← commonAncestorFromCandidates left right
    pure ⟨left.communityId, stableTip, stableStateRoot,
      sortBranches [branchFromCandidate left, branchFromCandidate right]⟩

/-- The evidence of the candidates at one sequence number; fewer than two are no conflict. -/
def forkAtSeq (communityId : CommunityId) :
    List ValidatedGovernanceCandidate → Option (Except Reject GovernanceForkEvidence)
  | first :: second :: rest =>
    let seqGroup := first :: second :: rest
    let branches := sortBranches (seqGroup.map branchFromCandidate)
    if seqGroup.all (fun c => decide (c.predecessor.tip = first.predecessor.tip)) = false then
      some (.error .missingDependency)
    else match commonAncestorFromCandidates first second with
      | some (stableTip, stableStateRoot) => some (.ok ⟨communityId, stableTip, stableStateRoot, branches⟩)
      | none => some (.error .missingDependency)
  | _ => none

def forkInCommunity : List ValidatedGovernanceCandidate → Option (Except Reject GovernanceForkEvidence)
  | first :: second :: rest =>
    let group := first :: second :: rest
    (OrdMap.groupBy (fun c => c.seq.toNat) group).values.findSome? (forkAtSeq first.communityId)
  | _ => none

def detectGovernanceForks (candidates : List ValidatedGovernanceCandidate) :
    Except Reject (Option GovernanceForkEvidence) :=
  let byId := OrdMap.indexBy (fun c => c.entryId) candidates
  if byId.keys.length < 2 then .ok none
  else match (OrdMap.groupBy (fun c => c.communityId) byId.values).values.findSome? forkInCommunity with
    | none => .ok none
    | some result => result.map some

/-! ### Candidates of one community -/

section Sets

variable {env : Env} {E : Set (VerifiedGovernanceEntry env)} {genesis s : ValidatedGovernanceState}
variable {c d : ValidatedGovernanceCandidate} {L L' : List ValidatedGovernanceCandidate} {n : Nat}

/-- A snapshot of the community of `genesis`: the genesis itself, or a state that an entry committed to. -/
structure Snapshot (E : Set (VerifiedGovernanceEntry env)) (genesis s : ValidatedGovernanceState) : Prop where
  wellFormed : s.WellFormed env
  community : s.state.communityId = genesis.state.communityId
  origin : s = genesis ∨ ∃ e ∈ E, s.tip = .entry e.body.seq e.id ∧ s.committedStateRoot = e.body.stateRoot

/-- A candidate that authorization built over a snapshot of the community. -/
def ForkCandidate (E : Set (VerifiedGovernanceEntry env)) (genesis : ValidatedGovernanceState)
    (c : ValidatedGovernanceCandidate) : Prop :=
  ∃ prev, Snapshot E genesis prev ∧ ∃ e ∈ E, validateCandidate prev e = .ok c

theorem snapshot_genesis {config : GenesisConfig} {signatures : List GenesisSignature}
    (hg : validatedGenesisState env config signatures = .ok genesis) : Snapshot E genesis genesis :=
  ⟨(validatedGenesisState_eq_ok hg).2, rfl, .inl rfl⟩

/-- What a candidate leads to is a snapshot again. -/
theorem ForkCandidate.resulting (h : ForkCandidate E genesis c) : Snapshot E genesis c.resulting := by
  obtain ⟨prev, hprev, e, he, hc⟩ := h
  obtain ⟨next, hauth, rfl⟩ := (validateCandidate_eq_ok hprev.wellFormed).mp hc
  refine ⟨⟨hauth.root.symm, ?_, ?_⟩, ?_, .inr ⟨e, he, rfl, rfl⟩⟩
  · intro seq id htip
    rw [← (GovernanceTip.entry.inj htip).1]
    exact e.verified.body.seq
  · show next.acceptedSeq.toNat = e.body.seq.toNat
    rw [applyEntry_acceptedSeq hauth.apply]
  · show next.communityId = _
    rw [applyEntry_communityId hauth.apply, hprev.community]

/-- So are the snapshots of a sound lineage, resolutions included. -/
theorem GovernanceLineage.Sound.snapshot {lineage : GovernanceLineage} (h : lineage.Sound env)
    (hE : ∀ e : VerifiedGovernanceEntry env, (lineage.get e.id).isSome → e ∈ E) {id : GovernanceId} {node : LineageNode}
    (hnode : lineage.get id = some node) : Snapshot E lineage.genesis node.state := by
  have hs := h.nodes id node hnode
  refine ⟨hs.wellFormed, hs.community, .inr ⟨⟨node.evidence, hs.verified⟩, ?_, ?_, hs.declared⟩⟩
  · apply hE
    show (lineage.get node.evidence.id).isSome
    rw [hs.entry, hnode]
    rfl
  · rw [hs.tip, hs.seq]
    exact congrArg _ hs.entry.symm

namespace ForkCandidate

theorem community (h : ForkCandidate E genesis c) : c.communityId = genesis.state.communityId := by
  obtain ⟨prev, hprev, e, -, hc⟩ := h
  obtain ⟨next, hauth, rfl⟩ := (validateCandidate_eq_ok hprev.wellFormed).mp hc
  exact hauth.community.trans hprev.community

/-- The tip that a candidate extends is the one its entry declares. -/
theorem tip (h : ForkCandidate E genesis c) :
    c.seq.toNat = c.predecessor.tip.seqNum + 1 ∧ c.prev = c.predecessor.tip.id? := by
  obtain ⟨prev, hprev, e, -, hc⟩ := h
  obtain ⟨next, hauth, rfl⟩ := (validateCandidate_eq_ok hprev.wellFormed).mp hc
  exact ⟨hauth.seq, hauth.back⟩

theorem tip_eq_iff (hc : ForkCandidate E genesis c) (hd : ForkCandidate E genesis d)
    (hseq : c.seq.toNat = d.seq.toNat) : c.predecessor.tip = d.predecessor.tip ↔ c.prev = d.prev := by
  obtain ⟨hcs, hcp⟩ := hc.tip
  obtain ⟨hds, hdp⟩ := hd.tip
  rw [hcp, hdp]
  refine ⟨fun h => by rw [h], fun h => ?_⟩
  rcases htc : c.predecessor.tip with _ | ⟨s, i⟩ <;> rcases htd : d.predecessor.tip with _ | ⟨s', i'⟩
  · rfl
  · rw [htc, htd] at h
    cases h
  · rw [htc, htd] at h
    cases h
  · rw [htc, htd, GovernanceTip.id?, GovernanceTip.id?, Option.some_inj] at h
    rw [htc, GovernanceTip.seqNum] at hcs
    rw [htd, GovernanceTip.seqNum] at hds
    have hss : s = s' := UInt64.toNat_inj.mp (by omega)
    rw [hss, h]

/-- Candidates with one id carry one body and lead to one root. -/
theorem body_eq (hE : CollisionFree E) (hc : ForkCandidate E genesis c) (hd : ForkCandidate E genesis d)
    (hid : c.entryId = d.entryId) :
    c.evidence.body = d.evidence.body ∧ c.resultingStateRoot = d.resultingStateRoot := by
  obtain ⟨p, hp, e, he, hce⟩ := hc
  obtain ⟨q, hq, f, hf, hdf⟩ := hd
  obtain ⟨x, -, rfl⟩ := (validateCandidate_eq_ok hp.wellFormed).mp hce
  obtain ⟨y, -, rfl⟩ := (validateCandidate_eq_ok hq.wellFormed).mp hdf
  have hbody : e.body = f.body := hE e he f hf hid
  exact ⟨hbody, congrArg GovernanceEntryBody.stateRoot hbody⟩

/-- A tip determines the root it commits to. -/
theorem root_eq (hgen : genesis.tip = .genesis) (hE : CollisionFree E) (hc : ForkCandidate E genesis c)
    (hd : ForkCandidate E genesis d) (htip : c.predecessor.tip = d.predecessor.tip) :
    c.predecessor.committedStateRoot = d.predecessor.committedStateRoot := by
  obtain ⟨p, hp, e, he, hce⟩ := hc
  obtain ⟨q, hq, f, hf, hdf⟩ := hd
  obtain ⟨x, -, rfl⟩ := (validateCandidate_eq_ok hp.wellFormed).mp hce
  obtain ⟨y, -, rfl⟩ := (validateCandidate_eq_ok hq.wellFormed).mp hdf
  show p.committedStateRoot = q.committedStateRoot
  have htip : p.tip = q.tip := htip
  rcases hp.origin with rfl | ⟨u, hu, hut, hur⟩ <;> rcases hq.origin with rfl | ⟨v, hv, hvt, hvr⟩
  · rfl
  · rw [hgen, hvt] at htip
    cases htip
  · rw [hut, hgen] at htip
    cases htip
  · rw [hut, hvt] at htip
    rw [hur, hvr, hE u hu v hv (GovernanceTip.entry.inj htip).2]

end ForkCandidate

theorem exists_cons_cons {α : Type} {l : List α} (h : 2 ≤ l.length) : ∃ a b rest, l = a :: b :: rest := by
  match l, h with
  | a :: b :: rest, _ => exact ⟨a, b, rest, rfl⟩

theorem forkAtSeq_eq_none {community : CommunityId} {seqGroup : List ValidatedGovernanceCandidate}
    (h : seqGroup.length < 2) : forkAtSeq community seqGroup = none := by
  rcases seqGroup with _ | ⟨first, _ | ⟨second, rest⟩⟩
  · rfl
  · rfl
  · rw [List.length_cons, List.length_cons] at h
    omega

/-! ### The contested position -/

/-- Two entries occupy the sequence number. -/
def Contested (L : List ValidatedGovernanceCandidate) (n : Nat) : Prop :=
  ∃ c ∈ L, ∃ d ∈ L, c.seq.toNat = n ∧ d.seq.toNat = n ∧ c.entryId ≠ d.entryId

/-- The lowest sequence number that two entries occupy. -/
def FirstContested (L : List ValidatedGovernanceCandidate) (n : Nat) : Prop :=
  Contested L n ∧ ∀ k < n, ¬ Contested L k

/-- The entries at the sequence number declare one predecessor. -/
def Undivided (L : List ValidatedGovernanceCandidate) (n : Nat) : Prop :=
  ∀ c ∈ L, ∀ d ∈ L, c.seq.toNat = n → d.seq.toNat = n → c.prev = d.prev

/-- Candidates with one id at the sequence number carry the same signatures and approvals. -/
def Agreeing (L : List ValidatedGovernanceCandidate) (n : Nat) : Prop :=
  ∀ c ∈ L, ∀ d ∈ L, c.seq.toNat = n → c.entryId = d.entryId → c.evidence = d.evidence

/-- The candidates kept at the sequence number, one for each id. -/
def keptAt (L : List ValidatedGovernanceCandidate) (n : Nat) : List ValidatedGovernanceCandidate :=
  (OrdMap.indexBy (fun c => c.entryId) L).values.filter fun c => c.seq.toNat = n

theorem mem_keptAt : c ∈ keptAt L n ↔
    (OrdMap.indexBy (fun c => c.entryId) L).get? c.entryId = some c ∧ c.seq.toNat = n := by
  rw [keptAt, List.mem_filter, OrdMap.mem_values_indexBy, decide_eq_true_iff]

theorem mem_of_mem_keptAt (h : c ∈ keptAt L n) : c ∈ L ∧ c.seq.toNat = n :=
  ⟨(OrdMap.mem_of_get?_indexBy (mem_keptAt.mp h).1).1, (mem_keptAt.mp h).2⟩

theorem keptAt_sorted : (keptAt L n).Pairwise fun c d => c.entryId < d.entryId :=
  OrdMap.values_indexBy_sorted.filter _

theorem Contested.perm (hperm : L'.Perm L) : Contested L' n ↔ Contested L n := by
  simp only [Contested, hperm.mem_iff]

theorem FirstContested.perm (hperm : L'.Perm L) : FirstContested L' n ↔ FirstContested L n := by
  simp only [FirstContested, Contested.perm hperm]

theorem Undivided.perm (hperm : L'.Perm L) : Undivided L' n ↔ Undivided L n := by
  simp only [Undivided, hperm.mem_iff]

theorem exists_firstContested (h : Contested L n) : ∃ k, FirstContested L k := by
  classical
  exact ⟨Nat.find ⟨n, h⟩, Nat.find_spec ⟨n, h⟩, fun k hk => Nat.find_min ⟨n, h⟩ hk⟩

section Detection

variable (hgen : genesis.tip = .genesis) (hE : CollisionFree E) (hL : ∀ c ∈ L, ForkCandidate E genesis c)
include hE hL

theorem exists_keptAt (hc : c ∈ L) : ∃ d ∈ keptAt L c.seq.toNat, d.entryId = c.entryId := by
  have hsome : ((OrdMap.indexBy (fun c => c.entryId) L).get? c.entryId).isSome :=
    OrdMap.isSome_get?_indexBy.mpr ⟨c, hc, rfl⟩
  obtain ⟨d, hd⟩ := Option.isSome_iff_exists.mp hsome
  obtain ⟨hmem, hid⟩ := OrdMap.mem_of_get?_indexBy hd
  have hseq : d.seq = c.seq := congrArg GovernanceEntryBody.seq (ForkCandidate.body_eq hE (hL d hmem) (hL c hc) hid).1
  exact ⟨d, mem_keptAt.mpr ⟨by rw [hid]; exact hd, by rw [hseq]⟩, hid⟩

theorem two_le_keptAt : 2 ≤ (keptAt L n).length ↔ Contested L n := by
  have hsorted := @keptAt_sorted L n
  have hkept : ∀ x ∈ L, x.seq.toNat = n → ∃ y ∈ keptAt L n, y.entryId = x.entryId := by
    rintro x hx rfl
    exact exists_keptAt hE hL hx
  have hmem : ∀ x ∈ keptAt L n, x ∈ L ∧ x.seq.toNat = n := fun x hx => mem_of_mem_keptAt hx
  constructor
  · intro hlen
    obtain ⟨x, y, rest, hk⟩ := exists_cons_cons hlen
    rw [hk] at hsorted hmem
    have hlt := List.rel_of_pairwise_cons hsorted List.mem_cons_self
    obtain ⟨hx, hxn⟩ := hmem x (by simp)
    obtain ⟨hy, hyn⟩ := hmem y (by simp)
    exact ⟨x, hx, y, hy, hxn, hyn, hlt.ne⟩
  · rintro ⟨c, hc, d, hd, hcn, hdn, hne⟩
    obtain ⟨x, hx, hxc⟩ := hkept c hc hcn
    obtain ⟨y, hy, hyd⟩ := hkept d hd hdn
    by_contra hlen
    match hk : keptAt L n with
    | [] =>
      rw [hk] at hx
      cases hx
    | [z] =>
      rw [hk, List.mem_singleton] at hx hy
      rw [← hxc, ← hyd, hx, hy] at hne
      exact hne rfl
    | _ :: _ :: _ =>
      rw [hk] at hlen
      simp at hlen

/-- Different predecessors at the position prove no ancestor. -/
theorem forkAtSeq_divided (community : CommunityId) (h : Contested L n) (hdiv : ¬ Undivided L n) :
    forkAtSeq community (keptAt L n) = some (.error .missingDependency) := by
  have hlen := (two_le_keptAt hE hL).mpr h
  have hmem : ∀ x ∈ keptAt L n, x ∈ L ∧ x.seq.toNat = n := fun x hx => mem_of_mem_keptAt hx
  have hkept : ∀ x ∈ L, x.seq.toNat = n → ∃ y ∈ keptAt L n, y.entryId = x.entryId := by
    rintro x hx rfl
    exact exists_keptAt hE hL hx
  obtain ⟨first, second, rest, hk⟩ := exists_cons_cons hlen
  rw [hk] at hmem hkept ⊢
  rw [forkAtSeq]
  refine if_pos (Bool.eq_false_iff.mpr fun hall => hdiv ?_)
  -- every candidate at the position shares its predecessor with the one kept under its id
  have hfirst : ∀ x ∈ L, x.seq.toNat = n → x.prev = first.prev := by
    intro x hx hxn
    obtain ⟨y, hy, hyx⟩ := hkept x hx hxn
    obtain ⟨hyL, hyn⟩ := hmem y hy
    obtain ⟨hfL, hfn⟩ := hmem first List.mem_cons_self
    have htip := of_decide_eq_true (List.all_eq_true.mp hall y hy)
    have hprev := ((hL y hyL).tip_eq_iff (hL first hfL) (hyn.trans hfn.symm)).mp htip
    have hbody := (ForkCandidate.body_eq hE (hL y hyL) (hL x hx) hyx).1
    rw [← hprev]
    exact congrArg GovernanceEntryBody.prev hbody.symm
  intro c hc d hd hcn hdn
  rw [hfirst c hc hcn, hfirst d hd hdn]

include hgen

/-- With one predecessor the evidence names it, and one branch for each id. -/
theorem forkAtSeq_undivided (community : CommunityId) (h : Contested L n) (hone : Undivided L n) (hc : c ∈ L)
    (hcn : c.seq.toNat = n) :
    forkAtSeq community (keptAt L n) = some (.ok ⟨community, c.predecessor.tip, c.predecessor.committedStateRoot,
      (keptAt L n).map branchFromCandidate⟩) := by
  have hlen := (two_le_keptAt hE hL).mpr h
  have hmem : ∀ x ∈ keptAt L n, x ∈ L ∧ x.seq.toNat = n := fun x hx => mem_of_mem_keptAt hx
  have htip : ∀ x ∈ keptAt L n, x.predecessor.tip = c.predecessor.tip := by
    intro x hx
    obtain ⟨hxL, hxn⟩ := hmem x hx
    exact ((hL x hxL).tip_eq_iff (hL c hc) (hxn.trans hcn.symm)).mpr (hone x hxL c hc hxn hcn)
  have hsort : sortBranches ((keptAt L n).map branchFromCandidate) = (keptAt L n).map branchFromCandidate :=
    List.Pairwise.insertionSort_eq (List.pairwise_map.mpr (keptAt_sorted.imp fun hlt => hlt.le))
  obtain ⟨first, second, rest, hk⟩ := exists_cons_cons hlen
  rw [hk] at htip hmem hsort ⊢
  have hfirst := htip first (by simp)
  have hall : (first :: second :: rest).all (fun c => decide (c.predecessor.tip = first.predecessor.tip)) = true :=
    List.all_eq_true.mpr fun x hx => decide_eq_true ((htip x hx).trans hfirst.symm)
  have hancestor : commonAncestorFromCandidates first second =
      some (first.predecessor.tip, first.predecessor.committedStateRoot) :=
    if_pos (hfirst.trans (htip second (by simp)).symm)
  have hroot := ForkCandidate.root_eq hgen hE (hL first (hmem first (by simp)).1) (hL c hc) hfirst
  rw [← hfirst, ← hroot, forkAtSeq]
  simp only [hall, hsort, hancestor]
  rfl

omit hgen

omit hE in
/-- The candidates kept are one group: they are of one community. -/
theorem communityGroups_eq (hmany : ¬ (OrdMap.indexBy (fun c => c.entryId) L).keys.length < 2) :
    (OrdMap.groupBy (fun c => c.communityId) (OrdMap.indexBy (fun c => c.entryId) L).values).values =
      [(OrdMap.indexBy (fun c => c.entryId) L).values] := by
  refine OrdMap.values_groupBy_const ?_ fun x hx =>
    (hL x (OrdMap.mem_of_get?_indexBy (OrdMap.mem_values_indexBy.mp hx)).1).community
  intro hnil
  rw [OrdMap.values, List.map_eq_nil_iff] at hnil
  exact hmany (by simp [OrdMap.keys, hnil])

omit hE in
theorem forkInCommunity_index (hmany : ¬ (OrdMap.indexBy (fun c => c.entryId) L).keys.length < 2) :
    forkInCommunity (OrdMap.indexBy (fun c => c.entryId) L).values =
      (OrdMap.groupBy (fun c => c.seq.toNat) (OrdMap.indexBy (fun c => c.entryId) L).values).values.findSome?
        (forkAtSeq genesis.state.communityId) := by
  have hlen : 2 ≤ (OrdMap.indexBy (fun c => c.entryId) L).values.length := by
    rw [OrdMap.keys, List.length_map] at hmany
    rw [OrdMap.values, List.length_map]
    omega
  obtain ⟨first, second, rest, hv⟩ := exists_cons_cons hlen
  have hfirst : first ∈ (OrdMap.indexBy (fun c => c.entryId) L).values := by simp [hv]
  have hcommunity := (hL first (OrdMap.mem_of_get?_indexBy (OrdMap.mem_values_indexBy.mp hfirst)).1).community
  rw [hv, forkInCommunity, hcommunity]

/-- The search over communities and sequence numbers ends at the lowest contested one. -/
theorem detectGovernanceForks_first (h : FirstContested L n) {result : Except Reject GovernanceForkEvidence}
    (hfork : forkAtSeq genesis.state.communityId (keptAt L n) = some result) :
    detectGovernanceForks L = result.map some := by
  have hlen := (two_le_keptAt hE hL).mpr h.1
  have hle : (keptAt L n).length ≤ (OrdMap.indexBy (fun c => c.entryId) L).values.length := List.length_filter_le _ _
  have hmany : ¬ (OrdMap.indexBy (fun c => c.entryId) L).keys.length < 2 := by
    rw [OrdMap.values, List.length_map] at hle
    rw [OrdMap.keys, List.length_map]
    omega
  have hgroup : forkInCommunity (OrdMap.indexBy (fun c => c.entryId) L).values = some result := by
    rw [forkInCommunity_index hL hmany]
    refine OrdMap.findSome?_values_of_first (OrdMap.get?_groupBy_eq_some.mpr ⟨?_, rfl⟩) hfork ?_
    · exact List.ne_nil_of_length_pos (show 0 < (keptAt L n).length by omega)
    · intro k hk g hg
      obtain ⟨-, rfl⟩ := OrdMap.get?_groupBy_eq_some.mp hg
      show forkAtSeq _ (keptAt L k) = none
      refine forkAtSeq_eq_none ?_
      have hfree : ¬ 2 ≤ (keptAt L k).length := fun hlen => h.2 k hk ((two_le_keptAt hE hL).mp hlen)
      omega
  simp only [detectGovernanceForks, if_neg hmany, communityGroups_eq hL hmany, List.findSome?_cons, hgroup]

theorem detectGovernanceForks_free (h : ∀ n, ¬ Contested L n) : detectGovernanceForks L = .ok none := by
  by_cases hmany : (OrdMap.indexBy (fun c => c.entryId) L).keys.length < 2
  · exact if_pos hmany
  · have hgroup : forkInCommunity (OrdMap.indexBy (fun c => c.entryId) L).values = none := by
      rw [forkInCommunity_index hL hmany, OrdMap.findSome?_values_eq_none]
      intro k g hg
      obtain ⟨-, rfl⟩ := OrdMap.get?_groupBy_eq_some.mp hg
      show forkAtSeq _ (keptAt L k) = none
      refine forkAtSeq_eq_none ?_
      have hfree : ¬ 2 ≤ (keptAt L k).length := fun hlen => h k ((two_le_keptAt hE hL).mp hlen)
      omega
    simp only [detectGovernanceForks, if_neg hmany, communityGroups_eq hL hmany, List.findSome?_cons, hgroup,
      List.findSome?_nil]

/-- The branches kept from one order are among those kept from another. -/
theorem branches_subset (hperm : L'.Perm L) (hagree : Agreeing L n) :
    ∀ b ∈ (keptAt L' n).map branchFromCandidate, b ∈ (keptAt L n).map branchFromCandidate := by
  intro b hb
  obtain ⟨c, hc, rfl⟩ := List.mem_map.mp hb
  obtain ⟨hcL, hcn⟩ := mem_of_mem_keptAt hc
  have hcL := hperm.mem_iff.mp hcL
  obtain ⟨d, hd, hid⟩ := exists_keptAt hE hL hcL
  rw [hcn] at hd
  obtain ⟨hdL, hdn⟩ := mem_of_mem_keptAt hd
  have hroot := (ForkCandidate.body_eq hE (hL d hdL) (hL c hcL) hid).2
  have hevidence := hagree d hdL c hcL hdn hid
  refine List.mem_map.mpr ⟨d, hd, ?_⟩
  simp only [branchFromCandidate, ValidatedGovernanceCandidate.entryId, ValidatedGovernanceCandidate.seq,
    ValidatedGovernanceCandidate.prev, hroot, hevidence]

theorem branches_eq (hperm : L'.Perm L) (hagree : Agreeing L n) :
    (keptAt L' n).map branchFromCandidate = (keptAt L n).map branchFromCandidate := by
  have hsorted : ∀ K : List ValidatedGovernanceCandidate,
      ((keptAt K n).map branchFromCandidate).Pairwise fun a b => a.head < b.head := fun K =>
    List.pairwise_map.mpr keptAt_sorted
  have hagree' : Agreeing L' n := fun c hc d hd =>
    hagree c (hperm.mem_iff.mp hc) d (hperm.mem_iff.mp hd)
  have hL' : ∀ c ∈ L', ForkCandidate E genesis c := fun c hc => hL c (hperm.mem_iff.mp hc)
  have hmem : ∀ b, b ∈ (keptAt L' n).map branchFromCandidate ↔ b ∈ (keptAt L n).map branchFromCandidate := fun b =>
    ⟨branches_subset hE hL hperm hagree b, branches_subset hE hL' hperm.symm hagree' b⟩
  have hnodup : ∀ K : List ValidatedGovernanceCandidate, ((keptAt K n).map branchFromCandidate).Nodup := fun K =>
    (hsorted K).imp fun hlt heq => absurd hlt (by simp [heq])
  refine List.Perm.eq_of_pairwise (fun a b _ _ hab hba => absurd (hab.trans hba) (lt_irrefl _)) (hsorted L') (hsorted L) ?_
  exact (List.perm_ext_iff_of_nodup (hnodup L') (hnodup L)).mpr hmem

end Detection

/-- The pair form does not depend on the order of its arguments. -/
theorem detectGovernanceFork_comm (hgen : genesis.tip = .genesis) (hE : CollisionFree E)
    (hc : ForkCandidate E genesis c) (hd : ForkCandidate E genesis d) :
    detectGovernanceFork c d = detectGovernanceFork d c := by
  rw [detectGovernanceFork, detectGovernanceFork]
  by_cases hcommunity : c.communityId = d.communityId
  · by_cases hid : c.entryId = d.entryId
    · simp [hid]
    · by_cases hseq : c.seq = d.seq
      · rw [if_neg (not_not.mpr hcommunity), if_neg hid, if_neg (not_not.mpr hseq),
          if_neg (not_not.mpr hcommunity.symm), if_neg (Ne.symm hid), if_neg (not_not.mpr hseq.symm)]
        by_cases htip : c.predecessor.tip = d.predecessor.tip
        · have hsort : sortBranches [branchFromCandidate c, branchFromCandidate d] =
              sortBranches [branchFromCandidate d, branchFromCandidate c] := by
            have hid : (branchFromCandidate c).head ≠ (branchFromCandidate d).head := hid
            rcases lt_or_gt_of_ne hid with h | h <;> simp [sortBranches, h.le, not_le.mpr h]
          simp [commonAncestorFromCandidates, htip, ForkCandidate.root_eq hgen hE hc hd htip, hcommunity, hsort]
        · simp [commonAncestorFromCandidates, htip, Ne.symm htip]
      · simp [hid, hseq, Ne.symm hid, Ne.symm hseq]
  · simp [hcommunity, Ne.symm hcommunity]

theorem detectGovernanceForks_perm_iff {config : GenesisConfig} {signatures : List GenesisSignature}
    (hgenesis : validatedGenesisState env config signatures = .ok genesis) (hE : CollisionFree E)
    (hL : ∀ c ∈ L, ForkCandidate E genesis c) :
    (∀ L', L'.Perm L → detectGovernanceForks L' = detectGovernanceForks L) ↔
      ∀ n, FirstContested L n → Undivided L n → Agreeing L n := by
  have hgen := (validatedGenesisState_eq_ok hgenesis).1
  have hperm_L : ∀ {L' : List ValidatedGovernanceCandidate}, L'.Perm L → ∀ c ∈ L', ForkCandidate E genesis c := fun hperm c hc =>
    hL c (hperm.mem_iff.mp hc)
  constructor
  · intro hsame n hfirst hone c hc d hd hcn hid
    have hbody := (ForkCandidate.body_eq hE (hL c hc) (hL d hd) hid).1
    have hdn : d.seq.toNat = n := by
      rw [← hcn]
      exact congrArg (fun b => b.seq.toNat) hbody.symm
    -- brought to the end, each of the two is the branch that the evidence shows
    have hbranch : ∀ x ∈ L, x.seq.toNat = n → ∃ L', L'.Perm L ∧ x ∈ keptAt L' n := by
      intro x hx hxn
      obtain ⟨L', hperm, hget⟩ := @OrdMap.exists_perm_indexBy _ _ _ (fun c => c.entryId) _ _ hx
      exact ⟨L', hperm, mem_keptAt.mpr ⟨hget, hxn⟩⟩
    have hok : ∀ L', L'.Perm L → detectGovernanceForks L' = .ok (some ⟨genesis.state.communityId, c.predecessor.tip,
        c.predecessor.committedStateRoot, (keptAt L' n).map branchFromCandidate⟩) := by
      intro L' hperm
      exact detectGovernanceForks_first hE (hperm_L hperm) ((FirstContested.perm hperm).mpr hfirst)
        (forkAtSeq_undivided hgen hE (hperm_L hperm) _ ((Contested.perm hperm).mpr hfirst.1)
          ((Undivided.perm hperm).mpr hone) (hperm.mem_iff.mpr hc) hcn)
    have hbranches : ∀ x ∈ L, x.seq.toNat = n → branchFromCandidate x ∈ (keptAt L n).map branchFromCandidate := by
      intro x hx hxn
      obtain ⟨L', hperm, hkept⟩ := hbranch x hx hxn
      have heq := hsame L' hperm
      rw [hok L' hperm, hok L (List.Perm.refl L), Except.ok.injEq, Option.some_inj] at heq
      have hmap : (keptAt L' n).map branchFromCandidate = (keptAt L n).map branchFromCandidate :=
        congrArg GovernanceForkEvidence.branches heq
      rw [← hmap]
      exact List.mem_map_of_mem hkept
    obtain ⟨x, hx, hxc⟩ := List.mem_map.mp (hbranches c hc hcn)
    obtain ⟨y, hy, hyd⟩ := List.mem_map.mp (hbranches d hd hdn)
    have hxid : x.entryId = c.entryId := congrArg GovernanceBranchEvidence.head hxc
    have hyid : y.entryId = d.entryId := congrArg GovernanceBranchEvidence.head hyd
    have hxy : some x = some y := by
      rw [← (mem_keptAt.mp hx).1, ← (mem_keptAt.mp hy).1, hxid, hyid, hid]
    have hxe : x.evidence = c.evidence := congrArg GovernanceBranchEvidence.entry hxc
    have hye : y.evidence = d.evidence := congrArg GovernanceBranchEvidence.entry hyd
    rw [← hxe, ← hye, Option.some_inj.mp hxy]
  · intro hagree L' hperm
    by_cases hfree : ∀ n, ¬ Contested L n
    · rw [detectGovernanceForks_free hE hL hfree,
        detectGovernanceForks_free hE (hperm_L hperm) fun n h => hfree n ((Contested.perm hperm).mp h)]
    · obtain ⟨k, hk⟩ := not_forall_not.mp hfree
      obtain ⟨n, hfirst⟩ := exists_firstContested hk
      have hfirst' := (FirstContested.perm hperm).mpr hfirst
      by_cases hone : Undivided L n
      · obtain ⟨c, hc, -, -, hcn, -⟩ := hfirst.1
        have hone' := (Undivided.perm hperm).mpr hone
        rw [detectGovernanceForks_first hE hL hfirst (forkAtSeq_undivided hgen hE hL _ hfirst.1 hone hc hcn),
          detectGovernanceForks_first hE (hperm_L hperm) hfirst'
            (forkAtSeq_undivided hgen hE (hperm_L hperm) _ hfirst'.1 hone' (hperm.mem_iff.mpr hc) hcn),
          branches_eq hE hL hperm (hagree n hfirst hone)]
      · have hone' : ¬ Undivided L' n := fun h => hone ((Undivided.perm hperm).mp h)
        rw [detectGovernanceForks_first hE hL hfirst (forkAtSeq_divided hE hL _ hfirst.1 hone),
          detectGovernanceForks_first hE (hperm_L hperm) hfirst'
            (forkAtSeq_divided hE (hperm_L hperm) _ hfirst'.1 hone')]

end Sets

namespace Toy

/-- The entry `a` again, with the other administrator's approval. -/
def approvedA : VerifiedGovernanceEntry tailEnv where
  evidence :=
    let body := GovernanceApprovalBody.mk (a small).body.communityId (a small).id (a small).body.stateRoot (principal 2) 9
    { (a small).evidence with
      approvals := [⟨body, approvalCsb body,
        tailEnv.sign (key 2) (signingMessage Domain.governanceApproval (approvalCsb body))⟩] }
  verified :=
    { (a small).verified with
      approvers := List.nodup_singleton _
      approvals := by
        intro x hx
        obtain rfl := List.mem_singleton.mp hx
        exact ⟨rfl, tailEnv.verify_sign _ _, rfl, rfl, rfl⟩ }

/-- The candidate that an entry over the genesis makes. -/
def candidate (e : VerifiedGovernanceEntry tailEnv) (n : Nat) : ValidatedGovernanceCandidate :=
  ⟨genesis small, ⟨revoked (genesis small) n, .entry e.body.seq e.id, e.body.stateRoot⟩, e.evidence⟩

theorem authorised_approvedA : Authorised (genesis small) approvedA (revoked (genesis small) 1) :=
  { authorised_a small with
    quorum := by
      obtain ⟨ps, hnodup, hmem, hle⟩ := (authorised_a small).quorum
      refine ⟨ps, hnodup, fun p hp => ⟨(hmem p hp).1, ?_⟩, hle⟩
      exact .inl ((hmem p hp).2.resolve_right (by simp [a, VerifiedGovernanceEntry.sign])) }

/-- The entries behind the three candidates. -/
def forkEntries : Set (VerifiedGovernanceEntry tailEnv) := {e | e = a small ∨ e = approvedA ∨ e = b small}

theorem forkEntries_collisionFree : CollisionFree forkEntries := by
  have hcase : ∀ x ∈ forkEntries, (x.id = (a small).id ∧ x.body = (a small).body) ∨
      (x.id = (b small).id ∧ x.body = (b small).body) := by
    rintro x (rfl | rfl | rfl)
    · exact .inl ⟨rfl, rfl⟩
    · exact .inl ⟨rfl, rfl⟩
    · exact .inr ⟨rfl, rfl⟩
  intro x hx y hy hxy
  rcases hcase x hx with ⟨hxi, hxb⟩ | ⟨hxi, hxb⟩ <;> rcases hcase y hy with ⟨hyi, hyb⟩ | ⟨hyi, hyb⟩
  · rw [hxb, hyb]
  · exact absurd (hxi.symm.trans (hxy.trans hyi)) a_lt_b.ne
  · exact absurd (hyi.symm.trans (hxy.symm.trans hxi)) a_lt_b.ne
  · rw [hxb, hyb]

theorem forkCandidate_of_authorised {e : VerifiedGovernanceEntry tailEnv} {n : Nat} (he : e ∈ forkEntries)
    (h : Authorised (genesis small) e (revoked (genesis small) n)) :
    ForkCandidate forkEntries (genesis small) (candidate e n) := by
  have hsnapshot : Snapshot forkEntries (genesis small) (genesis small) := snapshot_genesis (genesis_validated small)
  exact ⟨genesis small, hsnapshot, e, he, (validateCandidate_eq_ok hsnapshot.wellFormed).mpr ⟨_, h, rfl⟩⟩

theorem forkCandidates : ∀ c ∈ [candidate (a small) 1, candidate approvedA 1, candidate (b small) 2],
    ForkCandidate forkEntries (genesis small) c := by
  intro c hc
  simp only [List.mem_cons, List.not_mem_nil, or_false] at hc
  rcases hc with rfl | rfl | rfl
  · exact forkCandidate_of_authorised (.inl rfl) (authorised_a small)
  · exact forkCandidate_of_authorised (.inr (.inl rfl)) authorised_approvedA
  · exact forkCandidate_of_authorised (.inr (.inr rfl)) (authorised_b small)

/-- The approvals that the evidence shows on each branch. -/
def shownApprovals (result : Except Reject (Option GovernanceForkEvidence)) : List Nat :=
  match result with
  | .ok (some evidence) => evidence.branches.map fun b => b.entry.approvals.length
  | _ => []

/-- The bare entry first or its approved form first: the evidence shows the approval in one order only. -/
theorem detectGovernanceForks_order_dependent :
    validatedGenesisState tailEnv (config small) (signatures small) = .ok (genesis small) ∧
    CollisionFree forkEntries ∧
    (∀ c ∈ [candidate (a small) 1, candidate approvedA 1, candidate (b small) 2],
      ForkCandidate forkEntries (genesis small) c) ∧
    [candidate approvedA 1, candidate (a small) 1, candidate (b small) 2].Perm
      [candidate (a small) 1, candidate approvedA 1, candidate (b small) 2] ∧
    detectGovernanceForks [candidate approvedA 1, candidate (a small) 1, candidate (b small) 2] ≠
      detectGovernanceForks [candidate (a small) 1, candidate approvedA 1, candidate (b small) 2] := by
  refine ⟨genesis_validated small, forkEntries_collisionFree, forkCandidates, .swap _ _ _, ?_⟩
  intro heq
  have hshown : shownApprovals
      (detectGovernanceForks [candidate approvedA 1, candidate (a small) 1, candidate (b small) 2]) ≠ shownApprovals
      (detectGovernanceForks [candidate (a small) 1, candidate approvedA 1, candidate (b small) 2]) := by
    decide +kernel
  exact hshown (congrArg shownApprovals heq)

/-- A candidate supplied twice is no trouble. -/
theorem detectGovernanceForks_perm_repeated :
    detectGovernanceForks [candidate (b small) 2, candidate (a small) 1, candidate (a small) 1] =
      detectGovernanceForks [candidate (a small) 1, candidate (b small) 2, candidate (a small) 1] := by
  have hne : (candidate (a small) 1).entryId ≠ (candidate (b small) 2).entryId := a_lt_b.ne
  refine (detectGovernanceForks_perm_iff (genesis_validated small) forkEntries_collisionFree fun c hc => ?_).mpr ?_ _
    (List.Perm.swap _ _ _)
  · apply forkCandidates c
    simp only [List.mem_cons, List.not_mem_nil, or_false] at hc ⊢
    rcases hc with rfl | rfl | rfl
    · exact .inl rfl
    · exact .inr (.inr rfl)
    · exact .inl rfl
  · intro n _ _ c hc d hd _ hid
    have hcase : ∀ x ∈ [candidate (a small) 1, candidate (b small) 2, candidate (a small) 1],
        x = candidate (a small) 1 ∨ x = candidate (b small) 2 := by
      intro x hx
      simp only [List.mem_cons, List.not_mem_nil, or_false] at hx
      rcases hx with rfl | rfl | rfl
      · exact .inl rfl
      · exact .inr rfl
      · exact .inl rfl
    rcases hcase c hc with rfl | rfl <;> rcases hcase d hd with rfl | rfl
    · rfl
    · exact absurd hid hne
    · exact absurd hid.symm hne
    · rfl

end Toy

end IrohRooms.Governance
