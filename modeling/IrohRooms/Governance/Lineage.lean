import IrohRooms.Governance.Machine

/-!
# Soundness of the lineage

Every retained node extends a retained predecessor by an operation that its authority signed: the administrators of
the predecessor for an ordinary entry, the recovery keys of the stable ancestor for a resolution (`LineageNode.Sound`).
A lineage only grows, and what has been computed from it stays.
-/

namespace IrohRooms.Governance

namespace GovernanceLineage

variable {lineage lineage' : GovernanceLineage} {id x : GovernanceId} {node : LineageNode} {l : List GovernanceId}

/-- The snapshot that a declared predecessor names. -/
def pred (lineage : GovernanceLineage) : Option GovernanceId → Option ValidatedGovernanceState
  | none => some lineage.genesis
  | some id => (lineage.get id).map LineageNode.state

theorem get_insert : (lineage.insert id node).get x = if x = id then some node else lineage.get x :=
  OrdMap.get?_insert _ _ _ _

theorem links_eq_some {up : Option GovernanceId} :
    lineage.links x = some up ↔ ∃ node, lineage.get x = some node ∧ node.prev = up :=
  Option.map_eq_some_iff

theorem isSome_links : (lineage.links x).isSome = (lineage.get x).isSome := Option.isSome_map ..

theorem ancestorIds_eq_ok :
    lineage.ancestorIds x = .ok l ↔ Ancestry.chain lineage.links lineage.nodes.keys.length (some x) = some l := by
  rw [ancestorIds]
  split
  · next chain hchain => rw [hchain, Except.ok.injEq, Option.some_inj]
  · next hchain => simp [hchain]

/-! ### Growth -/

/-- Nodes are added, none is changed. -/
structure Grows (lineage lineage' : GovernanceLineage) : Prop where
  genesis : lineage'.genesis = lineage.genesis
  get : ∀ id node, lineage.get id = some node → lineage'.get id = some node

theorem grows_insert (hnew : lineage.get id = none) : lineage.Grows (lineage.insert id node) where
  genesis := rfl
  get x n hx := by
    rw [get_insert, if_neg, hx]
    intro h
    rw [h, hnew] at hx
    exact absurd hx (by simp)

namespace Grows

theorem trans {lineage'' : GovernanceLineage} (h : lineage.Grows lineage') (h' : lineage'.Grows lineage'') :
    lineage.Grows lineage'' where
  genesis := h'.genesis.trans h.genesis
  get id node hget := h'.get id node (h.get id node hget)

variable (h : lineage.Grows lineage')
include h

theorem length_le : lineage.nodes.keys.length ≤ lineage'.nodes.keys.length := by
  have hsub : lineage.nodes.keys ⊆ lineage'.nodes.keys := fun x hx => by
    obtain ⟨node, hnode⟩ := Option.isSome_iff_exists.mp (OrdMap.mem_keys.mp hx)
    exact OrdMap.mem_keys.mpr (Option.isSome_iff_exists.mpr ⟨node, h.get x node hnode⟩)
  exact (List.subperm_of_subset lineage.nodes.keys_nodup hsub).length_le

theorem ancestorIds (hl : lineage.ancestorIds x = .ok l) : lineage'.ancestorIds x = .ok l := by
  rw [ancestorIds_eq_ok] at hl ⊢
  have hlinks : ∀ y up, lineage.links y = some up → lineage'.links y = some up := fun y up hy => by
    obtain ⟨node, hnode, hup⟩ := links_eq_some.mp hy
    exact links_eq_some.mpr ⟨node, h.get y node hnode, hup⟩
  exact Ancestry.chain_mono hlinks hl ((Ancestry.chain_length_le hl).trans h.length_le)

theorem meetChains {common heads : List GovernanceId} (hl : lineage.meetChains common heads = .ok l) :
    lineage'.meetChains common heads = .ok l := by
  induction heads generalizing common with
  | nil => exact hl
  | cons head heads ih =>
    obtain ⟨chain, hchain, hrest⟩ := bind_eq_ok_iff.mp hl
    exact bind_eq_ok_iff.mpr ⟨chain, h.ancestorIds hchain, ih hrest⟩

theorem commonAncestorOf {heads : OrdSet GovernanceId} {r : GovernanceTip × StateRoot}
    (hr : lineage.commonAncestorOf heads = .ok r) : lineage'.commonAncestorOf heads = .ok r := by
  rw [GovernanceLineage.commonAncestorOf] at hr ⊢
  split at hr
  · exact absurd hr (by simp)
  · obtain ⟨chain, hchain, hr⟩ := bind_eq_ok_iff.mp hr
    obtain ⟨common, hcommon, hr⟩ := bind_eq_ok_iff.mp hr
    refine bind_eq_ok_iff.mpr ⟨chain, h.ancestorIds hchain, bind_eq_ok_iff.mpr ⟨common, h.meetChains hcommon, ?_⟩⟩
    split at hr
    · rwa [h.genesis]
    · split at hr
      · next node hnode => rwa [h.get _ node hnode]
      · exact absurd hr (by simp)

theorem stateAt {tip : GovernanceTip} {s : ValidatedGovernanceState} (hs : lineage.stateAt tip = .ok s) :
    lineage'.stateAt tip = .ok s := by
  rcases tip with _ | ⟨seq, id⟩
  · rwa [GovernanceLineage.stateAt, h.genesis]
  · rw [GovernanceLineage.stateAt] at hs ⊢
    split at hs
    · next node hnode => rwa [h.get _ node hnode]
    · exact absurd hs (by simp)

theorem pred {prev : Option GovernanceId} {s : ValidatedGovernanceState} (hs : lineage.pred prev = some s) :
    lineage'.pred prev = some s := by
  rcases prev with _ | id
  · rwa [GovernanceLineage.pred, h.genesis]
  · obtain ⟨node, hnode, rfl⟩ := Option.map_eq_some_iff.mp hs
    exact Option.map_eq_some_iff.mpr ⟨node, h.get id node hnode, rfl⟩

end Grows

/-- `stable` is the snapshot of the last common ancestor of the heads. -/
def StableAncestor (lineage : GovernanceLineage) (heads : OrdSet GovernanceId) (stable : ValidatedGovernanceState) :
    Prop := ∃ tip root, lineage.commonAncestorOf heads = .ok (tip, root) ∧ lineage.stateAt tip = .ok stable

theorem Grows.stableAncestor {heads : OrdSet GovernanceId} {stable : ValidatedGovernanceState}
    (h : lineage.Grows lineage') : lineage.StableAncestor heads stable → lineage'.StableAncestor heads stable :=
  fun ⟨tip, root, htip, hstable⟩ => ⟨tip, root, h.commonAncestorOf htip, h.stateAt hstable⟩

end GovernanceLineage

/-! ### Sound nodes -/

namespace LineageNode

/-- A resolution of heads that the lineage knows, signed by the recovery keys of their stable ancestor. -/
structure Resolves (lineage : GovernanceLineage) (node : LineageNode) (r : ForkResolve) : Prop where
  selected : node.prev = some r.selectedHead
  known : ∀ head ∈ r.branchHeads, (lineage.get head).isSome
  quorum : ∃ stable, lineage.StableAncestor (OrdSet.ofList r.branchHeads) stable ∧
    ValidThreshold stable.state.recovery.config.recoveryKeys stable.state.recovery.config.threshold ∧
    node.evidence.Quorum stable.state.recovery.config.recoveryKeys stable.state.recovery.config.threshold

/-- The node extends the snapshot `p` by one authorized entry. -/
structure Extends (lineage : GovernanceLineage) (p : ValidatedGovernanceState) (node : LineageNode) : Prop where
  seq : node.seq.toNat = p.tip.seqNum + 1
  apply : applyEntry p.state node.seq node.evidence.body.payload = .ok node.state.state
  ordinary : node.evidence.body.payload.resolve? = none →
    ValidThreshold p.state.administrators.administrators p.state.administrators.threshold ∧
      node.evidence.Quorum p.state.administrators.administrators p.state.administrators.threshold
  resolution : ∀ r, node.evidence.body.payload.resolve? = some r → node.Resolves lineage r

structure Sound (env : Env) (lineage : GovernanceLineage) (id : GovernanceId) (node : LineageNode) : Prop where
  entry : node.evidence.id = id
  seq : node.seq = node.evidence.body.seq
  prev : node.prev = node.evidence.body.prev
  verified : node.evidence.Verified env
  tip : node.state.tip = .entry node.seq id
  community : node.state.state.communityId = lineage.genesis.state.communityId
  target : node.evidence.body.communityId = lineage.genesis.state.communityId
  root : node.state.committedStateRoot = computeStateRoot env node.state.state
  declared : node.state.committedStateRoot = node.evidence.body.stateRoot
  step : ∃ p, lineage.pred node.prev = some p ∧ node.Extends lineage p

variable {env : Env} {lineage lineage' : GovernanceLineage} {id : GovernanceId} {node : LineageNode}

theorem Sound.mono (h : node.Sound env lineage id) (hg : lineage.Grows lineage') : node.Sound env lineage' id where
  entry := h.entry
  seq := h.seq
  prev := h.prev
  verified := h.verified
  tip := h.tip
  community := by rw [h.community, hg.genesis]
  target := by rw [h.target, hg.genesis]
  root := h.root
  declared := h.declared
  step := by
    obtain ⟨p, hp, hstep⟩ := h.step
    refine ⟨p, hg.pred hp, hstep.seq, hstep.apply, hstep.ordinary, fun r hr => ?_⟩
    obtain ⟨hsel, hknown, stable, hstable, hquorum⟩ := hstep.resolution r hr
    refine ⟨hsel, fun head hhead => ?_, stable, hg.stableAncestor hstable, hquorum⟩
    obtain ⟨n, hn⟩ := Option.isSome_iff_exists.mp (hknown head hhead)
    exact Option.isSome_iff_exists.mpr ⟨n, hg.get head n hn⟩

theorem Sound.wellFormed (h : node.Sound env lineage id) : node.state.WellFormed env := by
  obtain ⟨p, -, hstep⟩ := h.step
  refine ⟨h.root, fun seq i htip hzero => ?_, ?_⟩
  · rw [h.tip] at htip
    have hseq := hstep.seq
    rw [(GovernanceTip.entry.inj htip).1, hzero, UInt64.toNat_zero] at hseq
    omega
  · rw [applyEntry_acceptedSeq hstep.apply, h.tip, GovernanceTip.seqNum]

end LineageNode

namespace GovernanceLineage

/-- Every node is sound, over a genesis snapshot that is. -/
structure Sound (env : Env) (lineage : GovernanceLineage) : Prop where
  tip : lineage.genesis.tip = .genesis
  genesis : lineage.genesis.WellFormed env
  nodes : ∀ id node, lineage.get id = some node → node.Sound env lineage id

variable {env : Env} {lineage : GovernanceLineage} {id x a : GovernanceId} {node : LineageNode}

namespace Sound

variable (h : lineage.Sound env)
include h

theorem pred_wellFormed {prev : Option GovernanceId} {p : ValidatedGovernanceState} (hp : lineage.pred prev = some p) :
    p.WellFormed env := by
  rcases prev with _ | id
  · exact Option.some.inj hp ▸ h.genesis
  · obtain ⟨node, hnode, rfl⟩ := Option.map_eq_some_iff.mp hp
    exact (h.nodes id node hnode).wellFormed

theorem pred_tip {prev : Option GovernanceId} {p : ValidatedGovernanceState} (hp : lineage.pred prev = some p) :
    p.tip.id? = prev := by
  rcases prev with _ | id
  · rw [← Option.some.inj hp, h.tip]
    rfl
  · obtain ⟨node, hnode, rfl⟩ := Option.map_eq_some_iff.mp hp
    rw [(h.nodes id node hnode).tip]
    rfl

theorem pred_community {prev : Option GovernanceId} {p : ValidatedGovernanceState} (hp : lineage.pred prev = some p) :
    p.state.communityId = lineage.genesis.state.communityId := by
  rcases prev with _ | id
  · rw [← Option.some.inj hp]
  · obtain ⟨node, hnode, rfl⟩ := Option.map_eq_some_iff.mp hp
    exact (h.nodes id node hnode).community

theorem stateAt_community {tip : GovernanceTip} {s : ValidatedGovernanceState} (hs : lineage.stateAt tip = .ok s) :
    s.state.communityId = lineage.genesis.state.communityId := by
  rcases tip with _ | ⟨seq, id⟩
  · rw [← Except.ok.inj hs]
  · rw [stateAt] at hs
    split at hs
    · next node hnode => rw [← Except.ok.inj hs, (h.nodes id node hnode).community]
    · exact absurd hs (by simp)

theorem known_prev (hx : lineage.get x = some node) (hprev : node.prev = some id) :
    ∃ up, lineage.get id = some up ∧ node.seq.toNat = up.seq.toNat + 1 := by
  obtain ⟨p, hp, hstep⟩ := (h.nodes x node hx).step
  rw [hprev] at hp
  obtain ⟨up, hup, rfl⟩ := Option.map_eq_some_iff.mp hp
  refine ⟨up, hup, ?_⟩
  rw [hstep.seq, (h.nodes id up hup).tip, GovernanceTip.seqNum]

/-- Sequence numbers fall along the links. -/
theorem graded : Ancestry.Graded lineage.links fun x => ((lineage.get x).map fun n => n.seq.toNat).getD 0 := by
  intro x y hxy
  obtain ⟨node, hnode, hprev⟩ := links_eq_some.mp hxy
  obtain ⟨up, hup, hseq⟩ := h.known_prev hnode hprev
  refine ⟨by rw [isSome_links, hup]; rfl, ?_⟩
  simp only [hup, hnode, Option.map_some, Option.getD_some]
  omega

theorem exists_ancestorIds (hx : (lineage.get x).isSome) : ∃ l, lineage.ancestorIds x = .ok l := by
  have hids : ∀ y, (lineage.links y).isSome → y ∈ lineage.nodes.keys := fun y hy => by
    rw [isSome_links] at hy
    exact OrdMap.mem_keys.mpr hy
  obtain ⟨l, hl⟩ := h.graded.exists_chain hids (isSome_links.trans hx)
  exact ⟨l, ancestorIds_eq_ok.mpr hl⟩

theorem exists_meetChains {heads : List GovernanceId} (hheads : ∀ x ∈ heads, (lineage.get x).isSome)
    (common : List GovernanceId) : ∃ l, lineage.meetChains common heads = .ok l := by
  induction heads generalizing common with
  | nil => exact ⟨common, rfl⟩
  | cons head heads ih =>
    obtain ⟨chain, hchain⟩ := h.exists_ancestorIds (hheads head List.mem_cons_self)
    obtain ⟨l, hl⟩ := ih (fun x hx => hheads x (List.mem_cons_of_mem _ hx)) (common.filter (· ∈ chain))
    exact ⟨l, bind_eq_ok_iff.mpr ⟨chain, hchain, hl⟩⟩

/-- Known heads have a stable ancestor. -/
theorem exists_commonAncestor {heads : OrdSet GovernanceId} (hne : heads.toList ≠ [])
    (hheads : ∀ x ∈ heads, (lineage.get x).isSome) :
    ∃ tip root stable, lineage.commonAncestorOf heads = .ok (tip, root) ∧ lineage.stateAt tip = .ok stable := by
  have hknown : ∀ x ∈ heads.toList, (lineage.get x).isSome := fun x hx => hheads x (OrdSet.mem_toList.mp hx)
  rw [commonAncestorOf]
  split
  · next hnil => exact absurd hnil hne
  · next first rest hlist =>
    rw [hlist] at hknown
    obtain ⟨chain, hchain⟩ := h.exists_ancestorIds (hknown first List.mem_cons_self)
    obtain ⟨common, hcommon⟩ := h.exists_meetChains (fun x hx => hknown x (List.mem_cons_of_mem _ hx)) chain
    simp only [hchain, hcommon, bind, Except.bind]
    split
    · refine ⟨_, _, lineage.genesis, rfl, ?_⟩
      rw [h.tip]
      rfl
    · next x hx =>
      have hmem : x ∈ chain := List.mem_of_find?_eq_some hx
      have hsome := Ancestry.known_of_mem_chain (ancestorIds_eq_ok.mp hchain) hmem
      rw [isSome_links] at hsome
      obtain ⟨node, hnode⟩ := Option.isSome_iff_exists.mp hsome
      rw [hnode]
      refine ⟨_, _, node.state, rfl, ?_⟩
      rw [(h.nodes x node hnode).tip, stateAt, hnode]

/-- Only a node with a child is an ancestor of another one. -/
theorem exists_child_of_isAncestor (hx : (lineage.get x).isSome) (ha : lineage.isAncestor a x = true) (hne : a ≠ x) :
    ∃ y node, lineage.get y = some node ∧ node.prev = some a := by
  obtain ⟨l, hl⟩ := h.exists_ancestorIds hx
  rw [ancestorIds_eq_ok] at hl
  have hmem : a ∈ l :=
    (Ancestry.reaches_eq_true_iff hl ((Ancestry.chain_length_le hl).trans (Nat.le_succ _))).mp ha
  obtain ⟨y, hy⟩ := Ancestry.exists_child_of_mem_chain hl hmem hne
  exact ⟨y, (links_eq_some.mp hy).choose, (links_eq_some.mp hy).choose_spec⟩

theorem isAncestor_prev (hx : lineage.get x = some node) (hprev : node.prev = some a) :
    lineage.isAncestor a x = true := by
  obtain ⟨l, hl⟩ := h.exists_ancestorIds (Option.isSome_iff_exists.mpr ⟨node, hx⟩)
  rw [ancestorIds_eq_ok] at hl
  refine (Ancestry.reaches_eq_true_iff hl ((Ancestry.chain_length_le hl).trans (Nat.le_succ _))).mpr ?_
  obtain ⟨up, rest, hup, hrest, rfl⟩ := Ancestry.chain_eq_cons hl
  obtain ⟨node', hnode', rfl⟩ := links_eq_some.mp hup
  rw [hx] at hnode'
  cases hnode'
  rw [hprev] at hrest
  obtain ⟨-, rest', -, -, rfl⟩ := Ancestry.chain_eq_cons hrest
  exact List.mem_cons_of_mem _ List.mem_cons_self

end Sound

end GovernanceLineage

end IrohRooms.Governance
