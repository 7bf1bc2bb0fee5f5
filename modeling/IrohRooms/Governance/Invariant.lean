import IrohRooms.Governance.Resolution

/-!
# The invariant of the governance machine

The heads of a machine, its accepted tip or its open branches, are exactly the live nodes of its lineage: known,
without a child and not listed by a resolution. `Step` says what a call can do, `Inv.call_cases` that it does nothing
else, and `Inv.step` that every step keeps the invariant.
-/

namespace IrohRooms.Governance

variable {env : Env}

namespace GovernanceLineage

/-- A node that a branch can still grow from. -/
structure Live (lineage : GovernanceLineage) (id : GovernanceId) : Prop where
  known : (lineage.get id).isSome
  childless : ∀ y node, lineage.get y = some node → node.prev ≠ some id
  unsettled : ∀ y node r, lineage.get y = some node → node.evidence.body.payload.resolve? = some r →
    id ∉ r.branchHeads

variable {lineage : GovernanceLineage} {id x : GovernanceId} {node : LineageNode}

theorem Sound.insert (h : lineage.Sound env) (hnew : lineage.get id = none) (hnode : node.Sound env lineage id) :
    (lineage.insert id node).Sound env where
  tip := h.tip
  genesis := h.genesis
  nodes x n hx := by
    have hgrows : lineage.Grows (lineage.insert id node) := grows_insert hnew
    rw [get_insert] at hx
    split_ifs at hx with hxid
    · rw [hxid, ← Option.some.inj hx]
      exact hnode.mono hgrows
    · exact (h.nodes x n hx).mono hgrows

/-- A new node is live, and closes its parent and the heads it resolves. -/
theorem Sound.live_insert (h : lineage.Sound env) (hnew : lineage.get id = none) (hnode : node.Sound env lineage id) :
    (lineage.insert id node).Live x ↔
      x = id ∨ lineage.Live x ∧ node.prev ≠ some x ∧
        ∀ r, node.evidence.body.payload.resolve? = some r → x ∉ r.branchHeads := by
  have hsound := h.insert hnew hnode
  have hself : (lineage.insert id node).get id = some node := by rw [get_insert, if_pos rfl]
  have hkeep : ∀ y n, lineage.get y = some n → (lineage.insert id node).get y = some n := (grows_insert hnew).get
  have hunknown : ¬ (lineage.get id).isSome := by simp [hnew]
  constructor
  · intro hx
    by_cases hxid : x = id
    · exact .inl hxid
    · have hknown := hx.known
      rw [get_insert, if_neg hxid] at hknown
      exact .inr ⟨⟨hknown, fun y n hy => hx.childless y n (hkeep y n hy),
        fun y n r hy => hx.unsettled y n r (hkeep y n hy)⟩, hx.childless id node hself,
        fun r => hx.unsettled id node r hself⟩
  · rintro (rfl | ⟨hx, hprev, hres⟩)
    · refine ⟨by rw [hself]; rfl, fun y n hy hyn => ?_, fun y n r hy hr hmem => ?_⟩
      -- a child of the new node, or a resolution that lists it, would have known it before
      · rw [get_insert] at hy
        split_ifs at hy with hyx
        · obtain ⟨p, hp, -⟩ := hnode.step
          rw [Option.some.inj hy, hyn] at hp
          obtain ⟨up, hup, -⟩ := Option.map_eq_some_iff.mp hp
          exact hunknown (Option.isSome_iff_exists.mpr ⟨up, hup⟩)
        · obtain ⟨up, hup, -⟩ := h.known_prev hy hyn
          exact hunknown (Option.isSome_iff_exists.mpr ⟨up, hup⟩)
      · rw [get_insert] at hy
        split_ifs at hy with hyx
        · rw [← Option.some.inj hy] at hr
          obtain ⟨p, -, hstep⟩ := hnode.step
          exact hunknown ((hstep.resolution r hr).known x hmem)
        · obtain ⟨p, -, hstep⟩ := (h.nodes y n hy).step
          exact hunknown ((hstep.resolution r hr).known x hmem)
    · obtain ⟨n, hn⟩ := Option.isSome_iff_exists.mp hx.known
      refine ⟨by rw [hkeep x n hn]; rfl, fun y n hy => ?_, fun y n r hy => ?_⟩
      · rw [get_insert] at hy
        split_ifs at hy with hyid
        · rwa [← Option.some.inj hy]
        · exact hx.childless y n hy
      · rw [get_insert] at hy
        split_ifs at hy with hyid
        · rw [← Option.some.inj hy]
          exact hres r
        · exact hx.unsettled y n r hy

end GovernanceLineage

/-! ### Forked states -/

namespace GovernanceForkedState

/-- The branches, the evidence and the stable ancestor are those of the lineage. -/
structure Coherent (f : GovernanceForkedState) : Prop where
  states : ∀ h s, f.branches.get? h = some s → ∃ node, f.lineage.get h = some node ∧ node.state = s
  evidence : ∀ b, b ∈ f.evidence.branches ↔
    ∃ h ∈ f.branches.keys, ∃ node, f.lineage.get h = some node ∧ b = node.branchEvidence h
  two : ∃ a ∈ f.branches.keys, ∃ b ∈ f.branches.keys, a ≠ b
  stable : f.lineage.commonAncestorOf (OrdSet.ofList f.branches.keys) =
    .ok (f.evidence.stableTip, f.evidence.stableStateRoot)
  stableAt : f.lineage.stateAt f.evidence.stableTip = .ok f.stable
  community : f.evidence.communityId = f.stable.state.communityId

end GovernanceForkedState

section Build

variable {lineage : GovernanceLineage} {heads : OrdSet GovernanceId} {h : GovernanceId}

theorem mem_maximalHeads :
    h ∈ maximalHeads lineage heads ↔
      h ∈ heads ∧ ∀ other ∈ heads, h ≠ other → lineage.isAncestor h other = false := by
  rw [maximalHeads, OrdSet.mem_filter]
  simp [List.any_eq_false]

theorem exists_headNodes {l : List GovernanceId} (hl : ∀ x ∈ l, (lineage.get x).isSome) :
    ∃ nodes, headNodes lineage l = .ok nodes ∧ nodes.map Prod.fst = l ∧ ∀ e ∈ nodes, lineage.get e.1 = some e.2 := by
  induction l with
  | nil => exact ⟨[], rfl, rfl, by simp⟩
  | cons x l ih =>
    obtain ⟨nodes, hnodes, hfst, hget⟩ := ih fun y hy => hl y (List.mem_cons_of_mem _ hy)
    obtain ⟨node, hnode⟩ := Option.isSome_iff_exists.mp (hl x List.mem_cons_self)
    refine ⟨(x, node) :: nodes, ?_, by rw [List.map_cons, hfst], ?_⟩
    · rw [headNodes, hnode, hnodes]
      rfl
    · rintro e he
      rcases List.mem_cons.mp he with rfl | he
      · exact hnode
      · exact hget e he

theorem get?_foldl_insert {κ α β : Type} [LinearOrder κ] {h : κ} (f : α → β) {nodes : List (κ × α)}
    (hnodup : (nodes.map Prod.fst).Nodup) (m : OrdMap κ β) (hm : ∀ e ∈ nodes, m.get? e.1 = none) (s : β) :
    (nodes.foldl (fun m e => m.insert e.1 (f e.2)) m).get? h = some s ↔
      m.get? h = some s ∨ ∃ a, (h, a) ∈ nodes ∧ f a = s := by
  induction nodes generalizing m with
  | nil => simp
  | cons e nodes ih =>
    obtain ⟨hne, hnodup⟩ := List.nodup_cons.mp hnodup
    have hrest : ∀ e' ∈ nodes, (m.insert e.1 (f e.2)).get? e'.1 = none := fun e' he' => by
      rw [OrdMap.get?_insert, if_neg, hm e' (List.mem_cons_of_mem _ he')]
      exact fun heq => hne (List.mem_map.mpr ⟨e', he', heq⟩)
    rw [List.foldl_cons, ih hnodup _ hrest, OrdMap.get?_insert]
    have hnone := hm e List.mem_cons_self
    split_ifs with hhe
    · rw [hhe, hnone]
      constructor
      · rintro (hs | ⟨a, ha, hs⟩)
        · exact .inr ⟨e.2, List.mem_cons_self, Option.some.inj hs⟩
        · exact .inr ⟨a, List.mem_cons_of_mem _ ha, hs⟩
      · rintro (hs | ⟨a, ha, hs⟩)
        · exact absurd hs (by simp)
        · rcases List.mem_cons.mp ha with heq | ha
          · exact .inl (by rw [← hs, ← heq])
          · exact .inr ⟨a, ha, hs⟩
    · refine or_congr Iff.rfl (exists_congr fun a => and_congr_left fun _ => ?_)
      rw [List.mem_cons]
      exact ⟨.inr, fun ha => ha.resolve_left fun heq => hhe (congrArg Prod.fst heq)⟩

theorem two_le_length {a b : GovernanceId} (ha : a ∈ heads) (hb : b ∈ heads) (hne : a ≠ b) :
    2 ≤ heads.toList.length := by
  have hnodup : [a, b].Nodup := by simp [hne]
  have hsub : [a, b] ⊆ heads.toList := fun x hx => by
    rw [OrdSet.mem_toList]
    rcases List.mem_cons.mp hx with rfl | hx
    · exact ha
    · rwa [List.mem_singleton.mp hx]
  exact (List.subperm_of_subset hnodup hsub).length_le

/-- Two maximal heads make a forked state over exactly the maximal heads. -/
theorem exists_buildForkedState (hs : lineage.Sound env)
    (hmax : ∀ x ∈ maximalHeads lineage heads, (lineage.get x).isSome)
    (htwo : ∃ a ∈ maximalHeads lineage heads, ∃ b ∈ maximalHeads lineage heads, a ≠ b)
    (priorAudit : List GovernanceForkAuditRecord) (projectionPrior : ValidatedGovernanceState) :
    ∃ f, buildForkedState lineage heads priorAudit projectionPrior = .ok f ∧ f.lineage = lineage ∧
      f.priorAudit = priorAudit ∧ f.projectionPrior = projectionPrior ∧ f.Coherent ∧
      ∀ x, x ∈ f.branches.keys ↔ x ∈ maximalHeads lineage heads := by
  obtain ⟨a, ha, b, hb, hne⟩ := htwo
  have hlen := two_le_length ha hb hne
  obtain ⟨tip, root, stable, hcommon, hstable⟩ := hs.exists_commonAncestor
    (fun hnil => by rw [hnil] at hlen; simp at hlen) hmax
  have hknown : ∀ x ∈ (maximalHeads lineage heads).toList, (lineage.get x).isSome := fun x hx =>
    hmax x (OrdSet.mem_toList.mp hx)
  obtain ⟨nodes, hnodes, hfst, hget⟩ := exists_headNodes hknown
  have hnodup : (nodes.map Prod.fst).Nodup := hfst ▸ OrdMap.keys_nodup _
  have hbranch : ∀ x s, (nodes.foldl (fun m e => m.insert e.1 e.2.state) OrdMap.empty).get? x = some s ↔
      ∃ node, (x, node) ∈ nodes ∧ node.state = s := fun x s => by
    rw [get?_foldl_insert LineageNode.state hnodup OrdMap.empty (fun _ _ => OrdMap.get?_empty _)]
    simp
  have hkeys : ∀ x, x ∈ (nodes.foldl (fun m e => m.insert e.1 e.2.state) OrdMap.empty).keys ↔
      x ∈ maximalHeads lineage heads := fun x => by
    rw [OrdMap.mem_keys, Option.isSome_iff_exists, ← OrdSet.mem_toList, ← hfst, List.mem_map]
    constructor
    · rintro ⟨s, hs⟩
      obtain ⟨node, hmem, -⟩ := (hbranch x s).mp hs
      exact ⟨(x, node), hmem, rfl⟩
    · rintro ⟨e, he, rfl⟩
      exact ⟨e.2.state, (hbranch e.1 _).mpr ⟨e.2, he, rfl⟩⟩
  refine ⟨⟨stable, projectionPrior, nodes.foldl (fun m e => m.insert e.1 e.2.state) OrdMap.empty,
    ⟨stable.state.communityId, tip, root, nodes.map fun e => e.2.branchEvidence e.1⟩, priorAudit, lineage⟩,
    ?_, rfl, rfl, rfl, ⟨?_, ?_, ?_, ?_, hstable, rfl⟩, hkeys⟩
  · rw [buildForkedState]
    dsimp only
    rw [if_neg (by omega), hcommon]
    simp only [bind, Except.bind, hstable, hnodes]
    rfl
  · intro x s hx
    obtain ⟨node, hmem, hstate⟩ := (hbranch x s).mp hx
    exact ⟨node, hget _ hmem, hstate⟩
  · intro e
    rw [List.mem_map]
    constructor
    · rintro ⟨⟨x, node⟩, hmem, rfl⟩
      refine ⟨x, (hkeys x).mpr ?_, node, hget _ hmem, rfl⟩
      rw [← OrdSet.mem_toList, ← hfst]
      exact List.mem_map.mpr ⟨_, hmem, rfl⟩
    · rintro ⟨x, hx, node, hnode, rfl⟩
      rw [hkeys, ← OrdSet.mem_toList, ← hfst] at hx
      obtain ⟨⟨y, n⟩, hmem, rfl⟩ := List.mem_map.mp hx
      have : some n = some node := (hget _ hmem).symm.trans hnode
      exact ⟨(y, n), hmem, by rw [Option.some.inj this]⟩
  · exact ⟨a, (hkeys a).mpr ha, b, (hkeys b).mpr hb, hne⟩
  · have hset : OrdSet.ofList (nodes.foldl (fun m e => m.insert e.1 e.2.state) OrdMap.empty).keys =
        maximalHeads lineage heads := OrdSet.ext_mem fun x => by rw [OrdSet.mem_ofList, hkeys]
    dsimp only
    rw [hset, hcommon]

end Build

/-! ### Steps -/

/-- What an accepted entry does to the machine. -/
inductive Step : GovernanceMachine → Call env → GovernanceMachine → Prop
  | advance {l : LinearGovernanceState} {e : VerifiedGovernanceEntry env} {next : GovernanceState}
      (hnew : l.lineage.get e.id = none) (hauth : Authorised l.accepted e next) :
      Step (.linear l) (.observe e)
        (.linear ⟨(e.node next).state, l.lineage.insert e.id (e.node next), l.audit⟩)
  | fork {l : LinearGovernanceState} {e : VerifiedGovernanceEntry env} {p : ValidatedGovernanceState}
      {next : GovernanceState} {f : GovernanceForkedState} (hnew : l.lineage.get e.id = none)
      (hp : l.lineage.pred e.body.prev = some p) (hne : e.body.prev ≠ l.accepted.tip.id?) (hauth : Authorised p e next)
      (hlineage : f.lineage = l.lineage.insert e.id (e.node next)) (haudit : f.priorAudit = l.audit)
      (hprior : f.projectionPrior = l.accepted) (hcoherent : f.Coherent)
      (hheads : ∀ x, x ∈ f.branches.keys ↔ f.lineage.Live x) :
      Step (.linear l) (.observe e) (.governanceForked f)
  | grow {f f' : GovernanceForkedState} {e : VerifiedGovernanceEntry env} {p : ValidatedGovernanceState}
      {next : GovernanceState} (hnew : f.lineage.get e.id = none) (hp : f.lineage.pred e.body.prev = some p)
      (hauth : Authorised p e next) (hlineage : f'.lineage = f.lineage.insert e.id (e.node next))
      (haudit : f'.priorAudit = f.priorAudit) (hprior : f'.projectionPrior = f.projectionPrior)
      (hcoherent : f'.Coherent) (hheads : ∀ x, x ∈ f'.branches.keys ↔ f'.lineage.Live x) :
      Step (.governanceForked f) (.ingest e) (.governanceForked f')
  | resolve {f : GovernanceForkedState} {e : VerifiedGovernanceEntry env} {r : ForkResolve}
      {selected : ValidatedGovernanceState} {resolved : GovernanceState} (hres : Resolution f e r selected resolved) :
      Step (.governanceForked f) (.observe e)
        (.linear ⟨(e.node resolved).state, f.lineage.insert e.id (e.node resolved),
          f.priorAudit ++ [f.resolvedRecord e r]⟩)

/-- Whichever way an entry opens or grows a fork, it adds its node and leaves the live nodes as branches. -/
theorem Step.forked_inv {m : GovernanceMachine} {c : Call env} {f : GovernanceForkedState}
    (h : Step m c (.governanceForked f)) :
    ∃ p next, m.lineage.pred c.entry.body.prev = some p ∧ Authorised p c.entry next ∧
      f.lineage = m.lineage.insert c.entry.id (c.entry.node next) ∧ f.priorAudit = m.closedAudit ∧ f.Coherent ∧
      ∀ x, x ∈ f.branches.keys ↔ f.lineage.Live x := by
  rcases h with _ | ⟨_, hp, _, hauth, hlineage, haudit, _, hcoherent, hheads⟩ |
    ⟨_, hp, hauth, hlineage, haudit, _, hcoherent, hheads⟩
  · exact ⟨_, _, hp, hauth, hlineage, haudit, hcoherent, hheads⟩
  · exact ⟨_, _, hp, hauth, hlineage, haudit, hcoherent, hheads⟩

/-! ### The invariant -/

namespace GovernanceMachine

/-- The accepted tip, or the open branches. -/
def heads : GovernanceMachine → OrdSet GovernanceId
  | linear l => OrdSet.ofList l.accepted.tip.id?.toList
  | governanceForked f => OrdSet.ofList f.branches.keys

/-- What the mode keeps is what the lineage says, and the tip is the genesis only before the first entry. -/
def Mode : GovernanceMachine → Prop
  | linear l => l.lineage.pred l.accepted.tip.id? = some l.accepted ∧
    (l.accepted.tip = .genesis → ∀ id, l.lineage.get id = none)
  | governanceForked f => f.Coherent

/-- The invariant of a machine that was given the entries of `E`. -/
structure Inv (E : Set (VerifiedGovernanceEntry env)) (m : GovernanceMachine) : Prop where
  sound : m.lineage.Sound env
  origin : ∀ id node, m.lineage.get id = some node → ∃ e ∈ E, node.evidence = e.evidence
  live : ∀ id, id ∈ m.heads ↔ m.lineage.Live id
  mode : m.Mode

end GovernanceMachine

/-- Entries with one id have one body: no two of the hashes collide. -/
def CollisionFree (E : Set (VerifiedGovernanceEntry env)) : Prop :=
  ∀ x ∈ E, ∀ y ∈ E, x.id = y.id → x.body = y.body

/-! ### Steps keep the invariant -/

section Nodes

variable {lineage : GovernanceLineage} {e : VerifiedGovernanceEntry env} {p : ValidatedGovernanceState}
  {next : GovernanceState}

theorem Authorised.node_sound (hs : lineage.Sound env) (hp : lineage.pred e.body.prev = some p)
    (hauth : Authorised p e next) : (e.node next).Sound env lineage e.id where
  entry := rfl
  seq := rfl
  prev := rfl
  verified := e.verified
  tip := rfl
  community := (applyEntry_communityId hauth.apply).trans (hs.pred_community hp)
  target := hauth.community.trans (hs.pred_community hp)
  root := hauth.root.symm
  declared := rfl
  step := by
    refine ⟨p, hp, hauth.seq, hauth.apply, fun _ => ⟨hauth.config, hauth.quorum⟩, fun r hr => ?_⟩
    have hord : e.evidence.body.payload.resolve? = none := hauth.ordinary
    exact absurd (hord.symm.trans hr) (by simp)

variable {f : GovernanceForkedState} {r : ForkResolve} {selected : ValidatedGovernanceState}
  {resolved : GovernanceState}

theorem Resolution.prev_eq (hs : f.lineage.Sound env) (hf : f.Coherent) (h : Resolution f e r selected resolved) :
    e.body.prev = some r.selectedHead := by
  obtain ⟨node, hnode, rfl⟩ := hf.states _ _ h.branch
  rw [h.back, (hs.nodes _ _ hnode).tip]
  rfl

theorem Resolution.pred_eq (hs : f.lineage.Sound env) (hf : f.Coherent) (h : Resolution f e r selected resolved) :
    f.lineage.pred e.body.prev = some selected := by
  obtain ⟨node, hnode, hstate⟩ := hf.states _ _ h.branch
  rw [h.prev_eq hs hf, GovernanceLineage.pred, hnode, ← hstate]
  rfl

theorem Resolution.node_sound (hs : f.lineage.Sound env) (hf : f.Coherent)
    (h : Resolution f e r selected resolved) : (e.node resolved).Sound env f.lineage e.id where
  entry := rfl
  seq := rfl
  prev := rfl
  verified := e.verified
  tip := rfl
  community := (applyEntry_communityId h.apply).trans (hs.pred_community (h.pred_eq hs hf))
  target := (h.community.trans hf.community).trans (hs.stateAt_community hf.stableAt)
  root := h.root.symm
  declared := rfl
  step := by
    refine ⟨selected, h.pred_eq hs hf, h.seq, h.apply, fun hnone => ?_, fun r' hr' => ?_⟩
    · exact absurd (hnone.symm.trans h.payload) (by simp)
    · obtain rfl : r' = r := Option.some.inj (hr'.symm.trans h.payload)
      refine ⟨h.prev_eq hs hf, fun x hx => ?_, f.stable, ?_, h.config, h.quorum⟩
      · obtain ⟨s, hs'⟩ := Option.isSome_iff_exists.mp (OrdMap.mem_keys.mp ((h.heads x).mp hx))
        obtain ⟨node, hnode, -⟩ := hf.states x s hs'
        exact Option.isSome_iff_exists.mpr ⟨node, hnode⟩
      · have hset : OrdSet.ofList r'.branchHeads = OrdSet.ofList f.branches.keys :=
          OrdSet.ext_mem fun x => by rw [OrdSet.mem_ofList, OrdSet.mem_ofList, h.heads]
        exact ⟨_, _, hset ▸ hf.stable, hf.stableAt⟩

end Nodes

namespace GovernanceMachine

variable {E : Set (VerifiedGovernanceEntry env)} {m m' : GovernanceMachine} {c : Call env}
  {e : VerifiedGovernanceEntry env} {next : GovernanceState}

/-- The lineage with one more node is as good as before, whatever the mode. -/
theorem Inv.insert (inv : m.Inv E) (he : e ∈ E) (hnew : m.lineage.get e.id = none)
    (hnode : (e.node next).Sound env m.lineage e.id) (hlineage : m'.lineage = m.lineage.insert e.id (e.node next))
    (hlive : ∀ id, id ∈ m'.heads ↔ (m.lineage.insert e.id (e.node next)).Live id) (hmode : m'.Mode) : m'.Inv E where
  sound := hlineage ▸ inv.sound.insert hnew hnode
  origin id node hget := by
    rw [hlineage, GovernanceLineage.get_insert] at hget
    split_ifs at hget with hid
    · exact ⟨e, he, by rw [← Option.some.inj hget]; rfl⟩
    · exact inv.origin id node hget
  live := hlineage ▸ hlive
  mode := hmode

/-- A resolution is never known before: its parent is still without a child. -/
theorem Inv.resolution_new {f : GovernanceForkedState} {r : ForkResolve} {selected : ValidatedGovernanceState}
    {resolved : GovernanceState} (inv : (governanceForked f).Inv E) (hE : CollisionFree E) (he : e ∈ E)
    (h : Resolution f e r selected resolved) : f.lineage.get e.id = none := by
  rw [Option.eq_none_iff_forall_not_mem]
  intro node hnode
  obtain ⟨e', he', hevid⟩ := inv.origin e.id node hnode
  have hsound := inv.sound.nodes e.id node hnode
  have hid : e'.id = e.id := by rw [VerifiedGovernanceEntry.id, ← hevid, hsound.entry]
  have hbody : node.evidence.body = e.body := by rw [hevid]; exact hE e' he' e he hid
  have hlive : f.lineage.Live r.selectedHead :=
    (inv.live _).mp (OrdSet.mem_ofList.mpr (OrdMap.mem_keys.mpr (by rw [h.branch]; rfl)))
  apply hlive.childless e.id node hnode
  rw [hsound.prev, hbody, h.prev_eq inv.sound inv.mode]

theorem Inv.step (inv : m.Inv E) (hE : CollisionFree E) (hc : c.entry ∈ E) (h : Step m c m') : m'.Inv E := by
  rcases h with ⟨hnew, hauth⟩ | ⟨hnew, hp, hne, hauth, hlineage, -, -, hcoherent, hheads⟩ |
    ⟨hnew, hp, hauth, hlineage, -, -, hcoherent, hheads⟩ | ⟨hres⟩
  · rename_i l e next
    have he : e ∈ E := hc
    have hs : l.lineage.Sound env := inv.sound
    have hp : l.lineage.pred e.body.prev = some l.accepted := hauth.back ▸ inv.mode.1
    have hnode := hauth.node_sound hs hp
    refine inv.insert he hnew hnode rfl (fun id => ?_) ?_
    · show id ∈ OrdSet.ofList [e.id] ↔ (l.lineage.insert e.id (e.node next)).Live id
      rw [hs.live_insert hnew hnode, OrdSet.mem_ofList, List.mem_singleton]
      refine ⟨.inl, ?_⟩
      rintro (rfl | ⟨hlive, hprev, -⟩)
      · rfl
      · have hmem := (inv.live id).mpr hlive
        rw [heads, OrdSet.mem_ofList, Option.mem_toList, ← hauth.back] at hmem
        exact absurd hmem hprev
    · refine ⟨?_, fun h => absurd h (by simp [VerifiedGovernanceEntry.node])⟩
      show GovernanceLineage.pred _ (some e.id) = _
      rw [GovernanceLineage.pred, GovernanceLineage.get_insert, if_pos rfl]
      rfl
  · refine inv.insert hc hnew (hauth.node_sound inv.sound hp) hlineage (fun id => ?_) hcoherent
    rw [heads, OrdSet.mem_ofList, hheads, hlineage]
    rfl
  · refine inv.insert hc hnew (hauth.node_sound inv.sound hp) hlineage (fun id => ?_) hcoherent
    rw [heads, OrdSet.mem_ofList, hheads, hlineage]
    rfl
  · rename_i f e r selected resolved
    have he : e ∈ E := hc
    have hs : f.lineage.Sound env := inv.sound
    have hnew := inv.resolution_new hE he hres
    have hnode := hres.node_sound hs inv.mode
    refine inv.insert he hnew hnode rfl (fun id => ?_) ?_
    · show id ∈ OrdSet.ofList [e.id] ↔ (f.lineage.insert e.id (e.node resolved)).Live id
      rw [hs.live_insert hnew hnode, OrdSet.mem_ofList, List.mem_singleton]
      refine ⟨.inl, ?_⟩
      rintro (rfl | ⟨hlive, -, hres'⟩)
      · rfl
      · have hmem := (inv.live id).mpr hlive
        rw [heads, OrdSet.mem_ofList, ← hres.heads] at hmem
        exact absurd hmem (hres' r hres.payload)
    · refine ⟨?_, fun h => absurd h (by simp [VerifiedGovernanceEntry.node])⟩
      show GovernanceLineage.pred _ (some e.id) = _
      rw [GovernanceLineage.pred, GovernanceLineage.get_insert, if_pos rfl]
      rfl

end GovernanceMachine

/-! ### What a call does -/

theorem predecessorForLineage_eq (lineage : GovernanceLineage) (e : VerifiedGovernanceEntry env) :
    predecessorForLineage lineage e.body.prev e.body.seq =
      match lineage.pred e.body.prev with
      | some p => .ok p
      | none => .error .missingDependency := by
  have hprev : e.body.prev = none ↔ e.body.seq = 1 := e.verified.body.prev
  rcases hp : e.body.prev with _ | id
  · simp [predecessorForLineage, GovernanceLineage.pred, hprev.mp hp]
  · have hseq : e.body.seq ≠ 1 := fun h => by
      rw [hprev.mpr h] at hp
      exact absurd hp (by simp)
    simp only [predecessorForLineage, GovernanceLineage.pred, if_neg hseq]
    rcases lineage.get id with _ | node <;> rfl

namespace GovernanceLineage

/-- The entry is new, its predecessor is retained and authorizes it. -/
def Admits (lineage : GovernanceLineage) (e : VerifiedGovernanceEntry env) : Prop :=
  lineage.get e.id = none ∧ ∃ p next, lineage.pred e.body.prev = some p ∧ Authorised p e next

variable {lineage : GovernanceLineage} {e : VerifiedGovernanceEntry env} {p : ValidatedGovernanceState}
  {next : GovernanceState} {heads : OrdSet GovernanceId}

/-- After the insertion of an ordinary entry, the maximal ones among the old heads and the entry are the live nodes. -/
theorem Sound.mem_maximalHeads_insert (hs : lineage.Sound env) (hlive : ∀ x, x ∈ heads ↔ lineage.Live x)
    (hnew : lineage.get e.id = none) (hp : lineage.pred e.body.prev = some p) (hauth : Authorised p e next)
    (x : GovernanceId) :
    x ∈ maximalHeads (lineage.insert e.id (e.node next)) (heads.add e.id) ↔
      (lineage.insert e.id (e.node next)).Live x := by
  have hnode := hauth.node_sound hs hp
  have hs' := hs.insert hnew hnode
  have hself : (lineage.insert e.id (e.node next)).get e.id = some (e.node next) := by rw [get_insert, if_pos rfl]
  rw [mem_maximalHeads]
  constructor
  · rintro ⟨hx, hmax⟩
    rw [hs.live_insert hnew hnode]
    refine (OrdSet.mem_add.mp hx).imp id fun hx => ⟨(hlive x).mp hx, fun hprev => ?_, fun r hr => ?_⟩
    · -- a parent of the new entry is an ancestor of it
      have hne : x ≠ e.id := fun h => by
        have hknown := ((hlive x).mp hx).known
        rw [h, hnew] at hknown
        exact absurd hknown (by simp)
      have hanc := hs'.isAncestor_prev hself hprev
      rw [hmax e.id (OrdSet.mem_add.mpr (.inl rfl)) hne] at hanc
      exact absurd hanc (by simp)
    · have hord : (e.node next).evidence.body.payload.resolve? = none := hauth.ordinary
      exact absurd (hord.symm.trans hr) (by simp)
  · intro hx
    have hmem : ∀ y, (lineage.insert e.id (e.node next)).Live y → y ∈ heads.add e.id := fun y hy => by
      rw [OrdSet.mem_add, hlive]
      exact ((hs.live_insert hnew hnode).mp hy).imp id fun h => h.1
    refine ⟨hmem x hx, fun other hother hne => ?_⟩
    have hknown : ((lineage.insert e.id (e.node next)).get other).isSome := by
      rcases OrdSet.mem_add.mp hother with rfl | hother
      · rw [hself]
        rfl
      · obtain ⟨n, hn⟩ := Option.isSome_iff_exists.mp ((hlive other).mp hother).known
        exact Option.isSome_iff_exists.mpr ⟨n, (grows_insert hnew).get other n hn⟩
    refine Bool.eq_false_iff.mpr fun hanc => ?_
    obtain ⟨y, n, hy, hprev⟩ := hs'.exists_child_of_isAncestor hknown hanc hne
    exact hx.childless y n hy hprev

/-- A new authorized entry opens a branch, unless it is alone. -/
theorem Sound.exists_forked (hs : lineage.Sound env) (hlive : ∀ x, x ∈ heads ↔ lineage.Live x)
    (hnew : lineage.get e.id = none) (hp : lineage.pred e.body.prev = some p) (hauth : Authorised p e next)
    {a : GovernanceId} (ha : lineage.Live a) (hne : e.body.prev ≠ some a)
    (priorAudit : List GovernanceForkAuditRecord) (projectionPrior : ValidatedGovernanceState) :
    ∃ f, buildForkedState (lineage.insert e.id (e.node next)) (heads.add e.id) priorAudit projectionPrior = .ok f ∧
      f.lineage = lineage.insert e.id (e.node next) ∧ f.priorAudit = priorAudit ∧
      f.projectionPrior = projectionPrior ∧ f.Coherent ∧ ∀ x, x ∈ f.branches.keys ↔ f.lineage.Live x := by
  have hnode := hauth.node_sound hs hp
  have hmax := hs.mem_maximalHeads_insert hlive hnew hp hauth
  have hliveA : (lineage.insert e.id (e.node next)).Live a := by
    refine (hs.live_insert hnew hnode).mpr (.inr ⟨ha, hne, fun r hr => ?_⟩)
    have hord : (e.node next).evidence.body.payload.resolve? = none := hauth.ordinary
    exact absurd (hord.symm.trans hr) (by simp)
  have hliveE : (lineage.insert e.id (e.node next)).Live e.id := (hs.live_insert hnew hnode).mpr (.inl rfl)
  have hae : a ≠ e.id := fun h => by
    have hknown := ha.known
    rw [h, hnew] at hknown
    exact absurd hknown (by simp)
  obtain ⟨f, hf, hlineage, haudit, hprior, hcoherent, hkeys⟩ := exists_buildForkedState (hs.insert hnew hnode)
    (fun x hx => ((hmax x).mp hx).known) ⟨a, (hmax a).mpr hliveA, e.id, (hmax e.id).mpr hliveE, hae⟩ priorAudit
    projectionPrior
  refine ⟨f, hf, hlineage, haudit, hprior, hcoherent, fun x => ?_⟩
  rw [hkeys, hmax, hlineage]

end GovernanceLineage

def GovernanceObservation.Accepting : GovernanceObservation → Prop
  | duplicate _ => False
  | _ => True

namespace GovernanceMachine

/-- The call will be accepted: an ordinary entry that the lineage admits, through the call of its mode, or a resolution
of the fork. -/
def Applicable : GovernanceMachine → Call env → Prop
  | linear l, .observe e => l.lineage.Admits e
  | linear _, .ingest _ => False
  | governanceForked f, .observe e => ∃ r selected resolved, Resolution f e r selected resolved
  | governanceForked f, .ingest e => f.lineage.Admits e

variable {E : Set (VerifiedGovernanceEntry env)} {m : GovernanceMachine} {l : LinearGovernanceState}
  {f : GovernanceForkedState} {e : VerifiedGovernanceEntry env} {p : ValidatedGovernanceState} {next : GovernanceState}

theorem contains_eq {lineage : GovernanceLineage} {id : GovernanceId} :
    lineage.nodes.contains id = (lineage.get id).isSome := rfl

theorem Inv.observeLinear_advance (inv : (linear l).Inv E) (hnew : l.lineage.get e.id = none)
    (hauth : Authorised l.accepted e next) :
    observeLinear l e = (.ok (none, .advanced (e.node next).state.tip (e.node next).state.committedStateRoot),
      ⟨(e.node next).state, l.lineage.insert e.id (e.node next), l.audit⟩) := by
  have hp : l.lineage.pred e.body.prev = some l.accepted := hauth.back ▸ inv.mode.1
  have hs : l.lineage.Sound env := inv.sound
  rw [observeLinear, if_neg (by simp [hauth.ordinary]), if_neg (by simp [contains_eq, hnew]),
    predecessorForLineage_eq, hp]
  dsimp only
  rw [(validateCandidate_eq_ok (hs.pred_wellFormed hp)).mpr ⟨next, hauth, rfl⟩]
  dsimp only
  rw [if_neg (by simp)]
  rfl

theorem Inv.observeLinear_fork (inv : (linear l).Inv E) (hnew : l.lineage.get e.id = none)
    (hp : l.lineage.pred e.body.prev = some p) (hne : e.body.prev ≠ l.accepted.tip.id?) (hauth : Authorised p e next) :
    ∃ f, observeLinear l e = (.ok (some f, .forkDetected f.evidence), l) ∧
      Step (.linear l) (.observe e) (.governanceForked f) := by
  have hs : l.lineage.Sound env := inv.sound
  have htip : p.tip ≠ l.accepted.tip := fun h => hne (by rw [← h, hs.pred_tip hp])
  rw [observeLinear, if_neg (by simp [hauth.ordinary]), if_neg (by simp [contains_eq, hnew]),
    predecessorForLineage_eq, hp]
  dsimp only
  rw [(validateCandidate_eq_ok (hs.pred_wellFormed hp)).mpr ⟨next, hauth, rfl⟩]
  dsimp only
  rw [if_pos htip, enterForkedFromLinear]
  rcases haccepted : l.accepted.tip with _ | ⟨seq, a⟩
  · -- at the genesis there is no other predecessor
    have hempty := inv.mode.2 haccepted
    rw [haccepted] at hne
    obtain ⟨x, hx⟩ := Option.ne_none_iff_exists'.mp hne
    rw [hx] at hp
    obtain ⟨node, hnode, -⟩ := Option.map_eq_some_iff.mp hp
    exact absurd ((hempty x).symm.trans hnode) (by simp)
  · have hlive : ∀ x, x ∈ OrdSet.ofList [a] ↔ l.lineage.Live x := fun x => by
      have := inv.live x
      rwa [heads, haccepted] at this
    have ha : l.lineage.Live a := (hlive a).mp (by simp)
    rw [haccepted] at hne
    obtain ⟨f, hf, hlineage, haudit, hprior, hcoherent, hkeys⟩ :=
      hs.exists_forked hlive hnew hp hauth ha hne l.audit l.accepted
    refine ⟨f, ?_, .fork hnew hp (haccepted ▸ hne) hauth hlineage haudit hprior hcoherent hkeys⟩
    have hbuild : buildForkedState (l.lineage.insertCandidate
        ⟨p, ⟨next, .entry e.body.seq e.id, e.body.stateRoot⟩, e.evidence⟩)
        (OrdSet.ofList [a, e.evidence.id]) l.audit l.accepted = .ok f := hf
    dsimp only
    rw [hbuild]

/-- A new entry that a sound lineage does not admit is no candidate over the snapshot it follows. -/
theorem exists_error_of_not_admits {lineage : GovernanceLineage} (hs : lineage.Sound env) (hnot : ¬ lineage.Admits e)
    (hnew : lineage.get e.id = none) (hp : lineage.pred e.body.prev = some p) :
    ∃ x, validateCandidate p e = .error x := by
  rcases hc : validateCandidate p e with x | c
  · exact ⟨x, rfl⟩
  · obtain ⟨next, hauth, -⟩ := (validateCandidate_eq_ok (hs.pred_wellFormed hp)).mp hc
    exact absurd ⟨hnew, p, next, hp, hauth⟩ hnot

theorem Inv.observeLinear_refuse (inv : (linear l).Inv E) (hnot : ¬ l.lineage.Admits e) :
    (∃ x, observeLinear l e = (.error x, l)) ∨ observeLinear l e = (.ok (none, .duplicate e.id), l) := by
  have hs : l.lineage.Sound env := inv.sound
  rw [observeLinear]
  split_ifs with h₁ h₂
  · exact .inl ⟨_, rfl⟩
  · exact .inr rfl
  · left
    have hnew : l.lineage.get e.id = none := by simpa [contains_eq] using h₂
    rw [predecessorForLineage_eq]
    rcases hp : l.lineage.pred e.body.prev with _ | p
    · exact ⟨_, rfl⟩
    · obtain ⟨x, hx⟩ := exists_error_of_not_admits hs hnot hnew hp
      dsimp only
      rw [hx]
      exact ⟨x, rfl⟩

theorem Inv.ingest_grow (inv : (governanceForked f).Inv E) (hnew : f.lineage.get e.id = none)
    (hp : f.lineage.pred e.body.prev = some p) (hauth : Authorised p e next) :
    ∃ f', ingestBranchEvidence (.governanceForked f) e = (.ok (.forkDetected f'.evidence), .governanceForked f') ∧
      Step (.governanceForked f) (.ingest e) (.governanceForked f') := by
  have hs : f.lineage.Sound env := inv.sound
  have hcoh : f.Coherent := inv.mode
  obtain ⟨a, ha, b, hb, hab⟩ := hcoh.two
  -- of two branches one is not the parent
  obtain ⟨x, hx, hne⟩ : ∃ x ∈ f.branches.keys, e.body.prev ≠ some x := by
    by_cases hea : e.body.prev = some a
    · exact ⟨b, hb, fun h => hab (Option.some.inj (hea.symm.trans h))⟩
    · exact ⟨a, ha, hea⟩
  have hlive := inv.live
  obtain ⟨f', hf', hlineage, haudit, hprior, hcoherent, hkeys⟩ := hs.exists_forked hlive hnew hp hauth
    ((hlive x).mp (OrdSet.mem_ofList.mpr hx)) hne f.priorAudit f.projectionPrior
  refine ⟨f', ?_, .grow hnew hp hauth hlineage haudit hprior hcoherent hkeys⟩
  have hbuild : buildForkedState (f.lineage.insertCandidate
      ⟨p, ⟨next, .entry e.body.seq e.id, e.body.stateRoot⟩, e.evidence⟩)
      ((OrdSet.ofList f.branches.keys).add e.evidence.id) f.priorAudit f.projectionPrior = .ok f' := hf'
  rw [ingestBranchEvidence, if_neg (by simp [hauth.ordinary]), if_neg (by simp [contains_eq, hnew]),
    predecessorForLineage_eq, hp]
  dsimp only
  rw [(validateCandidate_eq_ok (hs.pred_wellFormed hp)).mpr ⟨next, hauth, rfl⟩]
  dsimp only
  rw [hbuild]

theorem Inv.ingest_refuse (inv : (governanceForked f).Inv E) (hnot : ¬ f.lineage.Admits e) :
    (∃ x, ingestBranchEvidence (.governanceForked f) e = (.error x, .governanceForked f)) ∨
      ingestBranchEvidence (.governanceForked f) e = (.ok (.duplicate e.id), .governanceForked f) := by
  have hs : f.lineage.Sound env := inv.sound
  rw [ingestBranchEvidence]
  split_ifs with h₁ h₂
  · exact .inl ⟨_, rfl⟩
  · exact .inr rfl
  · left
    have hnew : f.lineage.get e.id = none := by simpa [contains_eq] using h₂
    rw [predecessorForLineage_eq]
    rcases hp : f.lineage.pred e.body.prev with _ | p
    · exact ⟨_, rfl⟩
    · obtain ⟨x, hx⟩ := exists_error_of_not_admits hs hnot hnew hp
      dsimp only
      rw [hx]
      exact ⟨x, rfl⟩

theorem observeForked_eq_ok {l : LinearGovernanceState} :
    observeForked f e = .ok l ↔
      ∃ r selected resolved, Resolution f e r selected resolved ∧
        l = ⟨(e.node resolved).state, f.lineage.insert e.id (e.node resolved),
          f.priorAudit ++ [f.resolvedRecord e r]⟩ := by
  rw [observeForked]
  split_ifs with h
  · refine iff_of_false (by simp) ?_
    rintro ⟨r, selected, resolved, hres, -⟩
    rw [hres.payload] at h
    exact absurd h (by simp)
  · exact validateAndCommitResolution_eq_ok

/-- A call is accepted and makes a step, or it leaves the machine as it is. -/
theorem Inv.call_cases (inv : m.Inv E) (c : Call env) :
    (m.Applicable c ∧ Step m c (m.call c).2 ∧ ∃ obs, (m.call c).1 = .ok obs ∧ obs.Accepting) ∨
      (¬ m.Applicable c ∧ (m.call c).2 = m ∧ ∀ obs, (m.call c).1 = .ok obs → ¬ obs.Accepting) := by
  rcases m with l | f <;> rcases c with e | e
  · by_cases hadm : l.lineage.Admits e
    · left
      obtain ⟨hnew, p, next, hp, hauth⟩ := hadm
      by_cases hprev : e.body.prev = l.accepted.tip.id?
      · obtain rfl : l.accepted = p := Option.some.inj (inv.mode.1.symm.trans (hprev ▸ hp))
        rw [call, observeCommitted, inv.observeLinear_advance hnew hauth]
        exact ⟨⟨hnew, _, next, hp, hauth⟩, .advance hnew hauth, _, rfl, trivial⟩
      · obtain ⟨f, hf, hstep⟩ := inv.observeLinear_fork hnew hp hprev hauth
        rw [call, observeCommitted, hf]
        exact ⟨⟨hnew, p, next, hp, hauth⟩, hstep, _, rfl, trivial⟩
    · right
      refine ⟨hadm, ?_⟩
      rcases inv.observeLinear_refuse hadm with ⟨x, hx⟩ | hx <;> rw [call, observeCommitted, hx]
      · exact ⟨rfl, fun obs hobs => absurd hobs (by simp [Except.map])⟩
      · exact ⟨rfl, fun obs hobs => by rw [← Except.ok.inj hobs]; exact id⟩
  · exact .inr ⟨id, rfl, fun obs hobs => absurd hobs (by simp [call, ingestBranchEvidence])⟩
  · rcases hl : observeForked f e with x | l
    · right
      refine ⟨?_, ?_⟩
      · rintro ⟨r, selected, resolved, hres⟩
        rw [observeForked_eq_ok.mpr ⟨r, selected, resolved, hres, rfl⟩] at hl
        exact absurd hl (by simp)
      · rw [call, observeCommitted, hl]
        exact ⟨rfl, fun obs hobs => absurd hobs (by simp [Except.map])⟩
    · left
      obtain ⟨r, selected, resolved, hres, rfl⟩ := observeForked_eq_ok.mp hl
      rw [call, observeCommitted, hl]
      exact ⟨⟨r, selected, resolved, hres⟩, .resolve hres, _, rfl, trivial⟩
  · by_cases hadm : f.lineage.Admits e
    · left
      obtain ⟨hnew, p, next, hp, hauth⟩ := hadm
      obtain ⟨f', hf', hstep⟩ := inv.ingest_grow hnew hp hauth
      rw [call, hf']
      exact ⟨⟨hnew, p, next, hp, hauth⟩, hstep, _, rfl, trivial⟩
    · right
      refine ⟨hadm, ?_⟩
      rcases inv.ingest_refuse hadm with ⟨x, hx⟩ | hx <;> rw [call, hx]
      · exact ⟨rfl, fun obs hobs => absurd hobs (by simp)⟩
      · exact ⟨rfl, fun obs hobs => by rw [← Except.ok.inj hobs]; exact id⟩

end GovernanceMachine

end IrohRooms.Governance
