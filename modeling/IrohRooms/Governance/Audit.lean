import Mathlib.Logic.Relation
import IrohRooms.Governance.Exactness

/-!
# Fork evidence over a run

The audit shows one record per fork, and the record of an open fork shows its current heads. `Settled` says that the
records of closed forks keep retained nodes from which no branch can grow any more. It decides what a step does to the
evidence: nothing is lost, except that a branch that grows in an open fork takes the place of its former head.
-/

namespace IrohRooms.Governance

section Audit

variable {env : Env}

/-- What the audit keeps of a branch: the exact bytes of its entry, their signature and the approvals. -/
def GovernanceBranchEvidence.item (b : GovernanceBranchEvidence) :
    Bytes × Signature × List VerifiedGovernanceApprovalEvidence :=
  (b.entry.csb, b.entry.signature, b.entry.approvals)

/-- The branches of the records are retained nodes, and none of them is live. -/
def GovernanceLineage.Settled (lineage : GovernanceLineage) (records : List GovernanceForkAuditRecord) : Prop :=
  ∀ record ∈ records, ∀ b ∈ record.branches,
    ∃ node, lineage.get b.head = some node ∧ b = node.branchEvidence b.head ∧ ¬ lineage.Live b.head

theorem GovernanceLineage.Settled.insert {lineage : GovernanceLineage} {records : List GovernanceForkAuditRecord}
    {id : GovernanceId} {node : LineageNode} (h : lineage.Settled records) (hs : lineage.Sound env)
    (hnew : lineage.get id = none) (hnode : node.Sound env lineage id) : (lineage.insert id node).Settled records := by
  intro record hrecord b hb
  obtain ⟨n, hn, heq, hdead⟩ := h record hrecord b hb
  refine ⟨n, (grows_insert hnew).get _ _ hn, heq, fun hlive => ?_⟩
  rcases (hs.live_insert hnew hnode).mp hlive with hid | ⟨hbefore, -⟩
  · rw [hid, hnew] at hn
    exact absurd hn (by simp)
  · exact hdead hbefore

/-- In a sound lineage the signed bytes determine the node. -/
theorem GovernanceLineage.Sound.head_eq_of_item_eq {lineage : GovernanceLineage} (hs : lineage.Sound env)
    {x y : GovernanceId} {n n' : LineageNode} (hx : lineage.get x = some n) (hy : lineage.get y = some n')
    (h : (n.branchEvidence x).item = (n'.branchEvidence y).item) : x = y := by
  have hcsb : n.evidence.csb = n'.evidence.csb := congrArg Prod.fst h
  have hsx := hs.nodes x n hx
  have hsy := hs.nodes y n' hy
  rw [← hsx.entry, ← hsy.entry, hsx.verified.id, hsy.verified.id, hcsb]

namespace GovernanceMachine

variable {E : Set (VerifiedGovernanceEntry env)} {m m' : GovernanceMachine} {c : Call env}

/-- Every branch evidence item of the audit. -/
def branchItems (m : GovernanceMachine) : List (Bytes × Signature × List VerifiedGovernanceApprovalEvidence) :=
  m.audit.flatMap fun record => record.branches.map GovernanceBranchEvidence.item

/-- The call gives an open fork an entry that follows one of its heads. -/
def GrowsHead : GovernanceMachine → Call env → Prop
  | governanceForked f, .ingest e => f.lineage.Admits e ∧ ∃ head ∈ f.branches.keys, e.body.prev = some head
  | _, _ => False

theorem mem_branchItems {x : Bytes × Signature × List VerifiedGovernanceApprovalEvidence} :
    x ∈ m.branchItems ↔ ∃ record ∈ m.audit, ∃ b ∈ record.branches, b.item = x := by
  simp only [branchItems, List.mem_flatMap, List.mem_map]

theorem mem_branchItems_forked {f : GovernanceForkedState}
    {x : Bytes × Signature × List VerifiedGovernanceApprovalEvidence} :
    x ∈ (governanceForked f).branchItems ↔
      (∃ record ∈ f.priorAudit, ∃ b ∈ record.branches, b.item = x) ∨ ∃ b ∈ f.evidence.branches, b.item = x := by
  rw [mem_branchItems, audit]
  simp only [List.mem_append, List.mem_singleton, or_and_right, exists_or, exists_eq_left]
  rfl

/-- Closed forks stay settled. -/
theorem Inv.settled_step (inv : m.Inv E) (hE : CollisionFree E) (hc : c.entry ∈ E) (h : Step m c m')
    (hset : m.lineage.Settled m.closedAudit) : m'.lineage.Settled m'.closedAudit := by
  rcases h with ⟨hnew, hauth⟩ | ⟨hnew, hp, _, hauth, hlineage, haudit, _, _, _⟩ |
    ⟨hnew, hp, hauth, hlineage, haudit, _, _, _⟩ | ⟨hres⟩
  · exact hset.insert inv.sound hnew (hauth.node_sound inv.sound (hauth.back ▸ inv.mode.1))
  · rw [lineage, hlineage, closedAudit, haudit]
    exact hset.insert inv.sound hnew (hauth.node_sound inv.sound hp)
  · rw [lineage, hlineage, closedAudit, haudit]
    exact hset.insert inv.sound hnew (hauth.node_sound inv.sound hp)
  · rename_i f e r selected resolved
    have hs : f.lineage.Sound env := inv.sound
    have hf : f.Coherent := inv.mode
    have hnew : f.lineage.get e.id = none := inv.resolution_new hE hc hres
    have hnode := hres.node_sound hs hf
    intro record hrecord
    rcases List.mem_append.mp hrecord with hrecord | hrecord
    · exact hset.insert hs hnew hnode record hrecord
    · -- the heads of the fork are listed by its resolution
      rw [List.mem_singleton.mp hrecord]
      intro b hb
      obtain ⟨head, hhead, node, hget, rfl⟩ := (hf.evidence b).mp hb
      refine ⟨node, (GovernanceLineage.grows_insert hnew).get _ _ hget, rfl, fun hlive => ?_⟩
      rcases (hs.live_insert hnew hnode).mp hlive with hid | ⟨-, -, hlisted⟩
      · have hget' : f.lineage.get e.id = some node := hid ▸ hget
        exact absurd (hnew.symm.trans hget') (by simp)
      · exact hlisted r hres.payload ((hres.heads head).mpr hhead)

/-- A branch that grows from one of the heads takes that head out of the evidence. -/
theorem Inv.grow_items {f f' : GovernanceForkedState} {e : VerifiedGovernanceEntry env} {p : ValidatedGovernanceState}
    {next : GovernanceState} (inv : (governanceForked f).Inv E) (hset : f.lineage.Settled f.priorAudit)
    (hnew : f.lineage.get e.id = none) (hp : f.lineage.pred e.body.prev = some p) (hauth : Authorised p e next)
    (hlineage : f'.lineage = f.lineage.insert e.id (e.node next)) (haudit : f'.priorAudit = f.priorAudit)
    (hcoherent : f'.Coherent) (hheads : ∀ x, x ∈ f'.branches.keys ↔ f'.lineage.Live x) :
    (∀ x ∈ (governanceForked f).branchItems, x ∈ (governanceForked f').branchItems) ↔
      ∀ head ∈ f.branches.keys, e.body.prev ≠ some head := by
  have hs : f.lineage.Sound env := inv.sound
  have hf : f.Coherent := inv.mode
  have hnode := hauth.node_sound hs hp
  have hgrows : f.lineage.Grows f'.lineage := hlineage ▸ GovernanceLineage.grows_insert hnew
  have hs' : f'.lineage.Sound env := hlineage ▸ hs.insert hnew hnode
  have hlive : ∀ head ∈ f.branches.keys, f.lineage.Live head := fun head hhead =>
    (inv.live head).mp (OrdSet.mem_ofList.mpr hhead)
  have hordinary : ∀ r head, (e.node next).evidence.body.payload.resolve? = some r → head ∉ r.branchHeads :=
    fun r head hr => absurd (hauth.ordinary.symm.trans hr) (by simp)
  constructor
  · -- the former head has lost its place, and no closed record shows it
    intro hkept head hhead hprev
    obtain ⟨node, hget⟩ := Option.isSome_iff_exists.mp (hlive head hhead).known
    have hitem := hkept (node.branchEvidence head).item
      (mem_branchItems_forked.mpr (.inr ⟨_, (hf.evidence _).mpr ⟨head, hhead, node, hget, rfl⟩, rfl⟩))
    rcases mem_branchItems_forked.mp hitem with ⟨record, hrecord, b, hb, hbitem⟩ | ⟨b, hb, hbitem⟩
    · rw [haudit] at hrecord
      obtain ⟨n, hn, heq, hdead⟩ := hset record hrecord b hb
      rw [heq] at hbitem
      exact hdead (hs.head_eq_of_item_eq hn hget hbitem ▸ hlive head hhead)
    · obtain ⟨head', hhead', n, hn, rfl⟩ := (hcoherent.evidence b).mp hb
      obtain rfl := hs'.head_eq_of_item_eq hn (hgrows.get _ _ hget) hbitem
      refine ((hheads head').mp hhead').childless e.id (e.node next) ?_ hprev
      rw [hlineage, GovernanceLineage.get_insert, if_pos rfl]
  · intro hfree x hx
    rw [mem_branchItems_forked] at hx ⊢
    refine hx.imp (fun h => haudit ▸ h) ?_
    rintro ⟨b, hb, rfl⟩
    obtain ⟨head, hhead, node, hget, rfl⟩ := (hf.evidence b).mp hb
    refine ⟨_, (hcoherent.evidence _).mpr ⟨head, (hheads head).mpr ?_, node, hgrows.get _ _ hget, rfl⟩, rfl⟩
    rw [hlineage, hs.live_insert hnew hnode]
    exact .inr ⟨hlive head hhead, hfree head hhead, fun r hr => hordinary r head hr⟩

theorem Inv.step_items (inv : m.Inv E) (hset : m.lineage.Settled m.closedAudit) (h : Step m c m') :
    (∀ x ∈ m.branchItems, x ∈ m'.branchItems) ↔ ¬ m.GrowsHead c := by
  rcases h with ⟨hnew, hauth⟩ | ⟨hnew, hp, _, hauth, hlineage, haudit, _, _, _⟩ |
    ⟨hnew, hp, hauth, hlineage, haudit, _, hcoherent, hheads⟩ | ⟨hres⟩
  · exact iff_of_true (fun x hx => hx) id
  · refine iff_of_true (fun x hx => mem_branchItems_forked.mpr (.inl ?_)) id
    rw [haudit]
    exact mem_branchItems.mp hx
  · rw [inv.grow_items hset hnew hp hauth hlineage haudit hcoherent hheads]
    refine ⟨fun h hgrows => ?_, fun h head hhead hprev => h ⟨⟨hnew, _, _, hp, hauth⟩, head, hhead, hprev⟩⟩
    obtain ⟨-, head, hhead, hprev⟩ := hgrows
    exact h head hhead hprev
  · refine iff_of_true (fun x hx => ?_) id
    rw [mem_branchItems] at hx ⊢
    obtain ⟨record, hrecord, b, hb, rfl⟩ := hx
    rcases List.mem_append.mp hrecord with hrecord | hrecord
    · exact ⟨record, List.mem_append_left _ hrecord, b, hb, rfl⟩
    · refine ⟨_, List.mem_append_right _ (List.mem_singleton_self _), b, ?_, rfl⟩
      rw [List.mem_singleton.mp hrecord] at hb
      exact hb

/-- A call keeps every item, unless it makes a head of an open fork grow. -/
theorem Inv.call_items (inv : m.Inv E) (hset : m.lineage.Settled m.closedAudit) (c : Call env) :
    (∀ x ∈ m.branchItems, x ∈ (m.call c).2.branchItems) ↔ ¬ m.GrowsHead c := by
  rcases inv.call_cases c with ⟨-, hstep, -⟩ | ⟨hnot, hsame, -⟩
  · exact inv.step_items hset hstep
  · rw [hsame]
    refine iff_of_true (fun x hx => hx) fun hgrows => hnot ?_
    rcases m with l | f <;> rcases c with e | e
    · exact hgrows.elim
    · exact hgrows.elim
    · exact hgrows.elim
    · exact hgrows.1

/-! ### Runs -/

theorem Inv.settled_call (inv : m.Inv E) (hE : CollisionFree E) (hc : c.entry ∈ E)
    (hset : m.lineage.Settled m.closedAudit) : (m.call c).2.lineage.Settled (m.call c).2.closedAudit := by
  rcases inv.call_cases c with ⟨-, hstep, -⟩ | ⟨-, hsame, -⟩
  · exact inv.settled_step hE hc hstep hset
  · rwa [hsame]

theorem Inv.settled_run (inv : m.Inv E) (hE : CollisionFree E) {calls : List (Call env)}
    (hcalls : ∀ c ∈ calls, c.entry ∈ E) (hset : m.lineage.Settled m.closedAudit) :
    (m.run calls).lineage.Settled (m.run calls).closedAudit := by
  induction calls generalizing m with
  | nil => exact hset
  | cons c calls ih =>
    have hc := hcalls c List.mem_cons_self
    exact ih (inv.call hE hc) (fun c' hc' => hcalls c' (List.mem_cons_of_mem _ hc')) (inv.settled_call hE hc hset)

theorem run_concat (m : GovernanceMachine) (calls : List (Call env)) (c : Call env) :
    m.run (calls ++ [c]) = ((m.run calls).call c).2 := List.foldl_concat ..

variable {config : GenesisConfig} {signatures : List GenesisSignature} {genesis : ValidatedGovernanceState}

/-- No item that the audit once showed is missing later on, exactly in the runs in which no head of an open fork
grows. -/
theorem audit_append_only_iff (hg : validatedGenesisState env config signatures = .ok genesis)
    (calls : List (Call env)) (hids : CollisionFree (entriesOf calls)) :
    (∀ pre later, pre ++ later <+: calls → ∀ x ∈ ((fromGenesis genesis).run pre).branchItems,
      x ∈ ((fromGenesis genesis).run (pre ++ later)).branchItems) ↔
    ∀ pre c, pre ++ [c] <+: calls → ¬ ((fromGenesis genesis).run pre).GrowsHead c := by
  obtain ⟨htip, hwf⟩ := validatedGenesisState_eq_ok hg
  have hcall : ∀ pre c, pre ++ [c] <+: calls → ((∀ x ∈ ((fromGenesis genesis).run pre).branchItems,
      x ∈ ((fromGenesis genesis).run (pre ++ [c])).branchItems) ↔ ¬ ((fromGenesis genesis).run pre).GrowsHead c) := by
    intro pre c hpre
    have hmem : ∀ c' ∈ pre, c'.entry ∈ entriesOf calls := fun c' hc' =>
      mem_entriesOf c' (hpre.subset (List.mem_append_left _ hc'))
    have inv : (fromGenesis genesis).Inv (entriesOf calls) := inv_fromGenesis htip hwf
    have hset : ((fromGenesis genesis).run pre).lineage.Settled ((fromGenesis genesis).run pre).closedAudit :=
      inv.settled_run hids hmem (by simp [fromGenesis, closedAudit, GovernanceLineage.Settled])
    rw [run_concat]
    exact (inv.run hids hmem).call_items hset c
  constructor
  · intro hkept pre c hpre
    exact (hcall pre c hpre).mp (hkept pre [c] hpre)
  · intro hfree pre later
    induction later generalizing pre with
    | nil =>
      intro _ x hx
      rwa [List.append_nil]
    | cons c later ih =>
      intro hpre x hx
      rw [List.append_cons] at hpre ⊢
      have hstep : pre ++ [c] <+: calls := (List.prefix_append _ _).trans hpre
      exact ih (pre ++ [c]) hpre x ((hcall pre c hstep).mpr (hfree pre c hstep) x hx)

/-! ### Losing branches -/

/-- A run that accepts the resolution `R` of the fork `f` and later on is linear at `l`. -/
structure ResolvedRun (genesis : ValidatedGovernanceState) (calls : List (Call env)) (f : GovernanceForkedState)
    (R : VerifiedGovernanceEntry env) (r : ForkResolve) (l : LinearGovernanceState) : Prop where
  payload : R.body.payload.resolve? = some r
  accepted : ∃ pre post, calls = pre ++ .observe R :: post ∧ (fromGenesis genesis).run pre = .governanceForked f ∧
    ∃ obs, ((governanceForked f).call (.observe R)).1 = .ok obs
  linear : (fromGenesis genesis).run calls = .linear l

end GovernanceMachine

end Audit

/-! ### The worked fork -/

namespace Toy

open GovernanceMachine

theorem c_ne_a : (c small).id ≠ (a small).id := fun h => by
  have hnodup := ids_nodup
  simp [h] at hnodup

theorem c_ne_b : (c small).id ≠ (b small).id := fun h => by
  have hnodup := ids_nodup
  simp [h] at hnodup

theorem r_ne_a : (r small a_lt_b).id ≠ (a small).id := fun h => by
  have hnodup := ids_nodup
  simp [h] at hnodup

theorem r_ne_b : (r small a_lt_b).id ≠ (b small).id := fun h => by
  have hnodup := ids_nodup
  simp [h] at hnodup

theorem r_ne_c : (r small a_lt_b).id ≠ (c small).id := fun h => by
  have hnodup := ids_nodup
  simp [h] at hnodup

theorem authorised_c (recovery : RecoveryConfig) :
    Authorised (afterB recovery) (c recovery) (revoked (afterB recovery) 3) :=
  authorised_revoke _ rfl (by simp) rfl rfl

theorem get_lineageAB_b (recovery : RecoveryConfig) :
    (lineageAB recovery).get (b recovery).id = some ((b recovery).node (revoked (genesis recovery) 2)) := by
  rw [lineageAB, GovernanceLineage.get_insert, if_pos rfl]

theorem get_lineageAB_of_ne {recovery : RecoveryConfig} {x : GovernanceId} (ha : x ≠ (a recovery).id)
    (hb : x ≠ (b recovery).id) : (lineageAB recovery).get x = none := by
  rw [Option.eq_none_iff_forall_not_mem]
  intro node hnode
  rcases get_lineageAB recovery hnode with ⟨h, -⟩ | ⟨h, -⟩
  · exact hb h
  · exact ha h

theorem get_lineageAB_c : (lineageAB small).get (c small).id = none := get_lineageAB_of_ne c_ne_a c_ne_b

theorem prev_c (recovery : RecoveryConfig) : (c recovery).body.prev = some (b recovery).id := rfl

theorem pred_lineageAB_c (recovery : RecoveryConfig) :
    (lineageAB recovery).pred (c recovery).body.prev = some (afterB recovery) := by
  rw [prev_c, GovernanceLineage.pred, get_lineageAB_b]
  rfl

/-- `c` grows the branch of `b`, and the evidence of `b` is gone. -/
theorem grown_head_lost :
    validatedGenesisState tailEnv (config small) (signatures small) = .ok (genesis small) ∧
    ∃ x ∈ ((fromGenesis (genesis small)).run [.observe (a small), .observe (b small)]).branchItems,
      x ∉ ((fromGenesis (genesis small)).run [.observe (a small), .observe (b small), .ingest (c small)]).branchItems := by
  obtain ⟨f, hf, hlineage, haudit, -, hkeys⟩ := forked_ab a_lt_b
  have inv : (governanceForked f).Inv (entriesOf [.observe (a small), .observe (b small)]) :=
    hf ▸ run_inv (genesis_validated small)
      (collisionFree_of_nodup (ids_nodup.sublist (List.sublist_append_left [_, _] [_, _]))) mem_entriesOf
  have hgrows : (governanceForked f).GrowsHead (.ingest (c small)) := by
    refine ⟨?_, (b small).id, (hkeys _).mpr (.inr rfl), rfl⟩
    rw [hlineage]
    exact ⟨get_lineageAB_c, afterB small, _, pred_lineageAB_c small, authorised_c small⟩
  have hlost := (inv.call_items (by simp [closedAudit, haudit, GovernanceLineage.Settled]) (.ingest (c small))).not.mpr
    (not_not.mpr hgrows)
  rw [← hf, ← run_concat, List.cons_append, List.cons_append, List.nil_append] at hlost
  refine ⟨genesis_validated small, ?_⟩
  simpa only [not_forall, exists_prop] using hlost

/-- The fork of `a` and `b` has evidence, and without an ingestion nothing of it is lost. -/
theorem audit_append_only_calls :
    ((fromGenesis (genesis small)).run [.observe (a small), .observe (b small)]).branchItems ≠ [] ∧
    ∀ pre later, pre ++ later <+: calls → ∀ x ∈ ((fromGenesis (genesis small)).run pre).branchItems,
      x ∈ ((fromGenesis (genesis small)).run (pre ++ later)).branchItems := by
  constructor
  · obtain ⟨f, hf, hlineage, -, hcoherent, hkeys⟩ := forked_ab a_lt_b
    rw [hf]
    apply List.ne_nil_of_mem
    exact mem_branchItems_forked.mpr (.inr ⟨_, (hcoherent.evidence _).mpr
      ⟨(a small).id, (hkeys _).mpr (.inl rfl), _, hlineage ▸ get_lineageAB_a a_lt_b, rfl⟩, rfl⟩)
  · refine (audit_append_only_iff (genesis_validated small) calls calls_collisionFree).mpr fun pre c hpre => ?_
    have hc : c ∈ calls := hpre.subset (by simp)
    obtain ⟨e, rfl⟩ : ∃ e, c = .observe e := by
      simp only [calls, List.mem_cons, List.not_mem_nil, or_false] at hc
      rcases hc with rfl | rfl | rfl | rfl <;> exact ⟨_, rfl⟩
    rcases (fromGenesis (genesis small)).run pre with l | f <;> exact id

/-- `r` resolves the fork of `a` and `b`. -/
theorem resolved_abr :
    ∃ f l, ResolvedRun (genesis small) [.observe (a small), .observe (b small), .observe (r small a_lt_b)] f
        (r small a_lt_b) (resolve small) l ∧
      (∀ x, x ∈ f.branches.keys ↔ x = (a small).id ∨ x = (b small).id) ∧
      l.accepted = ((r small a_lt_b).node (resolved small)).state ∧
      l.lineage = (lineageAB small).insert (r small a_lt_b).id ((r small a_lt_b).node (resolved small)) := by
  obtain ⟨f, hf, hlineage, -, hcoherent, hkeys⟩ := forked_ab a_lt_b
  have inv : (governanceForked f).Inv (entriesOf [.observe (a small), .observe (b small)]) :=
    hf ▸ run_inv (genesis_validated small)
      (collisionFree_of_nodup (ids_nodup.sublist (List.sublist_append_left [_, _] [_, _]))) mem_entriesOf
  have hpayload : (r small a_lt_b).body.payload.resolve? = some (resolve small) := rfl
  obtain ⟨r', selected, next, hres⟩ := (resolution_iff inv.sound hcoherent hpayload).mpr
    ⟨resolvesFork_r a_lt_b hlineage hcoherent hkeys (by decide) rfl (by decide), by
      rw [(stable_ab hlineage hcoherent).1]
      decide⟩
  obtain rfl : r' = resolve small := Option.some.inj (hres.payload.symm.trans hpayload)
  obtain ⟨node, hnode, rfl⟩ := hcoherent.states _ _ hres.branch
  have hselected : node = (a small).node (revoked (genesis small) 1) := by
    have hget : f.lineage.get (a small).id = some node := hnode
    rw [hlineage, get_lineageAB_a a_lt_b] at hget
    exact (Option.some.inj hget).symm
  have hnext : next = resolved small := by
    rw [hres.resolved_eq, hselected]
    rfl
  have hcall := observeForked_eq_ok.mpr ⟨_, _, next, hres, rfl⟩
  have hend : (fromGenesis (genesis small)).run
      [.observe (a small), .observe (b small), .observe (r small a_lt_b)] =
      .linear ⟨((r small a_lt_b).node next).state, f.lineage.insert (r small a_lt_b).id ((r small a_lt_b).node next),
        f.priorAudit ++ [f.resolvedRecord (r small a_lt_b) (resolve small)]⟩ := by
    rw [show [.observe (a small), .observe (b small), .observe (r small a_lt_b)] =
      [Call.observe (a small), .observe (b small)] ++ [.observe (r small a_lt_b)] from rfl, run_concat, hf, call,
      observeCommitted, hcall]
  refine ⟨f, _, ⟨hpayload, ⟨[.observe (a small), .observe (b small)], [], rfl, hf, ?_⟩, hend⟩, hkeys, ?_, ?_⟩
  · rw [call, observeCommitted, hcall]
    exact ⟨_, rfl⟩
  · rw [hnext]
  · rw [hnext, hlineage]

theorem get_after_r_c {l : LinearGovernanceState}
    (hl : l.lineage = (lineageAB small).insert (r small a_lt_b).id ((r small a_lt_b).node (resolved small))) :
    l.lineage.get (c small).id = none := by
  rw [hl, GovernanceLineage.get_insert, if_neg r_ne_c.symm, get_lineageAB_c]

theorem pred_after_r_c {l : LinearGovernanceState}
    (hl : l.lineage = (lineageAB small).insert (r small a_lt_b).id ((r small a_lt_b).node (resolved small))) :
    l.lineage.pred (c small).body.prev = some (afterB small) := by
  rw [hl, prev_c, GovernanceLineage.pred, GovernanceLineage.get_insert, if_neg r_ne_b.symm, get_lineageAB_b]
  rfl

/-- `c` opens a fork beside `r`. -/
theorem fork_after_r {f : GovernanceForkedState} {l : LinearGovernanceState}
    (hrun : ResolvedRun (genesis small) [.observe (a small), .observe (b small), .observe (r small a_lt_b)] f
      (r small a_lt_b) (resolve small) l)
    (hacc : l.accepted = ((r small a_lt_b).node (resolved small)).state)
    (hl : l.lineage = (lineageAB small).insert (r small a_lt_b).id ((r small a_lt_b).node (resolved small))) :
    ∃ f', ((linear l).call (.observe (c small))).2 = .governanceForked f' ∧
      Step (.linear l) (.observe (c small)) (.governanceForked f') := by
  have inv : (linear l).Inv (entriesOf [.observe (a small), .observe (b small), .observe (r small a_lt_b)]) :=
    hrun.linear ▸ run_inv (genesis_validated small)
      (collisionFree_of_nodup (ids_nodup.sublist (List.sublist_append_left [_, _, _] [_]))) mem_entriesOf
  have hne : (c small).body.prev ≠ l.accepted.tip.id? := by
    rw [hacc, prev_c]
    exact fun h => r_ne_b (Option.some.inj h).symm
  obtain ⟨f', hf', hstep⟩ :=
    inv.observeLinear_fork (get_after_r_c hl) (pred_after_r_c hl) hne (authorised_c small)
  refine ⟨f', ?_, hstep⟩
  rw [call, observeCommitted, hf']

end Toy

end IrohRooms.Governance
