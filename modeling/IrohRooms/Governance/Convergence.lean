import IrohRooms.Governance.Audit

/-!
# Machines that were offered the same entries

A machine that accepts no more of a set of entries retains every ordinary entry that one of its nodes authorizes, so
its lineage is determined by the resolutions it accepted. Machines that accepted the same resolutions agree in
everything: the lineage, the mode, the accepted snapshot or the heads with their stable ancestor.
-/

namespace IrohRooms.Governance

section Convergence

variable {env : Env}

/-- The entry of a sound node is authorized by the node's predecessor, if it is not a resolution. -/
theorem LineageNode.Sound.authorised {lineage : GovernanceLineage} {id : GovernanceId} {node : LineageNode}
    {e : VerifiedGovernanceEntry env} {p : ValidatedGovernanceState} (hs : lineage.Sound env)
    (h : node.Sound env lineage id) (hp : lineage.pred node.prev = some p) (he : node.evidence = e.evidence)
    (hord : e.body.payload.resolve? = none) : Authorised p e node.state.state := by
  obtain ⟨p', hp', hstep⟩ := h.step
  obtain rfl := Option.some.inj (hp.symm.trans hp')
  have hbody : node.evidence.body = e.body := congrArg AuthenticatedGovernanceEvidence.body he
  obtain ⟨hconfig, hquorum⟩ := hstep.ordinary (hbody ▸ hord)
  refine ⟨hord, ?_, ?_, ?_, ?_, hconfig, he ▸ hquorum, ?_⟩
  · rw [← hbody, h.target, hs.pred_community hp]
  · rw [← hbody, ← h.seq, hstep.seq]
  · rw [← hbody, ← h.prev, hs.pred_tip hp]
  · rw [← hbody, ← h.seq, hstep.apply]
  · rw [← hbody, ← h.declared, h.root]

/-- A sound node is determined by its entry and its predecessor. -/
theorem LineageNode.Sound.node_eq {lineage lineage' : GovernanceLineage} {id : GovernanceId} {n n' : LineageNode}
    {p : ValidatedGovernanceState} (h : n.Sound env lineage id) (h' : n'.Sound env lineage' id)
    (he : n.evidence = n'.evidence) (hp : lineage.pred n.prev = some p) (hp' : lineage'.pred n.prev = some p) :
    n = n' := by
  have hseq : n.seq = n'.seq := by rw [h.seq, h'.seq, he]
  have hprev : n.prev = n'.prev := by rw [h.prev, h'.prev, he]
  obtain ⟨q, hq, hstep⟩ := h.step
  obtain rfl := Option.some.inj (hp.symm.trans hq)
  obtain ⟨q', hq', hstep'⟩ := h'.step
  obtain rfl := Option.some.inj (hp'.symm.trans (hprev ▸ hq'))
  have hstate : n.state.state = n'.state.state := by
    have happly := hstep.apply
    rw [hseq, he, hstep'.apply] at happly
    exact (Except.ok.inj happly).symm
  have hsnap : n.state = n'.state := by
    have htip := h.tip
    have htip' := h'.tip
    have hroot : n.state.committedStateRoot = n'.state.committedStateRoot := by rw [h.declared, h'.declared, he]
    rcases hn : n.state with ⟨s, t, c⟩
    rcases hn' : n'.state with ⟨s', t', c'⟩
    rw [hn, hn'] at hstate hroot
    rw [hn] at htip
    rw [hn'] at htip'
    obtain rfl : s = s' := hstate
    obtain rfl : c = c' := hroot
    obtain rfl : t = .entry n.seq id := htip
    obtain rfl : t' = .entry n'.seq id := htip'
    rw [hseq]
  rcases n with ⟨seq, prev, state, evidence⟩
  rcases n' with ⟨seq', prev', state', evidence'⟩
  simp only [LineageNode.mk.injEq]
  exact ⟨hseq, hprev, hsnap, he⟩

namespace GovernanceMachine

variable {E : List (VerifiedGovernanceEntry env)} {m m' : GovernanceMachine}

/-- No entry of `E` is accepted any more, through either call. -/
def Saturated (E : List (VerifiedGovernanceEntry env)) (m : GovernanceMachine) : Prop :=
  ∀ c : Call env, c.entry ∈ E → ∀ obs, (m.call c).1 = .ok obs → ¬ obs.Accepting

/-- The entry has been accepted. -/
def Retains (m : GovernanceMachine) (e : VerifiedGovernanceEntry env) : Prop := (m.lineage.get e.id).isSome

theorem Inv.retains_of_admits (inv : m.Inv {e | e ∈ E}) (hsat : m.Saturated E) {e : VerifiedGovernanceEntry env}
    (he : e ∈ E) (hadm : m.lineage.get e.id = none → m.lineage.Admits e) : m.Retains e := by
  by_contra hnot
  have hnew : m.lineage.get e.id = none := by simpa [Retains] using hnot
  obtain ⟨c, hc, happ⟩ : ∃ c : Call env, c.entry = e ∧ m.Applicable c := by
    rcases m with l | f
    · exact ⟨.observe e, rfl, hadm hnew⟩
    · exact ⟨.ingest e, rfl, hadm hnew⟩
  rcases inv.call_cases c with ⟨-, -, obs, hobs, hacc⟩ | ⟨hnot', -⟩
  · exact hsat c (hc ▸ he) obs hobs hacc
  · exact hnot' happ

/-- A saturated machine has every node of another machine whose resolutions it has. -/
theorem Inv.get_of_saturated (inv : m.Inv {e | e ∈ E}) (inv' : m'.Inv {e | e ∈ E})
    (hone : ∀ x ∈ E, ∀ y ∈ E, x.id = y.id → x = y) (hgenesis : m'.lineage.genesis = m.lineage.genesis)
    (hsat : m'.Saturated E) (hres : ∀ e ∈ E, e.body.payload.resolve?.isSome → m.Retains e → m'.Retains e)
    (id : GovernanceId) (node : LineageNode) (hget : m.lineage.get id = some node) :
    m'.lineage.get id = some node := by
  induction hn : node.seq.toNat using Nat.strong_induction_on generalizing id node with
  | _ n ih =>
    have hnode := inv.sound.nodes id node hget
    obtain ⟨e, he, hevid⟩ := inv.origin id node hget
    have hid : e.id = id := by rw [VerifiedGovernanceEntry.id, ← hevid, hnode.entry]
    have hprev : node.prev = e.body.prev := by rw [hnode.prev, hevid]; rfl
    obtain ⟨p, hp, -⟩ := hnode.step
    -- the predecessor has a smaller sequence number
    have hp' : m'.lineage.pred node.prev = some p := by
      rcases hq : node.prev with _ | q <;> rw [hq] at hp
      · rw [GovernanceLineage.pred, hgenesis]
        exact hp
      · obtain ⟨up, hup, hseq⟩ := inv.sound.known_prev hget hq
        have hup' := ih up.seq.toNat (by omega) q up hup rfl
        rw [GovernanceLineage.pred, hup] at hp
        rw [GovernanceLineage.pred, hup']
        exact hp
    have hknown : m'.Retains e := by
      rcases hr : e.body.payload.resolve? with _ | r
      · have hauth := hnode.authorised inv.sound hp hevid hr
        exact inv'.retains_of_admits hsat he fun hnew => ⟨hnew, p, _, hprev ▸ hp', hauth⟩
      · refine hres e he (by rw [hr]; rfl) ?_
        rw [Retains, hid, hget]
        rfl
    obtain ⟨node', hget'⟩ := Option.isSome_iff_exists.mp hknown
    rw [hid] at hget'
    have hnode' := inv'.sound.nodes id node' hget'
    obtain ⟨e', he', hevid'⟩ := inv'.origin id node' hget'
    have hid' : e'.id = id := by rw [VerifiedGovernanceEntry.id, ← hevid', hnode'.entry]
    obtain rfl := hone e he e' he' (hid.trans hid'.symm)
    rw [hget', hnode.node_eq hnode' (hevid.trans hevid'.symm) hp hp']

/-! ### Outcomes -/

/-- The same accepted tip and state, or the same heads and stable ancestor. -/
inductive SameOutcome : GovernanceMachine → GovernanceMachine → Prop
  | linear {l l' : LinearGovernanceState} (hacc : l.accepted = l'.accepted) : SameOutcome (.linear l) (.linear l')
  | forked {f f' : GovernanceForkedState} (hheads : f.branches.keys = f'.branches.keys)
      (hstable : f.stable = f'.stable) : SameOutcome (.governanceForked f) (.governanceForked f')

theorem Inv.heads_eq {E' : Set (VerifiedGovernanceEntry env)} (inv : m.Inv E') (inv' : m'.Inv E')
    (h : m.lineage = m'.lineage) : m.heads = m'.heads :=
  OrdSet.ext_mem fun x => by rw [inv.live, inv'.live, h]

/-- A linear machine has one head at most and a forked one has two. -/
theorem Inv.linear_heads_ne {E' : Set (VerifiedGovernanceEntry env)} {l : LinearGovernanceState}
    {f : GovernanceForkedState} (inv : (governanceForked f).Inv E') :
    (linear l).heads ≠ (governanceForked f).heads := by
  intro h
  obtain ⟨a, ha, b, hb, hab⟩ := GovernanceForkedState.Coherent.two inv.mode
  have hmem : ∀ x ∈ f.branches.keys, l.accepted.tip.id? = some x := fun x hx => by
    have hx' : x ∈ (linear l).heads := h ▸ OrdSet.mem_ofList.mpr hx
    rw [heads, OrdSet.mem_ofList, Option.mem_toList] at hx'
    exact hx'
  exact hab (Option.some.inj ((hmem a ha).symm.trans (hmem b hb)))

/-- The lineage decides the outcome. -/
theorem Inv.sameOutcome {E' : Set (VerifiedGovernanceEntry env)} (inv : m.Inv E') (inv' : m'.Inv E')
    (h : m.lineage = m'.lineage) : m.SameOutcome m' := by
  have hheads := inv.heads_eq inv' h
  rcases m with l | f <;> rcases m' with l' | f'
  · have htip : l.accepted.tip.id? = l'.accepted.tip.id? := by
      refine Option.ext fun x => ?_
      have hx : x ∈ (linear l).heads ↔ x ∈ (linear l').heads := by rw [hheads]
      rw [heads, heads, OrdSet.mem_ofList, OrdSet.mem_ofList, Option.mem_toList, Option.mem_toList] at hx
      exact hx
    have hl : l.lineage = l'.lineage := h
    have hacc := inv.mode.1
    rw [hl, htip, inv'.mode.1] at hacc
    exact .linear (Option.some.inj hacc).symm
  · exact absurd hheads inv'.linear_heads_ne
  · exact absurd hheads.symm inv.linear_heads_ne
  · have hl : f.lineage = f'.lineage := h
    have hf : f.Coherent := inv.mode
    have hf' : f'.Coherent := inv'.mode
    have hset : OrdSet.ofList f.branches.keys = OrdSet.ofList f'.branches.keys := hheads
    refine .forked (OrdSet.eq_of_sorted f.branches.keys_sorted f'.branches.keys_sorted fun x => ?_) ?_
    · rw [← OrdSet.mem_ofList, hset, OrdSet.mem_ofList]
    · have hstable := hf.stable
      rw [hl, hset, hf'.stable] at hstable
      have htip : f'.evidence.stableTip = f.evidence.stableTip := congrArg Prod.fst (Except.ok.inj hstable)
      have hat := hf.stableAt
      rw [hl, ← htip, hf'.stableAt] at hat
      exact (Except.ok.inj hat).symm

/-- Two machines that were offered the same entries until none is accepted any more, and that accepted the same
resolutions, end alike. -/
theorem same_outcome_of_same_resolutions {config : GenesisConfig} {signatures : List GenesisSignature}
    {genesis : ValidatedGovernanceState} (hg : validatedGenesisState env config signatures = .ok genesis)
    (hone : ∀ x ∈ E, ∀ y ∈ E, x.id = y.id → x = y) {calls calls' : List (Call env)}
    (hcalls : ∀ c ∈ calls, c.entry ∈ E) (hcalls' : ∀ c ∈ calls', c.entry ∈ E)
    (hsat : ((fromGenesis genesis).run calls).Saturated E) (hsat' : ((fromGenesis genesis).run calls').Saturated E)
    (hres : ∀ e ∈ E, e.body.payload.resolve?.isSome →
      (((fromGenesis genesis).run calls).Retains e ↔ ((fromGenesis genesis).run calls').Retains e)) :
    ((fromGenesis genesis).run calls).SameOutcome ((fromGenesis genesis).run calls') := by
  have hfree : CollisionFree {e | e ∈ E} := fun x hx y hy hxy => by rw [hone x hx y hy hxy]
  obtain ⟨htip, hwf⟩ := validatedGenesisState_eq_ok hg
  have inv₀ : (fromGenesis genesis).Inv {e | e ∈ E} := inv_fromGenesis htip hwf
  have inv := inv₀.run hfree hcalls
  have inv' := inv₀.run hfree hcalls'
  have hgen : ((fromGenesis genesis).run calls').lineage.genesis = ((fromGenesis genesis).run calls).lineage.genesis := by
    rw [inv₀.run_genesis hfree hcalls, inv₀.run_genesis hfree hcalls']
  apply inv.sameOutcome inv'
  have hnodes : ((fromGenesis genesis).run calls).lineage.nodes = ((fromGenesis genesis).run calls').lineage.nodes := by
    refine OrdMap.ext_get? fun id => Option.ext fun node => ⟨fun h => ?_, fun h => ?_⟩
    · exact inv.get_of_saturated inv' hone hgen hsat' (fun e he hr => (hres e he hr).mp) id node h
    · exact inv'.get_of_saturated inv hone hgen.symm hsat (fun e he hr => (hres e he hr).mpr) id node h
  rcases hl : ((fromGenesis genesis).run calls).lineage with ⟨g, nodes⟩
  rcases hl' : ((fromGenesis genesis).run calls').lineage with ⟨g', nodes'⟩
  rw [hl, hl'] at hgen hnodes
  obtain rfl : g' = g := hgen
  obtain rfl : nodes = nodes' := hnodes
  rfl

end GovernanceMachine

end Convergence

/-! ### The worked fork -/

namespace Toy

open GovernanceMachine

/-- The two branches of the fork, its resolution and the growth of the losing branch. -/
def offered : List (VerifiedGovernanceEntry tailEnv) := [a small, b small, r small a_lt_b, c small]

theorem offered_inj : ∀ x ∈ offered, ∀ y ∈ offered, x.id = y.id → x = y := fun _ hx _ hy hxy =>
  List.inj_on_of_nodup_map (show (offered.map VerifiedGovernanceEntry.id).Nodup from ids_nodup) hx hy hxy

theorem offered_collisionFree : CollisionFree {e | e ∈ offered} := fun x hx y hy hxy => by
  rw [offered_inj x hx y hy hxy]

theorem ordinary_of_mem_offered {e : VerifiedGovernanceEntry tailEnv} (he : e ∈ offered) (hne : e ≠ r small a_lt_b) :
    e.body.payload.resolve? = none := by
  simp only [offered, List.mem_cons, List.not_mem_nil, or_false] at he
  rcases he with rfl | rfl | rfl | rfl
  · exact (authorised_a small).ordinary
  · exact (authorised_b small).ordinary
  · exact absurd rfl hne
  · exact (authorised_c small).ordinary

/-- A fork that knows the ordinary entries and has lost one of the two heads that `r` names accepts nothing more. -/
theorem saturated_forked {f : GovernanceForkedState} (inv : (governanceForked f).Inv {e | e ∈ offered})
    (hknown : ∀ e ∈ offered, e ≠ r small a_lt_b → (f.lineage.get e.id).isSome)
    (hheads : ¬ ∀ x, x ∈ (resolve small).branchHeads ↔ x ∈ f.branches.keys) :
    (governanceForked f).Saturated offered := by
  intro call hcall obs hobs
  rcases inv.call_cases call with ⟨happ, -⟩ | ⟨-, -, hnot⟩
  · exfalso
    rcases call with e | e
    · obtain ⟨r', selected, next, hres⟩ := happ
      have he : e = r small a_lt_b := by_contra fun hne =>
        absurd ((ordinary_of_mem_offered hcall hne).symm.trans hres.payload) (by simp)
      have hpayload : (r small a_lt_b).body.payload.resolve? = some (resolve small) := rfl
      obtain rfl : resolve small = r' := Option.some.inj (hpayload.symm.trans (he ▸ hres.payload))
      exact hheads hres.heads
    · obtain ⟨hnew, p, next, hp, hauth⟩ := happ
      have he : e = r small a_lt_b := by_contra fun hne => by
        have := hknown e hcall hne
        rw [hnew] at this
        exact absurd this (by simp)
      have hpayload : (r small a_lt_b).body.payload.resolve? = some (resolve small) := rfl
      exact absurd (hauth.ordinary.symm.trans (he ▸ hpayload)) (by simp)
  · exact hnot obs hobs

/-- In a lineage with the nodes of `a` and `b` the ordinary entries are known once `c` is. -/
theorem known_of_grows {lineage : GovernanceLineage} (hgrows : (lineageAB small).Grows lineage)
    (hc : (lineage.get (c small).id).isSome) (e : VerifiedGovernanceEntry tailEnv) (he : e ∈ offered)
    (hne : e ≠ r small a_lt_b) : (lineage.get e.id).isSome := by
  simp only [offered, List.mem_cons, List.not_mem_nil, or_false] at he
  rcases he with rfl | rfl | rfl | rfl
  · exact Option.isSome_iff_exists.mpr ⟨_, hgrows.get _ _ (get_lineageAB_a a_lt_b)⟩
  · exact Option.isSome_iff_exists.mpr ⟨_, hgrows.get _ _ (get_lineageAB_b small)⟩
  · exact absurd rfl hne
  · exact hc

/-- First the resolution, then the late entry: `r` and `c` are the heads. -/
theorem forked_abrc :
    ∃ f, (fromGenesis (genesis small)).run calls = .governanceForked f ∧ (a small).id ∉ f.branches.keys ∧
      ∀ e ∈ offered, e ≠ r small a_lt_b → (f.lineage.get e.id).isSome := by
  obtain ⟨f₀, l, hrun, -, hacc, hl⟩ := resolved_abr
  obtain ⟨f, hf, hstep⟩ := fork_after_r hrun hacc hl
  obtain ⟨p, next, -, -, hlineage, -, -, hheads⟩ := hstep.forked_inv
  have hc : f.lineage.get (c small).id = some ((c small).node next) := by
    rw [hlineage]
    exact GovernanceLineage.get_insert.trans (if_pos rfl)
  have hgrows : l.lineage.Grows f.lineage := hlineage ▸ GovernanceLineage.grows_insert (get_after_r_c hl)
  have hgrowsAB : (lineageAB small).Grows l.lineage :=
    hl ▸ GovernanceLineage.grows_insert (get_lineageAB_of_ne r_ne_a r_ne_b)
  have hr : f.lineage.get (r small a_lt_b).id = some ((r small a_lt_b).node (resolved small)) :=
    hgrows.get _ _ (by rw [hl, GovernanceLineage.get_insert, if_pos rfl])
  refine ⟨f, ?_, fun ha => ?_, known_of_grows (hgrowsAB.trans hgrows) (by rw [hc]; rfl)⟩
  · rw [show calls = [.observe (a small), .observe (b small), .observe (r small a_lt_b)] ++ [.observe (c small)] from rfl,
      run_concat, hrun.linear, hf]
  · exact ((hheads _).mp ha).childless _ _ hr rfl

/-- First the late entry: `a` and `c` are the heads. -/
theorem forked_abc :
    ∃ f, (fromGenesis (genesis small)).run [.observe (a small), .observe (b small), .ingest (c small)] =
        .governanceForked f ∧ (a small).id ∈ f.branches.keys ∧ (b small).id ∉ f.branches.keys ∧
      ∀ e ∈ offered, e ≠ r small a_lt_b → (f.lineage.get e.id).isSome := by
  obtain ⟨f₀, hrun, hlineage₀, -, -, -⟩ := forked_ab a_lt_b
  have inv : (governanceForked f₀).Inv (entriesOf [.observe (a small), .observe (b small)]) :=
    hrun ▸ run_inv (genesis_validated small)
      (collisionFree_of_nodup (ids_nodup.sublist (List.sublist_append_left [_, _] [_, _]))) mem_entriesOf
  have hs : (lineageAB small).Sound tailEnv := hlineage₀ ▸ inv.sound
  obtain ⟨f, hf, hstep⟩ := inv.ingest_grow (hlineage₀ ▸ get_lineageAB_c) (hlineage₀ ▸ pred_lineageAB_c small)
    (authorised_c small)
  obtain ⟨p, next, hp, hauth, hlineage, -, -, hheads⟩ := hstep.forked_inv
  have hl : f.lineage = (lineageAB small).insert (c small).id ((c small).node next) := hlineage₀ ▸ hlineage
  have hp' : (lineageAB small).pred (c small).body.prev = some p := hlineage₀ ▸ hp
  have hauth' : Authorised p (c small) next := hauth
  have hc : f.lineage.get (c small).id = some ((c small).node next) := by
    rw [hl, GovernanceLineage.get_insert, if_pos rfl]
  refine ⟨f, ?_, (hheads _).mpr ?_, fun hb => ?_, known_of_grows ?_ (by rw [hc]; rfl)⟩
  · rw [show [.observe (a small), .observe (b small), .ingest (c small)] =
      [Call.observe (a small), .observe (b small)] ++ [.ingest (c small)] from rfl, run_concat, hrun, call, hf]
  · rw [hl, hs.live_insert get_lineageAB_c (hauth'.node_sound hs hp')]
    refine .inr ⟨(live_lineageAB a_lt_b).mpr (.inl rfl), fun h => ?_, fun r' hr' => ?_⟩
    · exact a_lt_b.ne' (Option.some.inj ((prev_c small).symm.trans h))
    · exact absurd (hauth'.ordinary.symm.trans hr') (by simp)
  · exact ((hheads _).mp hb).childless _ _ hc (prev_c small)
  · rw [hl]
    exact GovernanceLineage.grows_insert get_lineageAB_c

theorem saturated_abrc : ((fromGenesis (genesis small)).run calls).Saturated offered := by
  obtain ⟨f, hf, ha, hknown⟩ := forked_abrc
  have inv : (governanceForked f).Inv {e | e ∈ offered} :=
    hf ▸ run_inv (genesis_validated small) offered_collisionFree (by simp [calls, offered, Call.entry])
  rw [hf]
  exact saturated_forked inv hknown fun h => ha ((h _).mp (by simp [resolve]))

/-- The order in which the late entry and the resolution arrive decides whether the resolution is accepted. -/
theorem late_branch_diverges :
    validatedGenesisState tailEnv (config small) (signatures small) = .ok (genesis small) ∧
    (∀ x ∈ offered, ∀ y ∈ offered, x.id = y.id → x = y) ∧
    ((fromGenesis (genesis small)).run calls).Saturated offered ∧
    ((fromGenesis (genesis small)).run [.observe (a small), .observe (b small), .ingest (c small),
      .observe (r small a_lt_b)]).Saturated offered ∧
    ¬ ((fromGenesis (genesis small)).run calls).SameOutcome
      ((fromGenesis (genesis small)).run [.observe (a small), .observe (b small), .ingest (c small),
        .observe (r small a_lt_b)]) := by
  obtain ⟨f, hf, ha, -⟩ := forked_abrc
  obtain ⟨f', hf', ha', hb', hknown'⟩ := forked_abc
  have inv' : (governanceForked f').Inv {e | e ∈ offered} :=
    hf' ▸ run_inv (genesis_validated small) offered_collisionFree (by simp [offered, Call.entry])
  have hsat' := saturated_forked inv' hknown' fun h => hb' ((h _).mp (by simp [resolve]))
  have hrun' : (fromGenesis (genesis small)).run [.observe (a small), .observe (b small), .ingest (c small),
      .observe (r small a_lt_b)] = .governanceForked f' := by
    rw [show [.observe (a small), .observe (b small), .ingest (c small), .observe (r small a_lt_b)] =
      [Call.observe (a small), .observe (b small), .ingest (c small)] ++ [.observe (r small a_lt_b)] from rfl,
      run_concat, hf']
    rcases inv'.call_cases (.observe (r small a_lt_b)) with ⟨-, -, obs, hobs, hacc⟩ | ⟨-, hsame, -⟩
    · exact absurd hacc (hsat' _ (by simp [offered, Call.entry]) obs hobs)
    · exact hsame
  rw [hrun']
  refine ⟨genesis_validated small, offered_inj, saturated_abrc, hsat', ?_⟩
  rw [hf]
  rintro (_ | ⟨hheads, -⟩)
  rw [hheads] at ha
  exact ha ha'

theorem run_append (m : GovernanceMachine) (pre post : List (Call tailEnv)) :
    m.run (pre ++ post) = (m.run pre).run post := List.foldl_append

/-- An early offer of `c`, whose predecessor is not known yet, makes no difference. -/
theorem run_early_c : (fromGenesis (genesis small)).run ([Call.observe (a small), .observe (c small)] ++
    [Call.observe (b small), .observe (r small a_lt_b), .observe (c small)]) = (fromGenesis (genesis small)).run calls := by
  have hearly : (fromGenesis (genesis small)).run [.observe (a small), .observe (c small)] =
      (fromGenesis (genesis small)).run [.observe (a small)] := by
    have inv : (linear ⟨afterA small, lineageA small, []⟩).Inv (entriesOf [.observe (a small)]) :=
      advanced_a small ▸ run_inv (genesis_validated small) (collisionFree_of_nodup (List.nodup_singleton _))
        mem_entriesOf
    rw [show [.observe (a small), .observe (c small)] = [Call.observe (a small)] ++ [.observe (c small)] from rfl,
      run_concat, advanced_a]
    rcases inv.call_cases (.observe (c small)) with ⟨⟨-, p, next, hp, -⟩, -⟩ | ⟨-, hsame, -⟩
    · have hnone : (lineageA small).get (b small).id = none := get_lineageA_of_ne a_lt_b.ne'
      rw [prev_c, GovernanceLineage.pred, hnone] at hp
      exact absurd hp (by simp)
    · exact hsame
  rw [run_append, hearly, ← run_append, calls, List.cons_append, List.nil_append]

/-- With `c` offered once before its predecessor, the machine ends as it does without that offer. -/
theorem same_outcome_early_c : ((fromGenesis (genesis small)).run calls).SameOutcome
    ((fromGenesis (genesis small)).run ([.observe (a small), .observe (c small)] ++
      [.observe (b small), .observe (r small a_lt_b), .observe (c small)])) := by
  refine same_outcome_of_same_resolutions (genesis_validated small) offered_inj
    (by simp [calls, offered, Call.entry]) (by simp [offered, Call.entry]) saturated_abrc ?_ fun e _ _ => ?_
  · rw [run_early_c]
    exact saturated_abrc
  · rw [run_early_c]

end Toy

end IrohRooms.Governance
