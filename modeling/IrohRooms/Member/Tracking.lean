import IrohRooms.Member.MapProjection

/-!
# The projection follows the machine

A projection of the genesis that is given every transition a machine commits, in the order of the commits, is at each
moment the projection of the snapshot the machine accepted last. While a fork is open that is the snapshot the fork was
detected at, which the resolution then names as its predecessor.
-/

namespace IrohRooms.Governance.GovernanceMachine

variable {env : Env}

/-- The snapshot accepted last. -/
def projected : GovernanceMachine → ValidatedGovernanceState
  | linear l => l.accepted
  | governanceForked f => f.projectionPrior

/-- The transition that a call commits. -/
def commit (m : GovernanceMachine) : Call env → Option CommittedGovernanceTransition
  | .observe e => match (m.observeCommitted e).1 with
    | .ok (_, transition) => transition
    | .error _ => none
  | .ingest _ => none

/-- The transitions that a list of calls commits, in their order. -/
def committed (m : GovernanceMachine) : List (Call env) → List CommittedGovernanceTransition
  | [] => []
  | c :: calls => (m.commit c).toList ++ (m.call c).2.committed calls

variable {E : Set (VerifiedGovernanceEntry env)} {m : GovernanceMachine}

/-- The snapshot accepted last can be reached, and is of the community of the lineage. -/
structure Anchored (env : Env) (m : GovernanceMachine) : Prop where
  genesis : m.lineage.genesis.state.Reachable env
  projected : m.projected.state.Reachable env
  community : m.projected.state.communityId = m.lineage.genesis.state.communityId

/-- What a committed transition is: an accepted entry, or the resolution of a fork. -/
inductive Commits (env : Env) : ValidatedGovernanceState → CommittedGovernanceTransition → Prop
  | advance {prior next : ValidatedGovernanceState} {entry : AuthenticatedGovernanceEvidence}
      (happly : applyEntry prior.state entry.body.seq entry.body.payload = .ok next.state) :
      Commits env prior ⟨prior, next, .linearAdvance, entry, none⟩
  | resolve {prior next : ValidatedGovernanceState} {entry : AuthenticatedGovernanceEvidence}
      {selected : Option ValidatedGovernanceState} (hnext : next.state.Reachable env)
      (hcommunity : next.state.communityId = prior.state.communityId) :
      Commits env prior ⟨prior, next, .forkResolution, entry, selected⟩

/-- A call commits a transition from the snapshot accepted last to the next one, or leaves that snapshot alone. -/
theorem Inv.commit_cases (inv : m.Inv E) (hanchor : m.Anchored env) (c : Call env) :
    (m.commit c = none ∧ (m.call c).2.projected = m.projected) ∨
      ∃ t, m.commit c = some t ∧ (m.call c).2.accepted = some t.next ∧ (m.call c).2.projected = t.next ∧
        Commits env m.projected t := by
  rcases m with l | f <;> rcases c with e | e
  · by_cases hadm : l.lineage.Admits e
    · obtain ⟨hnew, p, next, hp, hauth⟩ := hadm
      by_cases hprev : e.body.prev = l.accepted.tip.id?
      · obtain rfl : l.accepted = p := Option.some.inj (inv.mode.1.symm.trans (hprev ▸ hp))
        right
        rw [commit, GovernanceMachine.call, observeCommitted, inv.observeLinear_advance hnew hauth]
        exact ⟨_, rfl, rfl, rfl, .advance hauth.apply⟩
      · obtain ⟨f, hf, hstep⟩ := inv.observeLinear_fork hnew hp hprev hauth
        left
        rw [commit, GovernanceMachine.call, observeCommitted, hf]
        refine ⟨rfl, ?_⟩
        cases hstep with
        | fork _ _ _ _ _ _ hprior _ _ => exact hprior
    · left
      rcases inv.observeLinear_refuse hadm with ⟨x, hx⟩ | hx <;> rw [commit, GovernanceMachine.call, observeCommitted, hx]
      · exact ⟨rfl, rfl⟩
      · exact ⟨rfl, rfl⟩
  · exact .inl ⟨rfl, rfl⟩
  · rcases hl : observeForked f e with x | l
    · left
      rw [commit, GovernanceMachine.call, observeCommitted, hl]
      exact ⟨rfl, rfl⟩
    · right
      obtain ⟨r, selected, resolved, hres, rfl⟩ := observeForked_eq_ok.mp hl
      rw [commit, GovernanceMachine.call, observeCommitted, hl]
      refine ⟨_, rfl, rfl, rfl, .resolve ?_ ?_⟩
      · obtain ⟨node, hnode, hstate⟩ := inv.mode.states _ _ hres.branch
        have hselected : selected.state.Reachable env := hstate ▸ inv.sound.reachable hanchor.genesis hnode
        exact .apply hselected hres.apply
      · have hcommunity := (hres.node_sound inv.sound inv.mode).community
        exact hcommunity.trans hanchor.community.symm
  · left
    by_cases hadm : f.lineage.Admits e
    · obtain ⟨hnew, p, next, hp, hauth⟩ := hadm
      obtain ⟨f', hf', hstep⟩ := inv.ingest_grow hnew hp hauth
      rw [GovernanceMachine.call, hf']
      refine ⟨rfl, ?_⟩
      cases hstep with
      | grow _ _ _ _ _ hprior _ _ => exact hprior
    · rcases inv.ingest_refuse hadm with ⟨x, hx⟩ | hx <;> rw [GovernanceMachine.call, hx]
      · exact ⟨rfl, rfl⟩
      · exact ⟨rfl, rfl⟩

/-- An anchored machine stays anchored. -/
theorem Inv.anchored_call (inv : m.Inv E) (hanchor : m.Anchored env) (c : Call env) : (m.call c).2.Anchored env := by
  have hgenesis : (m.call c).2.lineage.genesis = m.lineage.genesis := by
    rcases inv.call_cases c with ⟨-, hstep, -⟩ | ⟨-, hsame, -⟩
    · exact Step.genesis_eq hstep
    · rw [hsame]
  rcases inv.commit_cases hanchor c with ⟨-, hsame⟩ | ⟨t, -, -, hnext, hcommits⟩
  · exact ⟨hgenesis ▸ hanchor.genesis, hsame ▸ hanchor.projected, by rw [hsame, hgenesis, hanchor.community]⟩
  · refine ⟨hgenesis ▸ hanchor.genesis, ?_, ?_⟩
    · rw [hnext]
      cases hcommits with
      | advance happly => exact .apply hanchor.projected happly
      | resolve hreach _ => exact hreach
    · rw [hnext, hgenesis, ← hanchor.community]
      cases hcommits with
      | advance happly => exact applyEntry_communityId happly
      | resolve _ hcommunity => exact hcommunity

end IrohRooms.Governance.GovernanceMachine

namespace IrohRooms.Member.MemberMapProjection

open Governance GovernanceMachine

variable {env : Env} {E : Set (VerifiedGovernanceEntry env)} {m : GovernanceMachine} {p : MemberMapProjection}

variable (env) in
/-- The projection after a list of transitions. -/
def follow (p : MemberMapProjection) (transitions : List CommittedGovernanceTransition) :
    Except Reject MemberMapProjection :=
  transitions.foldlM (fun p t => (p.applyCommitted env t).map Prod.fst) p

theorem applyCommitted_commits {t : CommittedGovernanceTransition} (h : p.Mirrors env m.projected)
    (hanchor : m.Anchored env) (hcommits : Commits env m.projected t) (hfit : RecordsFit t.next.state) :
    ∃ q update, p.applyCommitted env t = .ok (q, update) ∧ q.Mirrors env t.next := by
  cases hcommits with
  | advance happly => exact applyCommitted_linear h hanchor.projected happly hfit
  | resolve hnext hcommunity => exact applyCommitted_fork h hnext hcommunity hfit

/-- A projection of the snapshot accepted last follows a run. -/
theorem follow_mirrors (inv : m.Inv E) (hE : CollisionFree E) (hanchor : m.Anchored env) {calls : List (Call env)}
    (hcalls : ∀ c ∈ calls, c.entry ∈ E) (hfit : ∀ t ∈ m.committed calls, RecordsFit t.next.state)
    (hlast : RecordsFit m.projected.state) (h : p.Mirrors env m.projected) :
    ∃ q, p.follow env (m.committed calls) = .ok q ∧ q.Mirrors env (m.run calls).projected ∧
      (m.run calls).Anchored env ∧ RecordsFit (m.run calls).projected.state := by
  induction calls generalizing m p with
  | nil => exact ⟨p, rfl, h, hanchor, hlast⟩
  | cons c calls ih =>
    have inv' := inv.call hE (hcalls c List.mem_cons_self)
    have hanchor' := inv.anchored_call hanchor c
    have hcalls' : ∀ c' ∈ calls, c'.entry ∈ E := fun c' hc' => hcalls c' (List.mem_cons_of_mem _ hc')
    rw [committed] at hfit ⊢
    rcases inv.commit_cases hanchor c with ⟨hnone, hsame⟩ | ⟨t, hsome, -, hnext, hcommits⟩
    · rw [hnone] at hfit ⊢
      exact ih inv' hanchor' hcalls' hfit (hsame ▸ hlast) (hsame ▸ h)
    · rw [hsome] at hfit ⊢
      obtain ⟨q, update, happly, hq⟩ := applyCommitted_commits h hanchor hcommits (hfit t (by simp))
      obtain ⟨q', hfollow, hq'⟩ := ih inv' hanchor' hcalls'
        (fun t' ht' => hfit t' (List.mem_append_right _ ht')) (hnext ▸ hfit t (by simp)) (hnext ▸ hq)
      refine ⟨q', ?_, hq'⟩
      rw [follow, Option.toList_some, List.singleton_append, List.foldlM_cons, happly]
      exact hfollow

/-- A projection of the genesis that is given the transitions of a run never refuses one and is, after each of them, the
projection built afresh from the snapshot that the machine has accepted. -/
theorem applyCommitted_tracks {config : GenesisConfig} {signatures : List GenesisSignature}
    {genesis : ValidatedGovernanceState} (hg : validatedGenesisState env config signatures = .ok genesis)
    (calls : List (Call env)) (hids : CollisionFree (entriesOf calls)) (hfirst : RecordsFit genesis.state)
    (hfit : ∀ t ∈ (fromGenesis genesis).committed calls, RecordsFit t.next.state) :
    ∃ p₀, fromValidatedState env genesis = .ok p₀ ∧
      ∃ p, p₀.follow env ((fromGenesis genesis).committed calls) = .ok p ∧
        fromValidatedState env ((fromGenesis genesis).run calls).projected = .ok p ∧
        ∀ (c : Call env) t, ((fromGenesis genesis).run calls).commit c = some t → RecordsFit t.next.state →
          (((fromGenesis genesis).run calls).call c).2.accepted = some t.next ∧
            ∃ q update, p.applyCommitted env t = .ok (q, update) ∧ fromValidatedState env t.next = .ok q := by
  obtain ⟨htip, hwf⟩ := validatedGenesisState_eq_ok hg
  have hreach : genesis.state.Reachable env := by
    obtain ⟨communityId, hverify, hstate⟩ := bind_eq_ok_iff.mp hg
    rw [← Except.ok.inj hstate]
    exact .genesis hverify
  have inv : (fromGenesis genesis).Inv (entriesOf calls) := inv_fromGenesis htip hwf
  have hanchor : (fromGenesis genesis).Anchored env := ⟨hreach, hreach, rfl⟩
  obtain ⟨p₀, hbuild, hp₀⟩ := fromValidatedState_mirrors hreach hfirst
  obtain ⟨p, hfollow, hp, hanchor', hfits⟩ := follow_mirrors inv hids hanchor mem_entriesOf hfit hfirst hp₀
  -- what mirrors a snapshot is what is built from it
  have hrebuild : ∀ (s : ValidatedGovernanceState) (q : MemberMapProjection), s.state.Reachable env → RecordsFit s.state →
      q.Mirrors env s → fromValidatedState env s = .ok q := by
    intro s q hs hfit hq
    obtain ⟨q', hbuild', hq'⟩ := fromValidatedState_mirrors hs hfit
    rw [hbuild', hq'.unique hq]
  refine ⟨p₀, hbuild, p, hfollow, hrebuild _ p hanchor'.projected hfits hp, fun c t hcommit hnext => ?_⟩
  have inv' := inv.run hids mem_entriesOf
  rcases inv'.commit_cases hanchor' c with ⟨hnone, -⟩ | ⟨t', hsome, haccepted, hprojected, hcommits⟩
  · rw [hnone] at hcommit
    cases hcommit
  · obtain rfl : t' = t := Option.some.inj (hsome.symm.trans hcommit)
    obtain ⟨q, update, happly, hq⟩ := applyCommitted_commits hp hanchor' hcommits hnext
    have hreach' := (inv'.anchored_call hanchor' c).projected
    rw [hprojected] at hreach'
    exact ⟨haccepted, q, update, happly, hrebuild _ q hreach' hnext hq⟩

end IrohRooms.Member.MemberMapProjection

namespace IrohRooms.Governance.Toy

open GovernanceMachine Member MemberMapProjection

theorem recordsFit_of_values {s : GovernanceState}
    (h : (s.records.values.all fun r => decide (r.canonicalBytes.length ≤ Cbor.usizeMax)) = true) : RecordsFit s := by
  intro a r hr
  exact of_decide_eq_true (List.all_eq_true.mp h r (OrdMap.mem_values.mpr ⟨a, hr⟩))

/-- `a` advances the tip and `r` resolves the fork. -/
theorem applyCommitted_tracks_calls :
    ((fromGenesis (genesis small)).committed calls).length = 2 ∧
      ∃ p₀ p, fromValidatedState tailEnv (genesis small) = .ok p₀ ∧
        p₀.follow tailEnv ((fromGenesis (genesis small)).committed calls) = .ok p := by
  have hcommitted : (((fromGenesis (genesis small)).committed calls).all fun t =>
      t.next.state.records.values.all fun r => decide (r.canonicalBytes.length ≤ Cbor.usizeMax)) = true := by
    decide +kernel
  obtain ⟨p₀, hbuild, p, hfollow, -⟩ := applyCommitted_tracks (genesis_validated small) calls calls_collisionFree
    (recordsFit_of_values (by decide))
    fun t ht => recordsFit_of_values (List.all_eq_true.mp hcommitted t ht)
  exact ⟨by decide +kernel, p₀, p, hbuild, hfollow⟩

end IrohRooms.Governance.Toy
