import IrohRooms.Event.Build
import IrohRooms.Governance.Invariant

/-!
# Runs of the governance machine

Every machine that a run reaches from a verified genesis has a sound lineage, and a failed call leaves it as it is.
Ids are hashes, so the runs are those in which no two of the given entries collide.
-/

namespace IrohRooms.Governance

section Runs

variable {env : Env}

theorem validatedGenesisState_eq_ok {config : GenesisConfig} {signatures : List GenesisSignature}
    {genesis : ValidatedGovernanceState} (h : validatedGenesisState env config signatures = .ok genesis) :
    genesis.tip = .genesis ∧ genesis.WellFormed env := by
  obtain ⟨communityId, -, hg⟩ := bind_eq_ok_iff.mp h
  rw [← Except.ok.inj hg]
  refine ⟨rfl, rfl, fun seq id htip => ?_, rfl⟩
  exact absurd htip (by simp)

namespace GovernanceMachine

variable {E : Set (VerifiedGovernanceEntry env)} {m : GovernanceMachine} {genesis : ValidatedGovernanceState}

/-- The entries that a list of calls brings. -/
def entriesOf (calls : List (Call env)) : Set (VerifiedGovernanceEntry env) := {e | e ∈ calls.map Call.entry}

theorem inv_fromGenesis (htip : genesis.tip = .genesis) (hwf : genesis.WellFormed env) :
    (fromGenesis genesis).Inv E where
  sound := ⟨htip, hwf, fun id node h => absurd h (by simp [fromGenesis, lineage, GovernanceLineage.new,
    GovernanceLineage.get])⟩
  origin id node h := absurd h (by simp [fromGenesis, lineage, GovernanceLineage.new, GovernanceLineage.get])
  live id := by
    refine iff_of_false ?_ fun h => absurd h.known ?_
    · simp [fromGenesis, heads, htip, GovernanceTip.id?]
    · simp [fromGenesis, lineage, GovernanceLineage.new, GovernanceLineage.get]
  mode := by
    refine ⟨?_, fun _ _ => rfl⟩
    rw [htip]
    rfl

theorem Inv.call (inv : m.Inv E) (hE : CollisionFree E) {c : Call env} (hc : c.entry ∈ E) : (m.call c).2.Inv E := by
  rcases inv.call_cases c with ⟨-, hstep, -⟩ | ⟨-, hsame, -⟩
  · exact inv.step hE hc hstep
  · rwa [hsame]

theorem Inv.run (inv : m.Inv E) (hE : CollisionFree E) {calls : List (Call env)}
    (hcalls : ∀ c ∈ calls, c.entry ∈ E) : (m.run calls).Inv E := by
  induction calls generalizing m with
  | nil => exact inv
  | cons c calls ih =>
    exact ih (inv.call hE (hcalls c List.mem_cons_self)) fun c' hc' => hcalls c' (List.mem_cons_of_mem _ hc')

/-- A run from a verified genesis, whose entries belong to `E`. -/
theorem run_inv {config : GenesisConfig} {signatures : List GenesisSignature}
    (hg : validatedGenesisState env config signatures = .ok genesis) {calls : List (Call env)}
    (hE : CollisionFree E) (hcalls : ∀ c ∈ calls, c.entry ∈ E) : ((fromGenesis genesis).run calls).Inv E := by
  obtain ⟨htip, hwf⟩ := validatedGenesisState_eq_ok hg
  exact (inv_fromGenesis htip hwf).run hE hcalls

theorem Step.genesis_eq {m' : GovernanceMachine} {c : Call env} (h : Step m c m') :
    m'.lineage.genesis = m.lineage.genesis := by
  rcases h with ⟨_, _⟩ | ⟨_, _, _, _, hlineage, _, _, _, _⟩ | ⟨_, _, _, hlineage, _, _, _, _⟩ | ⟨_⟩
  · rfl
  · exact (congrArg GovernanceLineage.genesis hlineage :)
  · exact (congrArg GovernanceLineage.genesis hlineage :)
  · rfl

theorem Inv.run_genesis (inv : m.Inv E) (hE : CollisionFree E) {calls : List (Call env)}
    (hcalls : ∀ c ∈ calls, c.entry ∈ E) : (m.run calls).lineage.genesis = m.lineage.genesis := by
  induction calls generalizing m with
  | nil => rfl
  | cons c calls ih =>
    have hc := hcalls c List.mem_cons_self
    refine (ih (inv.call hE hc) fun c' hc' => hcalls c' (List.mem_cons_of_mem _ hc')).trans ?_
    rcases inv.call_cases c with ⟨-, hstep, -⟩ | ⟨-, hsame, -⟩
    · exact Step.genesis_eq hstep
    · rw [hsame]

theorem mem_entriesOf {calls : List (Call env)} : ∀ c ∈ calls, c.entry ∈ entriesOf calls :=
  fun _ hc => List.mem_map_of_mem hc

theorem collisionFree_of_nodup {calls : List (Call env)} (h : (calls.map fun c => c.entry.id).Nodup) :
    CollisionFree (entriesOf calls) := by
  intro x hx y hy hxy
  have hnodup : ((calls.map Call.entry).map VerifiedGovernanceEntry.id).Nodup := by
    rw [List.map_map]
    exact h
  rw [List.inj_on_of_nodup_map hnodup hx hy hxy]

theorem Inv.call_error (inv : m.Inv E) {c : Call env} {x : Reject} (h : (m.call c).1 = .error x) :
    (m.call c).2 = m := by
  rcases inv.call_cases c with ⟨-, -, obs, hobs, -⟩ | ⟨-, hsame, -⟩
  · rw [h] at hobs
    exact absurd hobs (by simp)
  · exact hsame

/-- Every node of a reachable lineage is sound, and a call that fails changes nothing. -/
theorem run_lineage_sound {config : GenesisConfig} {signatures : List GenesisSignature}
    (hg : validatedGenesisState env config signatures = .ok genesis) (calls : List (Call env))
    (hids : CollisionFree (entriesOf calls)) :
    (∀ id node, ((fromGenesis genesis).run calls).lineage.get id = some node →
      node.Sound env ((fromGenesis genesis).run calls).lineage id) ∧
    ∀ (c : Call env) x, (((fromGenesis genesis).run calls).call c).1 = .error x →
      (((fromGenesis genesis).run calls).call c).2 = (fromGenesis genesis).run calls := by
  have inv := run_inv hg hids mem_entriesOf
  exact ⟨inv.sound.nodes, fun c x h => inv.call_error h⟩

end GovernanceMachine

end Runs

/-! ### A worked community

Two administrators, of whom one suffices, two recovery keys, and a hash that keeps the last eight bytes of its input:
an entry's bytes end in its creation time, so entries of different times have different ids. `a` and `b` both follow
the genesis, `c` follows `b`, and `r` resolves the fork of `a` and `b` in favour of `a`. -/

namespace Toy

def tailEnv : Env :=
  { toyEnv with blake3 := fun bs => BitVec.ofNat 256 (Cbor.fromBeBytes (bs.drop (bs.length - 8))) }

def key (k : Nat) : SigningKey := BitVec.ofNat 256 k

def principal (k : Nat) : PrincipalId := ⟨tailEnv.publicKey (key k)⟩

section World

variable (recovery : RecoveryConfig)

def config : GenesisConfig where
  schemaVersion := 2
  createdAtMs := 0
  genesisNonce := Id.ofNat 7
  adminThreshold := 1
  administrators := [principal 1, principal 2]
  recovery := recovery
  replicas := []
  communityPolicy := .empty

def signatures : List GenesisSignature :=
  [⟨principal 1, tailEnv.sign (key 1) (signingMessage Domain.community (genesisConfigCsb (config recovery)))⟩]

def genesis : ValidatedGovernanceState :=
  let state := GovernanceState.fromGenesis (config recovery) (deriveCommunityId tailEnv (config recovery))
  ⟨state, .genesis, computeStateRoot tailEnv state⟩

theorem genesis_validated : validatedGenesisState tailEnv (config recovery) (signatures recovery) = .ok (genesis recovery) := by
  have hvalid : (config recovery).validate = .ok () := by
    -- the recovery keys are not validated
    show (config ⟨0, []⟩).validate = .ok ()
    rfl
  have hcount : countGenesisSignatures tailEnv (config recovery)
      (signingMessage Domain.community (genesisConfigCsb (config recovery))) (signatures recovery) OrdMap.empty 0 =
      .ok 1 := by
    have hsig : tailEnv.verify (principal 1).bits (signingMessage Domain.community (genesisConfigCsb (config recovery)))
        (tailEnv.sign (key 1) (signingMessage Domain.community (genesisConfigCsb (config recovery)))) = true :=
      tailEnv.verify_sign _ _
    simp only [signatures, countGenesisSignatures, hsig]
    rfl
  rw [validatedGenesisState, verifyGenesis, hvalid]
  simp only [bind, Except.bind, hcount]
  rfl

/-- The state after the revocation of invite `n`. -/
def revoked (p : ValidatedGovernanceState) (n : Nat) : GovernanceState :=
  { applyInviteRevokeAt p.state ⟨Id.ofNat n⟩ with acceptedSeq := p.state.acceptedSeq + 1 }

def revokeBody (p : ValidatedGovernanceState) (n : Nat) : GovernanceEntryBody :=
  ⟨p.state.communityId, p.state.acceptedSeq + 1, p.tip.id?, UInt64.ofNat n, .inviteRevoke, .inviteRevoke ⟨Id.ofNat n⟩,
    computeStateRoot tailEnv (revoked p n)⟩

theorem revokeBody_canonical {p : ValidatedGovernanceState} {n : Nat} (h : (p.tip, p.state.acceptedSeq) = (.genesis, 0)) :
    (revokeBody p n).Canonical := by
  obtain ⟨htip, hseq⟩ := Prod.mk.inj h
  refine ⟨rfl, ?_, iff_of_true ?_ ?_, nofun⟩
  · show p.state.acceptedSeq + 1 ≠ 0
    rw [hseq]
    decide
  · show p.tip.id? = none
    rw [htip]
    rfl
  · show p.state.acceptedSeq + 1 = 1
    rw [hseq]
    decide

def a : VerifiedGovernanceEntry tailEnv :=
  .sign tailEnv (key 1) (revokeBody (genesis recovery) 1) (revokeBody_canonical rfl)

def b : VerifiedGovernanceEntry tailEnv :=
  .sign tailEnv (key 2) (revokeBody (genesis recovery) 2) (revokeBody_canonical rfl)

/-- The snapshot after `a`. -/
def afterA : ValidatedGovernanceState := ((a recovery).node (revoked (genesis recovery) 1)).state

def afterB : ValidatedGovernanceState := ((b recovery).node (revoked (genesis recovery) 2)).state

def c : VerifiedGovernanceEntry tailEnv :=
  .sign tailEnv (key 2) (revokeBody (afterB recovery) 3) ⟨rfl, show (2 : UInt64) ≠ 0 by decide,
    iff_of_false (Option.some_ne_none _) (show (2 : UInt64) ≠ 1 by decide), nofun⟩

def resolve : ForkResolve :=
  ⟨[(a recovery).id, (b recovery).id], (a recovery).id, (afterA recovery).committedStateRoot, 4⟩

/-- The state after the resolution. -/
def resolved : GovernanceState :=
  { applyForkResolveAt (afterA recovery).state (resolve recovery) with acceptedSeq := 2 }

def r (h : (a recovery).id < (b recovery).id) : VerifiedGovernanceEntry tailEnv :=
  .sign tailEnv (key 8) ⟨(afterA recovery).state.communityId, 2, (afterA recovery).tip.id?, 4, .forkResolve,
    .forkResolve (resolve recovery), computeStateRoot tailEnv (resolved recovery)⟩
    ⟨rfl, show (2 : UInt64) ≠ 0 by decide,
      iff_of_false (Option.some_ne_none _) (show (2 : UInt64) ≠ 1 by decide), by
      intro p hp
      obtain rfl : resolve recovery = p := Option.some.inj hp
      exact ⟨by simpa [resolve] using h, by simp [resolve], by simp [resolve]⟩⟩

end World

def small : RecoveryConfig := ⟨1, [principal 8, principal 9]⟩

theorem a_lt_b : (a small).id < (b small).id := by decide +kernel

/-- `a` is accepted, `b` forks, `r` resolves and `c` forks again. -/
def calls : List (Call tailEnv) :=
  [.observe (a small), .observe (b small), .observe (r small a_lt_b), .observe (c small)]

/-- The ids of the calls and what is kept of them, evaluated in one go. -/
theorem calls_computed :
    [(a small).id, (b small).id, (r small a_lt_b).id, (c small).id].Nodup ∧
      ((GovernanceMachine.fromGenesis (genesis small)).run calls).lineage.nodes.keys.length = 4 := by
  decide +kernel

theorem ids_nodup : [(a small).id, (b small).id, (r small a_lt_b).id, (c small).id].Nodup := calls_computed.1

theorem calls_collisionFree : CollisionFree (GovernanceMachine.entriesOf calls) :=
  GovernanceMachine.collisionFree_of_nodup ids_nodup

theorem run_lineage_sound_calls :
    (∀ id node, ((GovernanceMachine.fromGenesis (genesis small)).run calls).lineage.get id = some node →
      node.Sound tailEnv ((GovernanceMachine.fromGenesis (genesis small)).run calls).lineage id) ∧
    ((GovernanceMachine.fromGenesis (genesis small)).run calls).lineage.nodes.keys.length = 4 :=
  ⟨(GovernanceMachine.run_lineage_sound (genesis_validated small) calls calls_collisionFree).1, calls_computed.2⟩

end Toy

end IrohRooms.Governance
