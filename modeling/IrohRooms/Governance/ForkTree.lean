import Mathlib.Data.List.Induction
import IrohRooms.Governance.Convergence

/-!
# The fork of a set of entries

A set of ordinary entries, each authorized by the state that its own predecessors in the set lead to, is a tree over
the genesis. Whatever order it is fed in, predecessors first, the machine retains exactly the tree; so it ends linear
at the last entry of a chain, and otherwise forked at the maximal entries over their last common ancestor, with one
and the same evidence.
-/

namespace IrohRooms.Governance

section Tree

variable {env : Env}

/-! ### Trees of entries -/

/-- The entries of `E` lead from the genesis over `e`, each authorized by the state before it, to the state `next`. -/
inductive Leads (genesis : ValidatedGovernanceState) (E : Set (VerifiedGovernanceEntry env)) :
    VerifiedGovernanceEntry env → GovernanceState → Prop
  | root {e : VerifiedGovernanceEntry env} {next : GovernanceState} (he : e ∈ E) (hprev : e.body.prev = none)
      (hauth : Authorised genesis e next) : Leads genesis E e next
  | child {e p : VerifiedGovernanceEntry env} {s next : GovernanceState} (he : e ∈ E) (hp : Leads genesis E p s)
      (hprev : e.body.prev = some p.id) (hauth : Authorised (p.node s).state e next) : Leads genesis E e next

/-- An ancestor-closed set of authorized entries, one for each id. -/
structure EntryTree (genesis : ValidatedGovernanceState) (E : Set (VerifiedGovernanceEntry env)) : Prop where
  single : ∀ x ∈ E, ∀ y ∈ E, x.id = y.id → x = y
  leads : ∀ e ∈ E, ∃ next, Leads genesis E e next

/-- `y` follows `x` in the set. -/
def Follows (E : Set (VerifiedGovernanceEntry env)) (x y : VerifiedGovernanceEntry env) : Prop :=
  x ∈ E ∧ y ∈ E ∧ y.body.prev = some x.id

/-- `x` is `y` or an ancestor of `y`. -/
def Below (E : Set (VerifiedGovernanceEntry env)) : VerifiedGovernanceEntry env → VerifiedGovernanceEntry env → Prop :=
  Relation.ReflTransGen (Follows E)

def IsChain (E : Set (VerifiedGovernanceEntry env)) : Prop := ∀ x ∈ E, ∀ y ∈ E, Below E x y ∨ Below E y x

def IsMaximal (E : Set (VerifiedGovernanceEntry env)) (e : VerifiedGovernanceEntry env) : Prop :=
  e ∈ E ∧ ∀ y, Below E e y → y = e

/-- The tip of the one maximal entry, or the genesis if there is no entry. -/
def AtMaximal (E : Set (VerifiedGovernanceEntry env)) (tip : GovernanceTip) : Prop :=
  (tip = .genesis ∧ ∀ e, e ∉ E) ∨
    ∃ e, tip = .entry e.body.seq e.id ∧ IsMaximal E e ∧ ∀ e', IsMaximal E e' → e' = e

/-- `a` is an ancestor of every maximal entry. -/
def IsCommon (E : Set (VerifiedGovernanceEntry env)) (a : VerifiedGovernanceEntry env) : Prop :=
  a ∈ E ∧ ∀ h, IsMaximal E h → Below E a h

/-- The tip of the last common ancestor of the maximal entries, or the genesis if they have none in the set. -/
def AtLastCommon (E : Set (VerifiedGovernanceEntry env)) (tip : GovernanceTip) : Prop :=
  (tip = .genesis ∧ ∀ a, ¬ IsCommon E a) ∨
    ∃ a, tip = .entry a.body.seq a.id ∧ IsCommon E a ∧ ∀ b, IsCommon E b → Below E b a

/-- A list of the entries of `E` in which every entry stands after its predecessor. -/
structure Enumerates (E : Set (VerifiedGovernanceEntry env)) (L : List (VerifiedGovernanceEntry env)) : Prop where
  mem : ∀ e, e ∈ L ↔ e ∈ E
  first : ∀ pre e post q, L = pre ++ e :: post → e.body.prev = some q → ∃ p ∈ pre, p.id = q

variable {genesis : ValidatedGovernanceState} {E : Set (VerifiedGovernanceEntry env)}
  {e p x y : VerifiedGovernanceEntry env} {s s' next next' : GovernanceState}

theorem Leads.mem (h : Leads genesis E e next) : e ∈ E := by
  cases h with
  | root he => exact he
  | child he => exact he

theorem Leads.ordinary (h : Leads genesis E e next) : e.body.payload.resolve? = none := by
  cases h with
  | root _ _ hauth => exact hauth.ordinary
  | child _ _ _ hauth => exact hauth.ordinary

theorem Authorised.next_eq {prev : ValidatedGovernanceState} (h : Authorised prev e next)
    (h' : Authorised prev e next') : next = next' :=
  Except.ok.inj (h.apply.symm.trans h'.apply)

namespace EntryTree

variable (hE : EntryTree genesis E)
include hE

/-- The state after an entry is determined. -/
theorem leads_unique (h : Leads genesis E e next) (h' : Leads genesis E e next') : next = next' := by
  induction h generalizing next' with
  | root he hprev hauth =>
    cases h' with
    | root _ _ hauth' => exact hauth.next_eq hauth'
    | child _ _ hprev' => exact absurd (hprev.symm.trans hprev') (by simp)
  | child he hp hprev hauth ih =>
    cases h' with
    | root _ hprev' => exact absurd (hprev'.symm.trans hprev) (by simp)
    | child _ hp' hprev' hauth' =>
      have hid := Option.some.inj (hprev.symm.trans hprev')
      obtain rfl := hE.single _ hp.mem _ hp'.mem hid
      obtain rfl := ih hp'
      exact hauth.next_eq hauth'

theorem closed (he : e ∈ E) {q : GovernanceId} (hprev : e.body.prev = some q) : ∃ p ∈ E, p.id = q := by
  obtain ⟨next, hnext⟩ := hE.leads e he
  cases hnext with
  | root _ hnone => exact absurd (hnone.symm.trans hprev) (by simp)
  | child _ hp hsome => exact ⟨_, hp.mem, Option.some.inj (hsome.symm.trans hprev)⟩

theorem seq_of_follows (h : Follows E x y) : y.body.seq.toNat = x.body.seq.toNat + 1 := by
  obtain ⟨hx, hy, hprev⟩ := h
  obtain ⟨next, hnext⟩ := hE.leads y hy
  cases hnext with
  | root _ hnone => exact absurd (hnone.symm.trans hprev) (by simp)
  | child _ hp hsome hauth =>
    obtain rfl := hE.single _ hp.mem _ hx (Option.some.inj (hsome.symm.trans hprev))
    exact hauth.seq

/-- An entry is maximal when none follows it. -/
theorem isMaximal_iff (he : e ∈ E) : IsMaximal E e ↔ ∀ y ∈ E, y.body.prev ≠ some e.id := by
  constructor
  · intro h y hy hprev
    have hfollows : Follows E e y := ⟨he, hy, hprev⟩
    have heq := h.2 y (.single hfollows)
    have hseq := hE.seq_of_follows hfollows
    rw [heq] at hseq
    omega
  · intro h
    refine ⟨he, fun y hbelow => ?_⟩
    rcases Relation.ReflTransGen.cases_head hbelow with heq | ⟨z, hz, -⟩
    · exact heq.symm
    · exact absurd hz.2.2 (h z hz.2.1)

end EntryTree

/-! ### Feeding a machine -/

namespace GovernanceMachine

/-- An ordinary entry goes to the call of the machine's mode. -/
def feedCall (m : GovernanceMachine) (e : VerifiedGovernanceEntry env) : Call env :=
  match m with
  | linear _ => .observe e
  | governanceForked _ => .ingest e

def feed (m : GovernanceMachine) (e : VerifiedGovernanceEntry env) : GovernanceMachine :=
  match m with
  | linear _ => (m.observeCommitted e).2
  | governanceForked _ => (m.ingestBranchEvidence e).2

def feedAll (m : GovernanceMachine) (L : List (VerifiedGovernanceEntry env)) : GovernanceMachine := L.foldl feed m

variable {m m' : GovernanceMachine}

theorem feed_eq (m : GovernanceMachine) (e : VerifiedGovernanceEntry env) : m.feed e = (m.call (m.feedCall e)).2 := by
  cases m <;> rfl

theorem feedCall_entry (m : GovernanceMachine) (e : VerifiedGovernanceEntry env) : (m.feedCall e).entry = e := by
  cases m <;> rfl

theorem applicable_feedCall : m.Applicable (m.feedCall e) ↔ m.lineage.Admits e := by
  cases m <;> exact Iff.rfl

/-- What feeding accepts, it retains on top of its predecessor. -/
theorem Step.feed_lineage (h : Step m (m.feedCall e) m') (inv : m.Inv E) :
    ∃ p next, m.lineage.pred e.body.prev = some p ∧ Authorised p e next ∧
      m'.lineage = m.lineage.insert e.id (e.node next) := by
  rcases m with l | f
  · rcases h with ⟨_, hauth⟩ | ⟨_, hp, _, hauth, hlineage, _⟩
    · exact ⟨_, _, hauth.back ▸ inv.mode.1, hauth, rfl⟩
    · exact ⟨_, _, hp, hauth, hlineage⟩
  · rcases h with _ | _ | ⟨_, hp, hauth, hlineage, _⟩
    exact ⟨_, _, hp, hauth, hlineage⟩

theorem Inv.feed (inv : m.Inv E) (hfree : CollisionFree E) (he : e ∈ E) : (m.feed e).Inv E := by
  rw [feed_eq]
  exact inv.call hfree (by rwa [feedCall_entry])

/-- Feeding an admitted entry adds its node, feeding any other entry changes nothing. -/
theorem Inv.feed_cases (inv : m.Inv E) :
    (∃ p next, m.lineage.get e.id = none ∧ m.lineage.pred e.body.prev = some p ∧ Authorised p e next ∧
      (m.feed e).lineage = m.lineage.insert e.id (e.node next)) ∨ (¬ m.lineage.Admits e ∧ m.feed e = m) := by
  rw [feed_eq]
  rcases inv.call_cases (m.feedCall e) with ⟨happ, hstep, -⟩ | ⟨hnot, hsame, -⟩
  · obtain ⟨p, next, hp, hauth, hlineage⟩ := Step.feed_lineage hstep inv
    exact Or.inl ⟨p, next, (applicable_feedCall.mp happ).1, hp, hauth, hlineage⟩
  · exact Or.inr ⟨fun hadm => hnot (applicable_feedCall.mpr hadm), hsame⟩

end GovernanceMachine

/-! ### The retained tree -/

/-- The lineage has the nodes of the listed entries and no others. -/
def Holds (genesis : ValidatedGovernanceState) (E : Set (VerifiedGovernanceEntry env)) (lineage : GovernanceLineage)
    (L : List (VerifiedGovernanceEntry env)) : Prop :=
  lineage.genesis = genesis ∧ ∀ id node, lineage.get id = some node ↔
    ∃ e ∈ L, ∃ next, Leads genesis E e next ∧ e.id = id ∧ node = e.node next

namespace EntryTree

variable {L L' pre : List (VerifiedGovernanceEntry env)} {m : GovernanceMachine}

theorem collisionFree (hE : EntryTree genesis E) : CollisionFree E := fun x hx y hy hxy => by
  rw [hE.single x hx y hy hxy]

/-- An entry that is not retained finds its predecessor. -/
theorem admits (hE : EntryTree genesis E) {lineage : GovernanceLineage} (h : Holds genesis E lineage pre)
    (hpre : ∀ x ∈ pre, x ∈ E) (hfirst : ∀ q, e.body.prev = some q → ∃ p ∈ pre, p.id = q)
    (hlead : Leads genesis E e next) : ∃ p, lineage.pred e.body.prev = some p ∧ Authorised p e next := by
  cases hlead with
  | root he hprev hauth =>
    refine ⟨genesis, ?_, hauth⟩
    rw [hprev, GovernanceLineage.pred, h.1]
  | @child _ p s _ he hp hprev hauth =>
    obtain ⟨p', hp', hid⟩ := hfirst p.id hprev
    obtain rfl := hE.single p' (hpre p' hp') p hp.mem hid
    refine ⟨(p'.node s).state, ?_, hauth⟩
    rw [hprev, GovernanceLineage.pred, (h.2 p'.id (p'.node s)).mpr ⟨p', hp', s, hp, rfl, rfl⟩]
    rfl

theorem holds_feed (hE : EntryTree genesis E) (inv : m.Inv E) (h : Holds genesis E m.lineage pre)
    (hpre : ∀ x ∈ pre, x ∈ E) (he : e ∈ E) (hfirst : ∀ q, e.body.prev = some q → ∃ p ∈ pre, p.id = q) :
    Holds genesis E (m.feed e).lineage (pre ++ [e]) := by
  obtain ⟨next, hlead⟩ := hE.leads e he
  rcases inv.feed_cases (e := e) with ⟨p, next', hnew, hp, hauth, hlineage⟩ | ⟨hnot, hsame⟩
  · obtain ⟨p', hp', hauth'⟩ := hE.admits h hpre hfirst hlead
    obtain rfl := Option.some.inj (hp.symm.trans hp')
    obtain rfl := hauth.next_eq hauth'
    refine ⟨by rw [hlineage]; exact h.1, fun id node => ?_⟩
    rw [hlineage, GovernanceLineage.get_insert]
    split_ifs with hid
    · subst hid
      constructor
      · intro heq
        exact ⟨e, by simp, next', hlead, rfl, (Option.some.inj heq).symm⟩
      · rintro ⟨x, hx, n, hn, hxid, rfl⟩
        obtain rfl := hE.single x hn.mem e he hxid
        rw [hE.leads_unique hlead hn]
    · rw [h.2]
      constructor
      · rintro ⟨x, hx, hrest⟩
        exact ⟨x, List.mem_append_left _ hx, hrest⟩
      · rintro ⟨x, hx, n, hn, hxid, hnode⟩
        rcases List.mem_append.mp hx with hx | hx
        · exact ⟨x, hx, n, hn, hxid, hnode⟩
        · rw [List.mem_singleton.mp hx] at hxid
          exact absurd hxid.symm hid
  · -- a repeated entry: everything else would have been admitted
    have hknown : e ∈ pre := by
      by_contra hout
      apply hnot
      have hnew : m.lineage.get e.id = none := by
        rw [Option.eq_none_iff_forall_ne_some]
        intro node hnode
        obtain ⟨x, hx, n, hn, hxid, -⟩ := (h.2 e.id node).mp hnode
        exact hout (hE.single x hn.mem e he hxid ▸ hx)
      obtain ⟨p, hp, hauth⟩ := hE.admits h hpre hfirst hlead
      exact ⟨hnew, p, next, hp, hauth⟩
    rw [hsame]
    refine ⟨h.1, fun id node => ?_⟩
    rw [h.2]
    have hmem : ∀ x, x ∈ pre ↔ x ∈ pre ++ [e] := by
      intro x
      rw [List.mem_append, List.mem_singleton]
      exact ⟨Or.inl, fun hx => hx.elim (fun hx => hx) fun hx => hx ▸ hknown⟩
    simp only [hmem]

/-- Every prefix of an enumeration leaves the machine with the nodes of that prefix. -/
theorem holds_feedAll (hE : EntryTree genesis E) (htip : genesis.tip = .genesis) (hwf : genesis.WellFormed env)
    (hL : Enumerates E L) (hpre : pre <+: L) :
    ((GovernanceMachine.fromGenesis genesis).feedAll pre).Inv E ∧
      Holds genesis E ((GovernanceMachine.fromGenesis genesis).feedAll pre).lineage pre := by
  induction pre using List.reverseRecOn with
  | nil =>
    refine ⟨GovernanceMachine.inv_fromGenesis htip hwf, rfl, fun id node => ?_⟩
    simp [GovernanceMachine.feedAll, GovernanceMachine.fromGenesis, GovernanceMachine.lineage, GovernanceLineage.new,
      GovernanceLineage.get]
  | append_singleton pre e ih =>
    obtain ⟨post, hpost⟩ := hpre
    rw [List.append_assoc, List.singleton_append] at hpost
    obtain ⟨inv, hholds⟩ := ih ⟨e :: post, hpost⟩
    have hmem : ∀ x ∈ pre ++ [e], x ∈ E := by
      intro x hx
      rw [← hL.mem, ← hpost]
      rcases List.mem_append.mp hx with hx | hx
      · exact List.mem_append_left _ hx
      · rw [List.mem_singleton.mp hx]
        simp
    rw [GovernanceMachine.feedAll, List.foldl_append]
    have he : e ∈ E := hmem e (by simp)
    refine ⟨inv.feed hE.collisionFree he, hE.holds_feed inv hholds (fun x hx => hmem x (by simp [hx])) he ?_⟩
    exact fun q hq => hL.first pre e post q hpost.symm hq

end EntryTree

/-! ### The last common ancestor -/

namespace GovernanceLineage

variable {lineage : GovernanceLineage} {heads : OrdSet GovernanceId}

theorem mem_ancestorIds {a h : GovernanceId} {chain : List GovernanceId} (hc : lineage.ancestorIds h = .ok chain) :
    a ∈ chain ↔ Ancestry.Above lineage.links a h :=
  Ancestry.mem_chain_iff (ancestorIds_eq_ok.mp hc)

theorem mem_meetChains {a : GovernanceId} {common rest l : List GovernanceId}
    (h : lineage.meetChains common rest = .ok l) :
    a ∈ l ↔ a ∈ common ∧ ∀ x ∈ rest, Ancestry.Above lineage.links a x := by
  induction rest generalizing common with
  | nil =>
    cases h
    simp
  | cons head rest ih =>
    obtain ⟨chain, hchain, hrest⟩ := bind_eq_ok_iff.mp h
    rw [ih hrest, List.mem_filter, decide_eq_true_iff, mem_ancestorIds hchain, List.forall_mem_cons, and_assoc]

/-- The common ancestor is an ancestor of every head, and every other one is an ancestor of it. -/
theorem commonAncestorOf_spec {tip : GovernanceTip} {root : StateRoot}
    (h : lineage.commonAncestorOf heads = .ok (tip, root)) :
    (tip = lineage.genesis.tip ∧ ∀ a, ¬ ∀ x ∈ heads, Ancestry.Above lineage.links a x) ∨
      ∃ a node, lineage.get a = some node ∧ tip = node.state.tip ∧
        (∀ x ∈ heads, Ancestry.Above lineage.links a x) ∧
        ∀ b, (∀ x ∈ heads, Ancestry.Above lineage.links b x) → Ancestry.Above lineage.links b a := by
  have hheads : ∀ first rest, heads.toList = first :: rest → ∀ a,
      (∀ x ∈ heads, Ancestry.Above lineage.links a x) ↔
        Ancestry.Above lineage.links a first ∧ ∀ x ∈ rest, Ancestry.Above lineage.links a x := by
    intro first rest hlist a
    rw [← List.forall_mem_cons, ← hlist]
    simp only [OrdSet.mem_toList]
  rw [commonAncestorOf] at h
  split at h
  · cases h
  · rename_i first rest hlist
    obtain ⟨chain, hchain, h⟩ := bind_eq_ok_iff.mp h
    obtain ⟨common, hcommon, h⟩ := bind_eq_ok_iff.mp h
    have hmem : ∀ a, a ∈ common ↔ ∀ x ∈ heads, Ancestry.Above lineage.links a x := by
      intro a
      rw [mem_meetChains hcommon, mem_ancestorIds hchain, hheads first rest hlist]
    split at h
    · rename_i hnone
      left
      refine ⟨(congrArg Prod.fst (Except.ok.inj h)).symm, fun a ha => ?_⟩
      have hin : a ∈ chain := (mem_ancestorIds hchain).mpr ((hheads first rest hlist a).mp ha).1
      have hout := List.find?_eq_none.mp hnone a hin
      exact hout (decide_eq_true ((hmem a).mpr ha))
    · rename_i id hfind
      split at h
      · rename_i node hnode
        right
        obtain ⟨hid, before, after, hsplit, hbefore⟩ := List.find?_eq_some_iff_append.mp hfind
        refine ⟨id, node, hnode, (congrArg Prod.fst (Except.ok.inj h)).symm, (hmem id).mp (of_decide_eq_true hid), ?_⟩
        intro b hb
        have hin : b ∈ chain := (mem_ancestorIds hchain).mpr ((hheads first rest hlist b).mp hb).1
        have hrest : lineage.ancestorIds first = .ok (before ++ id :: after) := hsplit ▸ hchain
        have hchain' := Ancestry.chain_append (ancestorIds_eq_ok.mp hrest)
        apply (Ancestry.mem_chain_iff hchain').mp
        -- nothing before the first common id is common
        rw [hsplit] at hin
        rcases List.mem_append.mp hin with hin | hin
        · have hout := hbefore b hin
          simp only [(hmem b).mpr hb, decide_true, Bool.not_true, Bool.false_eq_true] at hout
        · exact hin
      · cases h

end GovernanceLineage

/-! ### The order of the evidence -/

theorem headNodes_fst {lineage : GovernanceLineage} {l : List GovernanceId} {nodes : List (GovernanceId × LineageNode)}
    (h : headNodes lineage l = .ok nodes) : nodes.map Prod.fst = l := by
  induction l generalizing nodes with
  | nil =>
    cases h
    rfl
  | cons x l ih =>
    rw [headNodes] at h
    split at h
    · cases h
    · obtain ⟨rest, hrest, hnodes⟩ := bind_eq_ok_iff.mp h
      rw [← Except.ok.inj hnodes, List.map_cons, ih hrest]

/-- The branches of the evidence ascend by their heads. -/
def GovernanceForkEvidence.Ascending (evidence : GovernanceForkEvidence) : Prop :=
  evidence.branches.Pairwise fun a b => a.head < b.head

theorem buildForkedState_ascending {lineage : GovernanceLineage} {heads : OrdSet GovernanceId}
    {priorAudit : List GovernanceForkAuditRecord} {prior : ValidatedGovernanceState} {f : GovernanceForkedState}
    (h : buildForkedState lineage heads priorAudit prior = .ok f) : f.evidence.Ascending := by
  rw [buildForkedState] at h
  dsimp only at h
  split_ifs at h
  obtain ⟨common, -, h⟩ := bind_eq_ok_iff.mp h
  obtain ⟨stable, -, h⟩ := bind_eq_ok_iff.mp h
  obtain ⟨nodes, hnodes, h⟩ := bind_eq_ok_iff.mp h
  rw [← Except.ok.inj h]
  have hsorted := OrdMap.keys_sorted (maximalHeads lineage heads)
  rw [show (maximalHeads lineage heads).keys = nodes.map Prod.fst from (headNodes_fst hnodes).symm,
    List.pairwise_map] at hsorted
  exact List.pairwise_map.mpr hsorted

namespace GovernanceMachine

/-- The evidence of an open fork ascends. -/
def Ascending (m : GovernanceMachine) : Prop := ∀ f, m = governanceForked f → f.evidence.Ascending

theorem observeLinear_ascending {l l' : LinearGovernanceState} {f : GovernanceForkedState}
    {obs : GovernanceObservation} (h : observeLinear l e = (.ok (some f, obs), l')) : f.evidence.Ascending := by
  rw [observeLinear] at h
  split_ifs at h
  · simp at h
  · simp at h
  · split at h
    · simp at h
    · split at h
      · simp at h
      · split_ifs at h
        · split at h
          · simp at h
          · rename_i forked hforked
            simp only [Prod.mk.injEq, Except.ok.injEq, Option.some.injEq] at h
            rw [← h.1.1]
            rw [enterForkedFromLinear] at hforked
            split at hforked
            · cases hforked
            · exact buildForkedState_ascending hforked
        · simp at h

theorem Ascending.feed {m : GovernanceMachine} (h : m.Ascending) (e : VerifiedGovernanceEntry env) :
    (m.feed e).Ascending := by
  intro f hf
  rcases m with l | f₀
  · rw [GovernanceMachine.feed, observeCommitted] at hf
    split at hf
    · cases hf
    · rename_i forked obs l' hobs
      cases hf
      exact observeLinear_ascending hobs
    · cases hf
  · rw [GovernanceMachine.feed, ingestBranchEvidence] at hf
    split_ifs at hf
    · exact h f hf
    · exact h f hf
    · split at hf
      · exact h f hf
      · split at hf
        · exact h f hf
        · split at hf
          · exact h f hf
          · rename_i next hnext
            cases hf
            exact buildForkedState_ascending hnext

theorem ascending_feedAll (genesis : ValidatedGovernanceState) (L : List (VerifiedGovernanceEntry env)) :
    ((fromGenesis genesis).feedAll L).Ascending := by
  induction L using List.reverseRecOn with
  | nil =>
    intro f hf
    cases hf
  | append_singleton L e ih =>
    rw [feedAll, List.foldl_append]
    exact ih.feed e

end GovernanceMachine

/-! ### What the retained tree says -/

namespace EntryTree

variable {lineage : GovernanceLineage} {L : List (VerifiedGovernanceEntry env)} (hE : EntryTree genesis E)
  (hL : Enumerates E L) (h : Holds genesis E lineage L)
include hE

/-- Every entry is below a maximal one: sequence numbers are bounded. -/
theorem exists_maximal (he : e ∈ E) : ∃ x, IsMaximal E x ∧ Below E e x := by
  induction hn : 2 ^ 64 - e.body.seq.toNat using Nat.strong_induction_on generalizing e with
  | _ n ih =>
    by_cases hmax : ∀ y ∈ E, y.body.prev ≠ some e.id
    · exact ⟨e, (hE.isMaximal_iff he).mpr hmax, .refl⟩
    · push Not at hmax
      obtain ⟨y, hy, hprev⟩ := hmax
      have hfollows : Follows E e y := ⟨he, hy, hprev⟩
      have hseq := hE.seq_of_follows hfollows
      have hlt := y.body.seq.toNat_lt
      obtain ⟨x, hx, hbelow⟩ := ih (2 ^ 64 - y.body.seq.toNat) (by omega) hy rfl
      exact ⟨x, hx, .head hfollows hbelow⟩

/-- The ancestors of one entry are comparable. -/
theorem below_total {z : VerifiedGovernanceEntry env} (hx : Below E x z) (hy : Below E y z) :
    Below E x y ∨ Below E y x := by
  have hunique : Relator.RightUnique (Function.swap (Follows E)) := by
    intro b a a' ha ha'
    exact hE.single a ha.1 a' ha'.1 (Option.some.inj (ha.2.2.symm.trans ha'.2.2))
  rw [Below, ← Relation.reflTransGen_swap] at hx hy
  rcases Relation.ReflTransGen.total_of_right_unique hunique hx hy with hxy | hyx
  · exact Or.inr (Relation.reflTransGen_swap.mp hxy)
  · exact Or.inl (Relation.reflTransGen_swap.mp hyx)

theorem isChain_of_single (hone : ∀ x y, IsMaximal E x → IsMaximal E y → x = y) : IsChain E := by
  intro x hx y hy
  obtain ⟨a, ha, hxa⟩ := hE.exists_maximal hx
  obtain ⟨b, hb, hyb⟩ := hE.exists_maximal hy
  obtain rfl := hone a b ha hb
  exact hE.below_total hxa hyb

include hL h

omit hE in
theorem get_eq {id : GovernanceId} {node : LineageNode} :
    lineage.get id = some node ↔ ∃ e next, Leads genesis E e next ∧ e.id = id ∧ node = e.node next := by
  rw [h.2]
  constructor
  · rintro ⟨e, -, next, hrest⟩
    exact ⟨e, next, hrest⟩
  · rintro ⟨e, next, hlead, hrest⟩
    exact ⟨e, (hL.mem e).mpr hlead.mem, next, hlead, hrest⟩

/-- The live nodes are the maximal entries. -/
theorem live_iff {id : GovernanceId} : lineage.Live id ↔ ∃ e, IsMaximal E e ∧ e.id = id := by
  constructor
  · intro hlive
    obtain ⟨node, hnode⟩ := Option.isSome_iff_exists.mp hlive.known
    obtain ⟨e, next, hlead, rfl, rfl⟩ := (get_eq hL h).mp hnode
    refine ⟨e, (hE.isMaximal_iff hlead.mem).mpr fun y hy => ?_, rfl⟩
    obtain ⟨next', hlead'⟩ := hE.leads y hy
    exact hlive.childless y.id (y.node next') ((get_eq hL h).mpr ⟨y, next', hlead', rfl, rfl⟩)
  · rintro ⟨e, hmax, rfl⟩
    obtain ⟨next, hlead⟩ := hE.leads e hmax.1
    refine ⟨Option.isSome_iff_exists.mpr ⟨_, (get_eq hL h).mpr ⟨e, next, hlead, rfl, rfl⟩⟩, ?_, ?_⟩
    · intro y node hnode
      obtain ⟨y', next', hlead', rfl, rfl⟩ := (get_eq hL h).mp hnode
      exact (hE.isMaximal_iff hmax.1).mp hmax y' hlead'.mem
    · intro y node r hnode hr
      obtain ⟨y', next', hlead', rfl, rfl⟩ := (get_eq hL h).mp hnode
      exact absurd (hlead'.ordinary.symm.trans hr) (by simp)

theorem links_eq {id a : GovernanceId} :
    lineage.links id = some (some a) ↔ ∃ e ∈ E, e.id = id ∧ e.body.prev = some a := by
  rw [GovernanceLineage.links_eq_some]
  constructor
  · rintro ⟨node, hnode, hprev⟩
    obtain ⟨e, next, hlead, rfl, rfl⟩ := (get_eq hL h).mp hnode
    exact ⟨e, hlead.mem, rfl, hprev⟩
  · rintro ⟨e, he, rfl, hprev⟩
    obtain ⟨next, hlead⟩ := hE.leads e he
    exact ⟨e.node next, (get_eq hL h).mpr ⟨e, next, hlead, rfl, rfl⟩, hprev⟩

theorem above_iff {a : GovernanceId} (hy : y ∈ E) :
    Ancestry.Above lineage.links a y.id ↔ ∃ x ∈ E, Below E x y ∧ x.id = a := by
  constructor
  · intro habove
    generalize hid : y.id = id at habove
    induction habove generalizing y with
    | refl => exact ⟨y, hy, .refl, hid⟩
    | @tail b c _ hlink ih =>
      obtain ⟨e, he, heid, hprev⟩ := (hE.links_eq hL h).mp hlink
      obtain rfl := hE.single e he y hy (heid.trans hid.symm)
      obtain ⟨p, hp, rfl⟩ := hE.closed hy hprev
      obtain ⟨x, hx, hbelow, hxa⟩ := ih hp rfl
      exact ⟨x, hx, .tail hbelow ⟨hp, hy, hprev⟩, hxa⟩
  · rintro ⟨x, hx, hbelow, rfl⟩
    induction hbelow with
    | refl => exact .refl
    | @tail b c _ hfollows ih =>
      exact .tail (ih hfollows.1) ((hE.links_eq hL h).mpr ⟨c, hfollows.2.1, rfl, hfollows.2.2⟩)

/-- The common ancestor of the maximal heads is the last common ancestor of the maximal entries. -/
theorem atLastCommon (htip : genesis.tip = .genesis) {heads : OrdSet GovernanceId}
    (hheads : ∀ x, x ∈ heads ↔ ∃ e, IsMaximal E e ∧ e.id = x) {tip : GovernanceTip} {root : StateRoot}
    (hcommon : lineage.commonAncestorOf heads = .ok (tip, root)) : AtLastCommon E tip := by
  -- an id above every head is the id of a common entry
  have hids : ∀ a ∈ E, (∀ x ∈ heads, Ancestry.Above lineage.links a.id x) ↔ IsCommon E a := by
    intro a ha
    constructor
    · refine fun hall => ⟨ha, fun x hx => ?_⟩
      obtain ⟨b, hb, hbelow, hid⟩ := (hE.above_iff hL h hx.1).mp (hall x.id ((hheads _).mpr ⟨x, hx, rfl⟩))
      exact hE.single b hb a ha hid ▸ hbelow
    · intro hcom x hx
      obtain ⟨e, hmax, rfl⟩ := (hheads x).mp hx
      exact (hE.above_iff hL h hmax.1).mpr ⟨a, ha, hcom.2 e hmax, rfl⟩
  rcases GovernanceLineage.commonAncestorOf_spec hcommon with ⟨rfl, hnone⟩ | ⟨a, node, hnode, rfl, hall, hlast⟩
  · refine Or.inl ⟨by rw [h.1, htip], fun a ha => hnone a.id ((hids a ha.1).mpr ha)⟩
  · obtain ⟨e, next, hlead, rfl, rfl⟩ := (get_eq hL h).mp hnode
    refine Or.inr ⟨e, rfl, (hids e hlead.mem).mp hall, fun b hb => ?_⟩
    obtain ⟨x, hx, hbelow, hid⟩ := (hE.above_iff hL h hlead.mem).mp (hlast b.id ((hids b hb.1).mpr hb))
    exact hE.single x hx b hb.1 hid ▸ hbelow

end EntryTree

namespace GovernanceMachine

variable {m m' : GovernanceMachine} {L L' : List (VerifiedGovernanceEntry env)}

/-- Two machines that retain the same tree have the same evidence. -/
theorem evidence_eq {f f' : GovernanceForkedState} (inv : (governanceForked f).Inv E) (inv' : (governanceForked f').Inv E)
    (hlineage : f.lineage = f'.lineage) (hasc : f.evidence.Ascending) (hasc' : f'.evidence.Ascending) :
    f.evidence = f'.evidence := by
  have hf : f.Coherent := inv.mode
  have hf' : f'.Coherent := inv'.mode
  have hheads : OrdSet.ofList f.branches.keys = OrdSet.ofList f'.branches.keys := inv.heads_eq inv' hlineage
  have hkeys : ∀ x, x ∈ f.branches.keys ↔ x ∈ f'.branches.keys := by
    intro x
    rw [← OrdSet.mem_ofList, hheads, OrdSet.mem_ofList]
  have hstable := hf.stable
  rw [hlineage, hheads, hf'.stable, Except.ok.injEq, Prod.mk.injEq] at hstable
  obtain ⟨htip, hroot⟩ := hstable
  have hsame := hf.stableAt
  rw [hlineage, ← htip, hf'.stableAt, Except.ok.injEq] at hsame
  have hcommunity : f.evidence.communityId = f'.evidence.communityId := by rw [hf.community, hf'.community, hsame]
  have hbranches : f.evidence.branches = f'.evidence.branches := by
    have hmem : ∀ b, b ∈ f.evidence.branches ↔ b ∈ f'.evidence.branches := by
      intro b
      rw [hf.evidence, hf'.evidence, hlineage]
      simp only [hkeys]
    have hnodup : f.evidence.branches.Nodup := hasc.imp fun hlt heq => absurd (heq ▸ hlt) (lt_irrefl _)
    have hnodup' : f'.evidence.branches.Nodup := hasc'.imp fun hlt heq => absurd (heq ▸ hlt) (lt_irrefl _)
    apply ((List.perm_ext_iff_of_nodup hnodup hnodup').mpr hmem).eq_of_pairwise _ hasc hasc'
    intro a b _ _ hab hba
    exact absurd (hab.trans hba) (lt_irrefl _)
  rcases hev : f.evidence with ⟨c, t, r, bs⟩
  rcases hev' : f'.evidence with ⟨c', t', r', bs'⟩
  rw [hev, hev'] at hcommunity htip hroot hbranches
  simp only at hcommunity htip hroot hbranches
  rw [hcommunity, htip, hroot, hbranches]

/-- A machine that ends linear was fed a chain, and is at its last entry. -/
theorem linear_end {l : LinearGovernanceState} (hE : EntryTree genesis E) (hL : Enumerates E L)
    (inv : (linear l).Inv E) (hholds : Holds genesis E l.lineage L) : IsChain E ∧ AtMaximal E l.accepted.tip := by
  have htips : ∀ x, l.accepted.tip.id? = some x ↔ ∃ e, IsMaximal E e ∧ e.id = x := by
    intro x
    rw [← hE.live_iff hL hholds]
    have hlive := inv.live x
    rw [heads, OrdSet.mem_ofList, Option.mem_toList] at hlive
    exact hlive
  have hone : ∀ x y, IsMaximal E x → IsMaximal E y → x = y := by
    intro x y hx hy
    have hxy := ((htips x.id).mpr ⟨x, hx, rfl⟩).symm.trans ((htips y.id).mpr ⟨y, hy, rfl⟩)
    exact hE.single x hx.1 y hy.1 (Option.some.inj hxy)
  refine ⟨hE.isChain_of_single hone, ?_⟩
  rcases htip : l.accepted.tip with _ | ⟨seq, id⟩
  · refine Or.inl ⟨rfl, fun e he => ?_⟩
    obtain ⟨x, hx, -⟩ := hE.exists_maximal he
    have hnone := (htips x.id).mpr ⟨x, hx, rfl⟩
    rw [htip] at hnone
    cases hnone
  · obtain ⟨e, hmax, hid⟩ := (htips id).mp (by rw [htip]; rfl)
    obtain ⟨next, hlead⟩ := hE.leads e hmax.1
    have hstate := inv.mode.1
    rw [htip, GovernanceTip.id?, ← hid, GovernanceLineage.pred,
      (EntryTree.get_eq hL hholds).mpr ⟨e, next, hlead, rfl, rfl⟩] at hstate
    refine Or.inr ⟨e, ?_, hmax, fun e' he' => hone e' e he' hmax⟩
    rw [← htip, ← Option.some.inj hstate]
    rfl

/-- A machine that ends forked was not fed a chain; its heads are the maximal entries. -/
theorem forked_end {f : GovernanceForkedState} (hE : EntryTree genesis E) (htip : genesis.tip = .genesis)
    (hL : Enumerates E L) (inv : (governanceForked f).Inv E) (hholds : Holds genesis E f.lineage L) :
    ¬ IsChain E ∧ (∀ x, x ∈ f.branches.keys ↔ ∃ e, IsMaximal E e ∧ e.id = x) ∧
      AtLastCommon E f.evidence.stableTip ∧ f.stable.tip = f.evidence.stableTip := by
  have hf : f.Coherent := inv.mode
  have hheads : ∀ x, x ∈ OrdSet.ofList f.branches.keys ↔ ∃ e, IsMaximal E e ∧ e.id = x := by
    intro x
    rw [← hE.live_iff hL hholds]
    exact inv.live x
  have hkeys : ∀ x, x ∈ f.branches.keys ↔ ∃ e, IsMaximal E e ∧ e.id = x := by
    intro x
    rw [← hheads, OrdSet.mem_ofList]
  have hlast := hE.atLastCommon hL hholds htip hheads hf.stable
  refine ⟨fun hchain => ?_, hkeys, hlast, ?_⟩
  · obtain ⟨a, ha, b, hb, hab⟩ := hf.two
    obtain ⟨x, hx, rfl⟩ := (hkeys a).mp ha
    obtain ⟨y, hy, rfl⟩ := (hkeys b).mp hb
    rcases hchain x hx.1 y hy.1 with hxy | hyx
    · exact hab (by rw [hx.2 y hxy])
    · exact hab (by rw [hy.2 x hyx])
  · have hat := hf.stableAt
    rcases hlast with ⟨heq, -⟩ | ⟨a, heq, hcommon, -⟩
    · rw [heq, GovernanceLineage.stateAt, Except.ok.injEq] at hat
      rw [heq, ← hat, hholds.1, htip]
    · obtain ⟨next, hlead⟩ := hE.leads a hcommon.1
      rw [heq, GovernanceLineage.stateAt, (EntryTree.get_eq hL hholds).mpr ⟨a, next, hlead, rfl, rfl⟩,
        Except.ok.injEq] at hat
      rw [heq, ← hat]
      rfl

/-- The lineage is the tree, whatever the order. -/
theorem holds_unique {lineage lineage' : GovernanceLineage} (hL : Enumerates E L) (hL' : Enumerates E L')
    (h : Holds genesis E lineage L) (h' : Holds genesis E lineage' L') : lineage = lineage' := by
  have hnodes : lineage.nodes = lineage'.nodes := by
    refine OrdMap.ext_get? fun id => Option.ext fun node => ?_
    show lineage.get id = some node ↔ lineage'.get id = some node
    rw [EntryTree.get_eq hL h, EntryTree.get_eq hL' h']
  have hgenesis : lineage.genesis = lineage'.genesis := h.1.trans h'.1.symm
  cases lineage
  cases lineage'
  simp only at hnodes hgenesis
  rw [hnodes, hgenesis]

/-- In whatever order a tree of entries is fed, the machine ends linear at the last entry exactly when the tree is a
chain, and otherwise forked: the heads are the maximal entries, the stable snapshot is the one of their last common
ancestor, and the evidence is the same for every order. -/
theorem fork_characterisation {config : GenesisConfig} {signatures : List GenesisSignature}
    (hg : validatedGenesisState env config signatures = .ok genesis) (E : Set (VerifiedGovernanceEntry env))
    (hE : EntryTree genesis E) (L : List (VerifiedGovernanceEntry env)) (hL : Enumerates E L) :
    ((∃ l, (fromGenesis genesis).feedAll L = .linear l ∧ AtMaximal E l.accepted.tip) ↔ IsChain E) ∧
    (¬ IsChain E → ∃ f, (fromGenesis genesis).feedAll L = .governanceForked f ∧
      (∀ x, x ∈ f.branches.keys ↔ ∃ e, IsMaximal E e ∧ e.id = x) ∧
      AtLastCommon E f.evidence.stableTip ∧ f.stable.tip = f.evidence.stableTip ∧
      ∀ L', Enumerates E L' →
        ∃ f', (fromGenesis genesis).feedAll L' = .governanceForked f' ∧ f'.evidence = f.evidence) := by
  obtain ⟨htip, hwf⟩ := validatedGenesisState_eq_ok hg
  have hfed : ∀ L, Enumerates E L → ((fromGenesis genesis).feedAll L).Inv E ∧
      Holds genesis E ((fromGenesis genesis).feedAll L).lineage L := fun L hL =>
    hE.holds_feedAll htip hwf hL (List.prefix_refl L)
  have hlinear : ∀ L, Enumerates E L → ∀ l, (fromGenesis genesis).feedAll L = .linear l →
      IsChain E ∧ AtMaximal E l.accepted.tip := by
    intro L hL l hl
    obtain ⟨inv, hholds⟩ := hfed L hL
    rw [hl] at inv hholds
    exact linear_end hE hL inv hholds
  refine ⟨⟨fun ⟨l, hl, _⟩ => (hlinear L hL l hl).1, fun hchain => ?_⟩, fun hnot => ?_⟩
  · obtain ⟨inv, hholds⟩ := hfed L hL
    rcases hm : (fromGenesis genesis).feedAll L with l | f
    · exact ⟨l, rfl, (hlinear L hL l hm).2⟩
    · rw [hm] at inv hholds
      exact absurd hchain (forked_end hE htip hL inv hholds).1
  · have hends : ∀ L, Enumerates E L → ∃ f, (fromGenesis genesis).feedAll L = .governanceForked f := by
      intro L hL
      rcases hm : (fromGenesis genesis).feedAll L with l | f
      · exact absurd (hlinear L hL l hm).1 hnot
      · exact ⟨f, rfl⟩
    obtain ⟨f, hf⟩ := hends L hL
    obtain ⟨inv, hholds⟩ := hfed L hL
    have hasc := ascending_feedAll genesis L f hf
    rw [hf] at inv hholds
    obtain ⟨-, hkeys, hlast, hstable⟩ := forked_end hE htip hL inv hholds
    refine ⟨f, hf, hkeys, hlast, hstable, fun L' hL' => ?_⟩
    obtain ⟨f', hf'⟩ := hends L' hL'
    obtain ⟨inv', hholds'⟩ := hfed L' hL'
    have hasc' := ascending_feedAll genesis L' f' hf'
    rw [hf'] at inv' hholds'
    exact ⟨f', hf', evidence_eq inv' inv (holds_unique hL' hL hholds' hholds) hasc' hasc⟩

end GovernanceMachine

end Tree

/-! ### The worked fork -/

namespace Toy

open GovernanceMachine

/-- The two branches of the worked fork: `a`, and `b` with its successor `c`. -/
def branching : Set (VerifiedGovernanceEntry tailEnv) := {e | e ∈ [a small, b small, c small]}

theorem branching_tree : EntryTree (genesis small) branching where
  single x hx y hy hid := by
    have hmem : ∀ z ∈ branching, z ∈ offered := by
      intro z hz
      rcases List.mem_cons.mp hz with rfl | hz
      · simp [offered]
      · rcases List.mem_cons.mp hz with rfl | hz
        · simp [offered]
        · rw [List.mem_singleton.mp hz]
          simp [offered]
    exact offered_inj x (hmem x hx) y (hmem y hy) hid
  leads e he := by
    have hb : Leads (genesis small) branching (b small) (revoked (genesis small) 2) :=
      .root (by simp [branching]) rfl (authorised_b small)
    rcases List.mem_cons.mp he with rfl | he
    · exact ⟨_, .root (by simp [branching]) rfl (authorised_a small)⟩
    · rcases List.mem_cons.mp he with rfl | he
      · exact ⟨_, hb⟩
      · rw [List.mem_singleton.mp he]
        exact ⟨_, .child (by simp [branching]) hb rfl (authorised_c small)⟩

theorem enumerates_abc : Enumerates branching [a small, b small, c small] := by
  refine ⟨fun e => Iff.rfl, fun pre e post q hsplit hprev => ?_⟩
  rcases pre with _ | ⟨x, _ | ⟨y, _ | ⟨z, pre⟩⟩⟩ <;>
    simp only [List.nil_append, List.cons_append, List.cons.injEq] at hsplit
  · rw [← hsplit.1] at hprev
    cases hprev
  · rw [← hsplit.2.1] at hprev
    cases hprev
  · rw [← hsplit.2.2.1] at hprev
    exact ⟨b small, by simp [← hsplit.2.1], Option.some.inj hprev⟩
  · exact absurd hsplit.2.2.2 (by simp)

theorem enumerates_bca : Enumerates branching [b small, c small, a small] := by
  refine ⟨fun e => ?_, fun pre e post q hsplit hprev => ?_⟩
  · exact (@List.perm_append_comm _ [b small, c small] [a small]).mem_iff
  · rcases pre with _ | ⟨x, _ | ⟨y, _ | ⟨z, pre⟩⟩⟩ <;>
      simp only [List.nil_append, List.cons_append, List.cons.injEq] at hsplit
    · rw [← hsplit.1] at hprev
      cases hprev
    · rw [← hsplit.2.1] at hprev
      exact ⟨b small, by simp [← hsplit.1], Option.some.inj hprev⟩
    · rw [← hsplit.2.2.1] at hprev
      cases hprev
    · exact absurd hsplit.2.2.2 (by simp)

/-- Neither of `a` and `b` is below the other: only `c` has a predecessor, and it is `b`. -/
theorem branching_not_isChain : ¬ IsChain branching := by
  have hne : (a small).id ≠ (b small).id := a_lt_b.ne
  have hprev : ∀ z ∈ branching, z.body.prev = none ∨ z.body.prev = some (b small).id := by
    intro z hz
    rcases List.mem_cons.mp hz with rfl | hz
    · exact Or.inl rfl
    · rcases List.mem_cons.mp hz with rfl | hz
      · exact Or.inl rfl
      · rw [List.mem_singleton.mp hz]
        exact Or.inr rfl
  intro hchain
  rcases hchain (a small) (by simp [branching]) (b small) (by simp [branching]) with hab | hba
  · rcases Relation.ReflTransGen.cases_head hab with heq | ⟨z, hz, -⟩
    · exact hne (by rw [heq])
    · rcases hprev z hz.2.1 with hnone | hsome
      · exact absurd (hnone.symm.trans hz.2.2) (by simp)
      · exact hne (Option.some.inj (hz.2.2.symm.trans hsome))
  · rcases Relation.ReflTransGen.cases_tail hba with heq | ⟨z, -, hz⟩
    · exact hne (by rw [heq])
    · cases hz.2.2

/-- Both orders end in the same fork. -/
theorem fork_characterisation_branching :
    ∃ f f', (fromGenesis (genesis small)).feedAll [a small, b small, c small] = .governanceForked f ∧
      (fromGenesis (genesis small)).feedAll [b small, c small, a small] = .governanceForked f' ∧
      f'.evidence = f.evidence ∧ AtLastCommon branching f.evidence.stableTip := by
  obtain ⟨f, hf, -, hlast, -, hall⟩ := (fork_characterisation (genesis_validated small) branching branching_tree _
    enumerates_abc).2 branching_not_isChain
  obtain ⟨f', hf', hevidence⟩ := hall _ enumerates_bca
  exact ⟨f, f', hf, hf', hevidence, hlast⟩

end Toy

end IrohRooms.Governance
