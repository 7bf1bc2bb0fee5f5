import IrohRooms.Event.Build
import IrohRooms.Membership.Authenticity

/-!
# The join gate

A join should pass exactly when some admin invite among its ancestors is *live* for it and the room has a slot.
The code scans the naming invites in id order, gives up at the first one that is expired or has another role, and
checks consumption for the lowest id only. `accepted_join_iff` says when this agrees with the existential rule.
-/

namespace IrohRooms

variable {env : Env} {room : RoomId}

/-! ### The scan -/

section Scan

variable {admin : IdentityKey} {event : SignedEvent} {content : MemberJoined}

theorem namingInvite_eq_some {e : Entry} {invite : MemberInvited} :
    namingInvite env room admin event content e = some invite ↔
      e.accepted = true ∧ e.event.content = .memberInvited invite ∧ invite.inviteId = content.viaInviteId ∧
        invite.inviteeKey = event.senderId ∧ e.event.senderId = admin ∧
        env.capabilityHash room content.viaInviteId content.capabilitySecret = invite.capabilityHash := by
  unfold namingInvite
  constructor
  · intro h
    split_ifs at h with hacc
    split at h
    · rename_i inv hc
      split_ifs at h with h₁ h₂
      obtain rfl := Option.some.inj h
      push Not at h₁ h₂
      exact ⟨hacc, hc, h₁.1, h₁.2.1, h₁.2.2, h₂⟩
    · cases h
  · rintro ⟨hacc, hc, h₁, h₂, h₃, h₄⟩
    simp [hacc, hc, h₁, h₂, h₃, h₄]

/-- The invite's signed terms fit the join: unexpired at its time, and the same role. -/
def TermsMatch (event : SignedEvent) (content : MemberJoined) (invite : MemberInvited) : Prop :=
  (∀ expiry, invite.expiresAt = some expiry → event.createdAt ≤ expiry) ∧ invite.role = content.role

theorem inviteExpired_eq_false {invite : MemberInvited} {createdAt : Nat} :
    inviteExpired invite createdAt = false ↔ ∀ expiry, invite.expiresAt = some expiry → createdAt ≤ expiry := by
  unfold inviteExpired
  cases invite.expiresAt <;> simp

theorem scanInvites_cons {e : Entry} {rest : List Entry} {matched : Option EventId} {invite : MemberInvited}
    (hn : namingInvite env room admin event content e = some invite) (ht : TermsMatch event content invite) :
    scanInvites env room admin event content (e :: rest) matched =
      scanInvites env room admin event content rest (some ((matched.map (min · e.id)).getD e.id)) := by
  obtain ⟨hexp, hrole⟩ := ht
  simp only [scanInvites, hn, inviteExpired_eq_false.mpr hexp, hrole, ne_eq, not_true_eq_false, if_false,
    Bool.false_eq_true]
  cases matched with
  | none => rfl
  | some x =>
    simp only [Option.map_some, Option.getD_some, min_def]

theorem scanInvites_cons_none {e : Entry} {rest : List Entry} {matched : Option EventId}
    (hn : namingInvite env room admin event content e = none) :
    scanInvites env room admin event content (e :: rest) matched =
      scanInvites env room admin event content rest matched := by
  simp only [scanInvites, hn]

/-- A scan succeeds exactly when every naming invite's terms match. -/
theorem scanInvites_ok_iff {l : List Entry} {matched : Option EventId} :
    (∃ r, scanInvites env room admin event content l matched = .ok r) ↔
      ∀ e ∈ l, ∀ invite, namingInvite env room admin event content e = some invite →
        TermsMatch event content invite := by
  induction l generalizing matched with
  | nil => simp [scanInvites]
  | cons e rest ih =>
    cases hn : namingInvite env room admin event content e with
    | none =>
      rw [scanInvites_cons_none hn, ih]
      simp [hn]
    | some invite =>
      by_cases ht : TermsMatch event content invite
      · rw [scanInvites_cons hn ht, ih]
        simp [hn, ht]
      · constructor
        · rintro ⟨r, hr⟩
          simp only [scanInvites, hn] at hr
          split_ifs at hr with h₁ h₂
          exact absurd ⟨inviteExpired_eq_false.mp (Bool.eq_false_iff.mpr h₁), (not_not.mp h₂).symm⟩ ht
        · intro hall
          exact absurd (hall e List.mem_cons_self invite hn) ht

/-- The match of a successful scan is the lowest naming invite. -/
theorem scanInvites_result {l : List Entry} {matched r : Option EventId}
    (h : scanInvites env room admin event content l matched = .ok r) :
    (r = none ↔ matched = none ∧ ∀ e ∈ l, namingInvite env room admin event content e = none) ∧
    ∀ i, r = some i →
      (matched = some i ∨ ∃ e ∈ l, e.id = i ∧ namingInvite env room admin event content e ≠ none) ∧
      (∀ x, matched = some x → i ≤ x) ∧
      ∀ e ∈ l, namingInvite env room admin event content e ≠ none → i ≤ e.id := by
  induction l generalizing matched with
  | nil =>
    cases h
    refine ⟨by simp, fun i hi => ⟨Or.inl hi, fun x hx => ?_, by simp⟩⟩
    rw [hi, Option.some.injEq] at hx
    exact hx.le
  | cons e rest ih =>
    cases hn : namingInvite env room admin event content e with
    | none =>
      rw [scanInvites_cons_none hn] at h
      obtain ⟨hnone, hsome⟩ := ih h
      refine ⟨by rw [hnone]; simp [hn], fun i hi => ?_⟩
      obtain ⟨horig, hmin, hle⟩ := hsome i hi
      refine ⟨horig.imp_right fun ⟨e', he', hid⟩ => ⟨e', List.mem_cons_of_mem _ he', hid⟩, hmin, ?_⟩
      intro e' he' hne
      rcases List.mem_cons.mp he' with rfl | he'
      · exact absurd hn hne
      · exact hle e' he' hne
    | some invite =>
      have ht : TermsMatch event content invite :=
        (scanInvites_ok_iff.mp ⟨r, h⟩) e List.mem_cons_self invite hn
      rw [scanInvites_cons hn ht] at h
      obtain ⟨hnone, hsome⟩ := ih h
      refine ⟨?_, fun i hi => ?_⟩
      · constructor
        · intro hr
          exact absurd (hnone.mp hr).1 (by simp)
        · rintro ⟨-, hall⟩
          exact absurd hn (by simp [hall e List.mem_cons_self])
      obtain ⟨horig, hmin, hle⟩ := hsome i hi
      have hi' := hmin _ rfl
      have hbound : (∀ x, matched = some x → i ≤ x) ∧ i ≤ e.id := by
        cases matched with
        | none => exact ⟨by simp, hi'⟩
        | some x =>
          simp only [Option.map_some, Option.getD_some, le_min_iff] at hi'
          exact ⟨fun y hy => Option.some.inj hy ▸ hi'.1, hi'.2⟩
      refine ⟨?_, hbound.1, ?_⟩
      · rcases horig with horig | ⟨e', he', hid⟩
        · rw [Option.some.injEq] at horig
          cases matched with
          | none => exact Or.inr ⟨e, List.mem_cons_self, horig, by simp [hn]⟩
          | some x =>
            rcases min_choice x e.id with hx | hx
            · exact Or.inl (by simpa [hx] using horig)
            · exact Or.inr ⟨e, List.mem_cons_self, by simpa [hx] using horig, by simp [hn]⟩
        · exact Or.inr ⟨e', List.mem_cons_of_mem _ he', hid⟩
      · intro e' he' hne
        rcases List.mem_cons.mp he' with rfl | he'
        · exact hbound.2
        · exact hle e' he' hne

/-- The join gate passes exactly when all naming invites match in their terms, the lowest one is not consumed,
and there is room. -/
theorem gateJoin_ok_iff {ancestors : List Entry} {view : MembershipSnapshot} (ha : view.admin = some admin) :
    gateJoin env room event content ancestors view = .ok () ↔
      (∀ e ∈ ancestors, ∀ invite, namingInvite env room admin event content e = some invite →
        TermsMatch event content invite) ∧
      (∃ e ∈ ancestors, namingInvite env room admin event content e ≠ none ∧
        (∀ e' ∈ ancestors, namingInvite env room admin event content e' ≠ none → e.id ≤ e'.id) ∧
        departureConsumes event.senderId e.id ancestors = false) ∧
      (view.isActive event.senderId = true ∨ view.activeMemberCount < env.maxActiveMembers) := by
  unfold gateJoin
  rw [ha]
  constructor
  · intro h
    cases hs : scanInvites env room admin event content ancestors none with
    | error reason => simp [hs] at h
    | ok r =>
      cases r with
      | none => simp [hs] at h
      | some i =>
        simp only [hs] at h
        split_ifs at h with h₁ h₂
        obtain ⟨horig, -, hle⟩ := (scanInvites_result hs).2 i rfl
        obtain ⟨e, he, rfl, hne⟩ := horig.resolve_left (by simp)
        refine ⟨scanInvites_ok_iff.mp ⟨_, hs⟩, ⟨e, he, hne, hle, Bool.eq_false_iff.mpr h₁⟩, ?_⟩
        by_cases hact : view.isActive event.senderId = true
        · exact Or.inl hact
        · simp only [hact, Bool.not_false, Bool.true_and, decide_eq_true_eq] at h₂
          exact Or.inr (by simpa [hact] using h₂)
  · rintro ⟨hterms, ⟨e, he, hne, hmin, hcons⟩, hroom⟩
    obtain ⟨r, hs⟩ : ∃ r, scanInvites env room admin event content ancestors none = .ok r :=
      scanInvites_ok_iff.mpr hterms
    obtain ⟨hnone, hsome⟩ := scanInvites_result hs
    cases r with
    | none => exact absurd ((hnone.mp rfl).2 e he) hne
    | some i =>
      obtain ⟨horig, -, hle⟩ := hsome i rfl
      obtain ⟨e', he', hid, hne'⟩ := horig.resolve_left (by simp)
      have hi : i = e.id := le_antisymm (hle e he hne) (hid ▸ hmin e' he' hne')
      simp only [hs, hi, hcons, Bool.false_eq_true, if_false]
      rw [if_neg]
      rcases hroom with hact | hlt
      · simp [hact]
      · simp only [Bool.and_eq_true, decide_eq_true_eq, not_and]
        exact fun _ => not_le.mpr hlt

end Scan

theorem exists_lowest {l : List Entry} (hne : l ≠ []) : ∃ low ∈ l, ∀ e ∈ l, low.id ≤ e.id := by
  induction l with
  | nil => exact absurd rfl hne
  | cons e l ih =>
    by_cases hl : l = []
    · exact ⟨e, List.mem_cons_self, by simp [hl]⟩
    · obtain ⟨low, hlow, hmin⟩ := ih hl
      rcases le_total e.id low.id with hle | hle
      · refine ⟨e, List.mem_cons_self, fun e' he' => ?_⟩
        rcases List.mem_cons.mp he' with rfl | he'
        · exact le_refl _
        · exact hle.trans (hmin e' he')
      · refine ⟨low, List.mem_cons_of_mem _ hlow, fun e' he' => ?_⟩
        rcases List.mem_cons.mp he' with rfl | he'
        · exact hle
        · exact hmin e' he'

/-! ### The rule over whole runs -/

namespace RoomMembership

variable (m : RoomMembership env room)

/-- An accepted invite of `admin` below the join that names its sender, its invite id and its capability. -/
structure Candidate (join : EventId) (event : SignedEvent) (content : MemberJoined) (admin : IdentityKey)
    (i : EventId) (invite : MemberInvited) : Prop where
  below : Staged.Below m.deps i join
  accepted : m.isAccepted i = true
  authored : ∃ e, m.event? i = some e ∧ e.content = .memberInvited invite ∧ e.senderId = admin
  inviteId : invite.inviteId = content.viaInviteId
  inviteeKey : invite.inviteeKey = event.senderId
  capability : invite.capabilityHash = env.capabilityHash room content.viaInviteId content.capabilitySecret

/-- An accepted departure of the subject lies below the join and descends from the invite. -/
def Consumed (join : EventId) (subject : IdentityKey) (i : EventId) : Prop :=
  ∃ d e, Staged.Below m.deps d join ∧ m.isAccepted d = true ∧ m.event? d = some e ∧
    statusContribution e.content = some .removed ∧ touched e = some subject ∧ Staged.Below m.deps i d

/-- The documented rule: some candidate's terms match and no departure consumed it, and there is room. -/
def JoinRule (join : EventId) (event : SignedEvent) (content : MemberJoined) (admin : IdentityKey)
    (view : MembershipSnapshot) : Prop :=
  (∃ i invite, m.Candidate join event content admin i invite ∧ TermsMatch event content invite ∧
    ¬ m.Consumed join event.senderId i) ∧
  (view.isActive event.senderId = true ∨ view.activeMemberCount < env.maxActiveMembers)

/-- Every candidate's terms match, and the candidate with the lowest id is not consumed. -/
def UniformInvites (join : EventId) (event : SignedEvent) (content : MemberJoined) (admin : IdentityKey) : Prop :=
  (∀ i invite, m.Candidate join event content admin i invite → TermsMatch event content invite) ∧
  ∀ i invite, m.Candidate join event content admin i invite →
    (∀ i' invite', m.Candidate join event content admin i' invite' → i ≤ i') → ¬ m.Consumed join event.senderId i

variable {m}

theorem WF.candidate_iff (h : WF m) {join : EventId} {n : Node env room} (hn : m.nodes.get? join = some n)
    (hj : m.result join ≠ none) {content : MemberJoined} {admin : IdentityKey} {i : EventId}
    {invite : MemberInvited} : m.Candidate join n.event.event content admin i invite ↔
      ∃ ent ∈ m.resolve n.membershipAncestors, ent.id = i ∧
        namingInvite env room admin n.event.event content ent = some invite := by
  constructor
  · rintro ⟨hb, hacc, ⟨e, he, hc, hs⟩, hid, hkey, hcap⟩
    obtain ⟨ent, hent, rfl⟩ := entryOf_of_event he
    obtain ⟨hei, -, hea⟩ := entryOf_eq_some hent
    refine ⟨ent, (h.mem_ancestors hn hj).mpr ⟨hei ▸ hb, hei ▸ hent, by rw [hc]; rfl⟩, hei, ?_⟩
    exact namingInvite_eq_some.mpr ⟨hea.trans hacc, hc, hid, hkey, hs, hcap.symm⟩
  · rintro ⟨ent, hmem, rfl, hname⟩
    obtain ⟨hb, hent, -⟩ := (h.mem_ancestors hn hj).mp hmem
    obtain ⟨-, he, hea⟩ := entryOf_eq_some hent
    obtain ⟨hacc, hc, hid, hkey, hs, hcap⟩ := namingInvite_eq_some.mp hname
    exact ⟨hb, hea ▸ hacc, ⟨ent.event, he, hc, hs⟩, hid, hkey, hcap.symm⟩

theorem isDepartureOf_iff {subject : IdentityKey} {ent : Entry} : isDepartureOf subject ent = true ↔
    ent.accepted = true ∧ statusContribution ent.event.content = some .removed ∧
      touched ent.event = some subject := by
  unfold isDepartureOf
  rw [Bool.and_eq_true]
  refine and_congr_right fun _ => ?_
  cases hc : ent.event.content <;> simp [statusContribution, touched, hc]

theorem WF.consumed_iff (h : WF m) {join i : EventId} {n : Node env room} (hn : m.nodes.get? join = some n)
    (hj : m.result join ≠ none) {subject : IdentityKey} {e : SignedEvent} (he : m.event? i = some e)
    (haff : affectsMembership e.content = true) :
    m.Consumed join subject i ↔ departureConsumes subject i (m.resolve n.membershipAncestors) = true := by
  simp only [departureConsumes, List.any_eq_true, Bool.and_eq_true, isDepartureOf_iff, isAncestor,
    decide_eq_true_eq]
  constructor
  · rintro ⟨d, ed, hb, hacc, hed, hst, ht, hid⟩
    obtain ⟨ent, hent, rfl⟩ := entryOf_of_event hed
    obtain ⟨hei, -, hea⟩ := entryOf_eq_some hent
    have hdaff : affectsMembership ent.event.content = true := by
      cases hc : ent.event.content <;> simp_all [statusContribution, affectsMembership]
    refine ⟨ent, (h.mem_ancestors hn hj).mpr ⟨hei ▸ hb, hei ▸ hent, hdaff⟩, ⟨hea.trans hacc, hst, ht⟩, ?_⟩
    exact (h.mem_entry_memo hent (h.classified_of_below hb hj)).mpr ⟨hid, e, he, haff⟩
  · rintro ⟨ent, hmem, ⟨hacc, hst, ht⟩, hid⟩
    obtain ⟨hb, hent, -⟩ := (h.mem_ancestors hn hj).mp hmem
    obtain ⟨-, hed, hea⟩ := entryOf_eq_some hent
    have hbelow := (h.mem_entry_memo hent (h.classified_of_below hb hj)).mp hid
    exact ⟨ent.id, ent.event, hb, hea ▸ hacc, hed, hst, ht, hbelow.1⟩

/-- An accepted join always obeys the rule; a join that obeys it is accepted when the invites are uniform. -/
theorem WF.accepted_join (h : WF m) {join : EventId} {n : Node env room} {content : MemberJoined}
    {admin : IdentityKey} (hn : m.nodes.get? join = some n) (hj : m.result join ≠ none)
    (hc : n.event.event.content = .memberJoined content)
    (ha : (ancestorFold env room (m.resolve n.membershipAncestors)).admin = some admin) :
    m.isAccepted join = true ↔
      m.JoinRule join n.event.event content admin (ancestorFold env room (m.resolve n.membershipAncestors)) ∧
        m.UniformInvites join n.event.event content admin := by
  set view := ancestorFold env room (m.resolve n.membershipAncestors) with hview
  have htype : n.event.event.eventType = .memberJoined := by rw [← n.event.typed, hc]; rfl
  have hgate : m.isAccepted join = true ↔
      gateJoin env room n.event.event content (m.resolve n.membershipAncestors) view = .ok () := by
    have hbind : gateDeviceBinding n.event.event view = .ok () := by
      simp [gateDeviceBinding, htype, EventType.requiresMembershipDeviceBinding]
    have heq : gate env room n.event.event (m.resolve n.membershipAncestors) =
        gateJoin env room n.event.event content (m.resolve n.membershipAncestors) view := by
      simp only [gate, authorize, hc, ← hview, hbind]
      cases gateJoin env room n.event.event content (m.resolve n.membershipAncestors) view <;> rfl
    rw [← heq]
    exact h.isAccepted_iff_gate hn hj
  rw [hgate, gateJoin_ok_iff ha]
  have hcand : ∀ i invite, m.Candidate join n.event.event content admin i invite ↔
      ∃ ent ∈ m.resolve n.membershipAncestors, ent.id = i ∧
        namingInvite env room admin n.event.event content ent = some invite :=
    fun i invite => h.candidate_iff hn hj
  constructor
  · rintro ⟨hterms, ⟨ent, hmem, hne, hmin, hcons⟩, hroom⟩
    obtain ⟨invite, hname⟩ := Option.ne_none_iff_exists'.mp hne
    have hterms' : ∀ i invite, m.Candidate join n.event.event content admin i invite →
        TermsMatch n.event.event content invite := by
      intro i invite hi
      obtain ⟨ent', hmem', -, hname'⟩ := (hcand i invite).mp hi
      exact hterms ent' hmem' invite hname'
    have hnot : ¬ m.Consumed join n.event.event.senderId ent.id := by
      obtain ⟨-, hent, haff⟩ := (h.mem_ancestors hn hj).mp hmem
      rw [h.consumed_iff hn hj (entryOf_eq_some hent).2.1 haff, hcons]
      exact Bool.false_ne_true
    have hlow := (hcand ent.id invite).mpr ⟨ent, hmem, rfl, hname⟩
    refine ⟨⟨⟨ent.id, invite, hlow, hterms' _ _ hlow, hnot⟩, hroom⟩, hterms', fun i invite' hi hlowest => ?_⟩
    obtain ⟨ent', hmem', rfl, hname'⟩ := (hcand i invite').mp hi
    have heq : ent'.id = ent.id := le_antisymm (hlowest ent.id invite hlow) (hmin ent' hmem' (by simp [hname']))
    rw [heq]
    exact hnot
  · rintro ⟨⟨⟨i, invite, hi, -, -⟩, hroom⟩, hterms, hlowest⟩
    -- the lowest naming invite of the finite scope
    obtain ⟨ent, hmem, -, hname⟩ := (hcand i invite).mp hi
    have hex : ((m.resolve n.membershipAncestors).filter fun e =>
        (namingInvite env room admin n.event.event content e).isSome) ≠ [] :=
      List.ne_nil_of_mem (List.mem_filter.mpr ⟨hmem, by simp [hname]⟩)
    obtain ⟨low, hlow, hlowmin⟩ := exists_lowest hex
    obtain ⟨hlowmem, hlowname⟩ := List.mem_filter.mp hlow
    obtain ⟨lowInvite, hlowInvite⟩ := Option.isSome_iff_exists.mp hlowname
    have hlowcand := (hcand low.id lowInvite).mpr ⟨low, hlowmem, rfl, hlowInvite⟩
    refine ⟨fun e he inv hinv => hterms e.id inv ((hcand e.id inv).mpr ⟨e, he, rfl, hinv⟩), ?_, hroom⟩
    refine ⟨low, hlowmem, by simp [hlowInvite], fun e' he' hne' => hlowmin e' (List.mem_filter.mpr
      ⟨he', Option.isSome_iff_ne_none.mpr hne'⟩), ?_⟩
    have hnot := hlowest low.id lowInvite hlowcand fun i' invite' hi' => by
      obtain ⟨e', he', rfl, hname'⟩ := (hcand i' invite').mp hi'
      exact hlowmin e' (List.mem_filter.mpr ⟨he', by simp [hname']⟩)
    obtain ⟨-, hlowent, hlowaff⟩ := (h.mem_ancestors hn hj).mp hlowmem
    rw [h.consumed_iff hn hj (entryOf_eq_some hlowent).2.1 hlowaff] at hnot
    exact Bool.eq_false_iff.mpr hnot

/-- In every run, the verdict on a join agrees with the rule exactly when a rule-abiding join finds uniform
invites: all candidates' terms match, and the one with the lowest id is not consumed. -/
theorem accepted_join_exact_iff (events : List (ValidatedEvent env room)) {join : EventId} {e : SignedEvent}
    {content : MemberJoined} {admin : IdentityKey} {view : MembershipSnapshot}
    (he : (fromEvents events).event? join = some e) (hc : e.content = .memberJoined content)
    (hclassified : (fromEvents events).result join ≠ none)
    (hview : (fromEvents events).ancestorView join = some view) (ha : view.admin = some admin) :
    ((fromEvents events).isAccepted join = true ↔ (fromEvents events).JoinRule join e content admin view) ↔
      ((fromEvents events).JoinRule join e content admin view →
        (fromEvents events).UniformInvites join e content admin) := by
  obtain ⟨n, hn, rfl⟩ := Option.map_eq_some_iff.mp he
  have hview' : ancestorFold env room ((fromEvents events).resolve n.membershipAncestors) = view := by
    simpa [ancestorView, hn] using hview
  have hacc := (settled_fromEvents events).wf.accepted_join hn hclassified hc (hview'.symm ▸ ha)
  rw [hview'] at hacc
  rw [hacc]
  constructor
  · exact fun hiff hrule => (hiff.mpr hrule).2
  · exact fun huni => ⟨fun hboth => hboth.1, fun hrule => ⟨hrule, huni hrule⟩⟩

/-- A join over a single invite. -/
theorem accepted_join_exact_single :
    ∃ view, (fromEvents (Toy.log Toy.joined)).ancestorView (Bytes32.ofNat 12) = some view ∧
      (((fromEvents (Toy.log Toy.joined)).isAccepted (Bytes32.ofNat 12) = true ↔
        (fromEvents (Toy.log Toy.joined)).JoinRule (Bytes32.ofNat 12) (Toy.join 2 7 .member [11])
          ⟨7, 7, .member, Toy.binding 2, none⟩ (Toy.identity 1) view) ↔
      ((fromEvents (Toy.log Toy.joined)).JoinRule (Bytes32.ofNat 12) (Toy.join 2 7 .member [11])
          ⟨7, 7, .member, Toy.binding 2, none⟩ (Toy.identity 1) view →
        (fromEvents (Toy.log Toy.joined)).UniformInvites (Bytes32.ofNat 12) (Toy.join 2 7 .member [11])
          ⟨7, 7, .member, Toy.binding 2, none⟩ (Toy.identity 1))) := by
  obtain ⟨hread, hevent, hclassified⟩ :
      ((fromEvents (Toy.log Toy.joined)).ancestorView (Bytes32.ofNat 12)).map (fun view => view.admin) =
        some (some (Toy.identity 1)) ∧
      (fromEvents (Toy.log Toy.joined)).event? (Bytes32.ofNat 12) = some (Toy.join 2 7 .member [11]) ∧
      (fromEvents (Toy.log Toy.joined)).isClassified (Bytes32.ofNat 12) = true := by decide +kernel
  obtain ⟨view, hview, hadmin⟩ := Option.map_eq_some_iff.mp hread
  exact ⟨view, hview, accepted_join_exact_iff _ hevent rfl (isClassified_iff.mp hclassified) hview hadmin⟩

/-- An expired invite with the lower id hides a live one under the same handle. -/
theorem live_invite_hidden_by_expired : ¬ ∀ (env : Env) (room : RoomId) (events : List (ValidatedEvent env room))
    (join : EventId) (e : SignedEvent) (content : MemberJoined) (admin : IdentityKey) (view : MembershipSnapshot),
    (fromEvents events).event? join = some e → e.content = .memberJoined content →
    (fromEvents events).result join ≠ none → (fromEvents events).ancestorView join = some view →
    view.admin = some admin →
    ((fromEvents events).isAccepted join = true ↔ (fromEvents events).JoinRule join e content admin view) := by
  intro hall
  let log := Toy.log [(10, Toy.genesis), (11, Toy.invite 2 7 .member (some 50) [10]),
    (12, Toy.invite 2 7 .member none [11]), (13, Toy.join 2 7 .member [12])]
  -- the log is folded once for all that is read of it
  obtain ⟨hread, hrejected, hjoin, hclassified, haccepted, hinvite, hnone⟩ :
      ((fromEvents log).ancestorView (Bytes32.ofNat 13)).map (fun view => (view.admin, view.activeMemberCount)) =
        some (some (Toy.identity 1), 1) ∧
      (fromEvents log).isAccepted (Bytes32.ofNat 13) = false ∧
      (fromEvents log).event? (Bytes32.ofNat 13) = some (Toy.join 2 7 .member [12]) ∧
      (fromEvents log).isClassified (Bytes32.ofNat 13) = true ∧
      (fromEvents log).isAccepted (Bytes32.ofNat 12) = true ∧
      (fromEvents log).event? (Bytes32.ofNat 12) = some (Toy.invite 2 7 .member none [11]) ∧
      ∀ ent ∈ (fromEvents log).entries, statusContribution ent.event.content ≠ some .removed := by decide +kernel
  obtain ⟨view, hview, hadmin, hcount⟩ : ∃ view, (fromEvents log).ancestorView (Bytes32.ofNat 13) = some view ∧
      view.admin = some (Toy.identity 1) ∧ view.activeMemberCount < toyEnv.maxActiveMembers := by
    obtain ⟨view, hview, heq⟩ := Option.map_eq_some_iff.mp hread
    obtain ⟨hadmin, hcount⟩ := Prod.mk.inj heq
    exact ⟨view, hview, hadmin, by rw [hcount]; decide⟩
  have hiff := hall toyEnv Toy.room log (Bytes32.ofNat 13) (Toy.join 2 7 .member [12])
    ⟨7, 7, .member, Toy.binding 2, none⟩ (Toy.identity 1) view hjoin rfl (isClassified_iff.mp hclassified) hview
    hadmin
  rw [hrejected] at hiff
  refine Bool.false_ne_true (hiff.mpr ⟨⟨Bytes32.ofNat 12, ⟨7, toyEnv.capabilityHash Toy.room 7 7, .member,
    Toy.identity 2, none, none⟩, ⟨?_, haccepted, ?_, rfl, rfl, rfl⟩, ⟨nofun, rfl⟩, ?_⟩, Or.inr hcount⟩)
  · exact Staged.Below.of_dep (dep_iff.mpr ⟨Toy.join 2 7 .member [12], hjoin, by decide⟩)
  · exact ⟨Toy.invite 2 7 .member none [11], hinvite, rfl, rfl⟩
  · rintro ⟨d, e, -, -, he, hst, -⟩
    obtain ⟨ent, hent, -, rfl⟩ := exists_entry_of_event he
    exact hnone ent hent hst

end RoomMembership

end IrohRooms
