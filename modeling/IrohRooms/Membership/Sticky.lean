import IrohRooms.Event.Build
import IrohRooms.Membership.Authenticity

/-!
# Sticky departure

A departed subject should be Active again only through a join that descends from the departure. Status is read
off the causal heads of the events that touch the subject, so the argument looks for a head above the departure:
it is no departure, since those dominate, hence a join, or an invite issued after the departure. In the last case
a join concurrent with the departure can still be a head and make the subject Active; and the admin's record does
not depend on heads at all.
-/

namespace IrohRooms

variable {env : Env} {room : RoomId}

namespace RoomMembership

variable (m : RoomMembership env room)

/-- The accepted events that touch a subject. -/
def subjectEvents (s : IdentityKey) : List Entry := touchEvents (m.entries.filter Entry.accepted) s

/-- Their causal heads, from which the snapshot reads the subject's status. -/
def subjectHeads (s : IdentityKey) : List Entry := causalHeads (m.subjectEvents s)

/-- An accepted `member.removed` or `member.left` of the subject. -/
def IsDeparture (s : IdentityKey) (r : EventId) : Prop :=
  m.isAccepted r = true ∧ ∃ e, m.event? r = some e ∧ statusContribution e.content = some .removed ∧
    touched e = some s

/-- An accepted `member.joined` of the subject descends from `r`. -/
def RejoinedAfter (s : IdentityKey) (r : EventId) : Prop :=
  ∃ j e, m.isAccepted j = true ∧ m.event? j = some e ∧ isJoin e = true ∧ e.senderId = s ∧ Staged.Below m.deps r j

/-- An invite issued after `r` and a join not after `r` are both heads of the subject. -/
def ShadowedByInvite (s : IdentityKey) (r : EventId) : Prop :=
  ∃ i ∈ m.subjectHeads s, ∃ j ∈ m.subjectHeads s, i.event.eventType = .memberInvited ∧
    Staged.Below m.deps r i.id ∧ isJoin j.event = true ∧ ¬ Staged.Below m.deps r j.id

variable {m}

theorem mem_subjectEvents {s : IdentityKey} {ent : Entry} : ent ∈ m.subjectEvents s ↔
    m.entryOf ent.id = some ent ∧ ent.accepted = true ∧ touched ent.event = some s := by
  simp only [subjectEvents, touchEvents, List.mem_filter, mem_entries, beq_iff_eq, and_assoc]

theorem affectsMembership_of_touched {e : SignedEvent} {s : IdentityKey} (h : touched e = some s) :
    affectsMembership e.content = true := by
  unfold touched at h
  cases hc : e.content <;> simp_all [affectsMembership]

/-- Among the events of a subject the memo decides the causal order. -/
theorem WF.isAncestor_iff (h : WF m) {s : IdentityKey} {a b : Entry} (ha : a ∈ m.subjectEvents s)
    (hb : b ∈ m.subjectEvents s) : isAncestor a.id b = true ↔ Staged.Below m.deps a.id b.id := by
  obtain ⟨haent, -, hatouch⟩ := mem_subjectEvents.mp ha
  obtain ⟨hbent, hbacc, -⟩ := mem_subjectEvents.mp hb
  have hbacc' : m.isAccepted b.id = true := (entryOf_eq_some hbent).2.2 ▸ hbacc
  rw [isAncestor, decide_eq_true_eq, h.mem_entry_memo hbent (result_ne_none_of_accepted hbacc')]
  exact and_iff_left ⟨a.event, (entryOf_eq_some haent).2.1, affectsMembership_of_touched hatouch⟩

theorem WF.mem_subjectHeads (h : WF m) {s : IdentityKey} {a : Entry} : a ∈ m.subjectHeads s ↔
    a ∈ m.subjectEvents s ∧ ∀ b ∈ m.subjectEvents s, ¬ Staged.Below m.deps a.id b.id := by
  simp only [subjectHeads, causalHeads, List.mem_filter, Bool.not_eq_true', List.any_eq_false, Bool.and_eq_true,
    bne_iff_ne, ne_eq, not_and]
  refine and_congr_right fun ha => forall₂_congr fun b hb => ?_
  constructor
  · intro hnot hbelow
    refine hnot (fun heq => ?_) ((h.isAncestor_iff ha hb).mpr hbelow)
    obtain ⟨hent, hacc, -⟩ := mem_subjectEvents.mp hb
    have hacc' : m.isAccepted b.id = true := (entryOf_eq_some hent).2.2 ▸ hacc
    rw [← heq] at hbelow
    exact (h.ready (result_ne_none_of_accepted hacc')).not_below_self hbelow
  · exact fun hnot _ hanc => hnot ((h.isAncestor_iff ha hb).mp hanc)

/-- Above every event of a subject, or at it, there is a head. -/
theorem WF.exists_head_above (h : WF m) {s : IdentityKey} {a : Entry} (ha : a ∈ m.subjectEvents s) :
    ∃ b ∈ m.subjectHeads s, b.id = a.id ∨ Staged.Below m.deps a.id b.id := by
  have hirrefl : ∀ i, (∃ c ∈ m.subjectEvents s, c.id = i) → ¬ Staged.Below m.deps i i := by
    rintro i ⟨c, hc, rfl⟩
    obtain ⟨hent, hacc, -⟩ := mem_subjectEvents.mp hc
    have hacc' : m.isAccepted c.id = true := (entryOf_eq_some hent).2.2 ▸ hacc
    exact (h.ready (result_ne_none_of_accepted hacc')).not_below_self
  obtain ⟨i, ⟨b, hb, rfl⟩, hab, htop⟩ := Staged.exists_top (Staged.Below m.deps)
    (fun h₁ h₂ => h₁.trans h₂) hirrefl ((m.subjectEvents s).map Entry.id) (a := a.id) ⟨a, ha, rfl⟩
  refine ⟨b, h.mem_subjectHeads.mpr ⟨hb, fun c hc => ?_⟩, hab⟩
  exact htop c.id (List.mem_map_of_mem hc) ⟨c, hc, rfl⟩

theorem isJoin_or_invited_of_touched {e : SignedEvent} {s : IdentityKey} (ht : touched e = some s)
    (hst : statusContribution e.content ≠ some .removed) :
    isJoin e = true ∧ e.senderId = s ∨ e.content.eventType = .memberInvited := by
  unfold touched at ht
  cases hc : e.content <;> simp_all [statusContribution, isJoin, Content.eventType]

theorem event_typed {id : EventId} {e : SignedEvent} (h : m.event? id = some e) :
    e.content.eventType = e.eventType := by
  obtain ⟨n, hn, rfl⟩ := Option.map_eq_some_iff.mp h
  exact n.event.typed

/-- In every run, a departed subject other than the admin that is Active again has rejoined after the departure,
unless an invite issued after the departure shadows it beside an older join. -/
theorem departure_sticky (events : List (ValidatedEvent env room)) {s : IdentityKey} {r : EventId}
    (hdep : (fromEvents events).IsDeparture s r) (hactive : (fromEvents events).snapshot.isActive s = true)
    (hadmin : (fromEvents events).snapshot.admin ≠ some s)
    (hshadow : ¬ (fromEvents events).ShadowedByInvite s r) : (fromEvents events).RejoinedAfter s r := by
  have hwf := (settled_fromEvents events).wf
  obtain ⟨hracc, e, he, hst, ht⟩ := hdep
  obtain ⟨ent, hent, rfl⟩ := entryOf_of_event he
  obtain ⟨hid, -, hacc⟩ := entryOf_eq_some hent
  have hmem : ent ∈ (fromEvents events).subjectEvents s :=
    mem_subjectEvents.mpr ⟨hid ▸ hent, hacc.trans hracc, ht⟩
  obtain ⟨⟨j, hj, hjoin⟩, hnorem⟩ := statusFromHeads_active (resolveMember_active_of_isActive hadmin hactive)
  obtain ⟨b, hb, hor⟩ := hwf.exists_head_above hmem
  obtain ⟨hbmem, -⟩ := hwf.mem_subjectHeads.mp hb
  obtain ⟨hbent, hbacc, hbtouch⟩ := mem_subjectEvents.mp hbmem
  obtain ⟨-, hbevent, hbacc'⟩ := entryOf_eq_some hbent
  have hbelow : Staged.Below (fromEvents events).deps r b.id := by
    rcases hor with heq | hbelow
    · rw [heq, hid] at hbent
      rw [hent, Option.some.injEq] at hbent
      exact absurd (hbent ▸ hst) (hnorem b hb)
    · exact hid ▸ hbelow
  rcases isJoin_or_invited_of_touched hbtouch (hnorem b hb) with ⟨hbjoin, hsender⟩ | hinv
  · exact ⟨b.id, b.event, hbacc' ▸ hbacc, hbevent, hbjoin, hsender, hbelow⟩
  · -- the head above the departure is an invite: the join head must itself descend from the departure
    by_cases hjbelow : Staged.Below (fromEvents events).deps r j.id
    · obtain ⟨hjmem, -⟩ := hwf.mem_subjectHeads.mp hj
      obtain ⟨hjent, hjacc, hjtouch⟩ := mem_subjectEvents.mp hjmem
      obtain ⟨-, hjevent, hjacc'⟩ := entryOf_eq_some hjent
      have hsender : j.event.senderId = s := by
        rcases isJoin_or_invited_of_touched hjtouch (hnorem j hj) with ⟨-, hs⟩ | hinv'
        · exact hs
        · simp [isJoin, hinv'] at hjoin
      exact ⟨j.id, j.event, hjacc' ▸ hjacc, hjevent, hjoin, hsender, hjbelow⟩
    · exact absurd ⟨b, hb, j, hj, (event_typed hbevent) ▸ hinv, hbelow, hjoin, hjbelow⟩ hshadow

/-- Removed, invited again and joined again: Active through the second join. -/
theorem departure_sticky_rejoined :
    (fromEvents (Toy.log (Toy.joined ++ [(13, Toy.remove 2 1 [12]), (14, Toy.invite 2 8 .member none [13]),
      (15, Toy.join 2 8 .member [14])]))).RejoinedAfter (Toy.identity 2) (Bytes32.ofNat 13) := by
  let log := Toy.log (Toy.joined ++ [(13, Toy.remove 2 1 [12]), (14, Toy.invite 2 8 .member none [13]),
    (15, Toy.join 2 8 .member [14])])
  -- the log is folded once for all that is read of it
  obtain ⟨haccepted, hevent, hactive, hadmin, hheads⟩ :
      (fromEvents log).isAccepted (Bytes32.ofNat 13) = true ∧
      (fromEvents log).event? (Bytes32.ofNat 13) = some (Toy.remove 2 1 [12]) ∧
      (fromEvents log).snapshot.isActive (Toy.identity 2) = true ∧
      (fromEvents log).snapshot.admin ≠ some (Toy.identity 2) ∧
      ∀ i ∈ (fromEvents log).subjectHeads (Toy.identity 2), i.event.eventType ≠ .memberInvited := by decide +kernel
  refine departure_sticky _ ⟨haccepted, Toy.remove 2 1 [12], hevent, rfl, rfl⟩ hactive hadmin ?_
  rintro ⟨i, hi, -, -, hinv, -⟩
  exact hheads i hi hinv

/-- The admin's own departure is accepted and leaves the admin Active. -/
theorem admin_departure_inert : ¬ ∀ (env : Env) (room : RoomId) (events : List (ValidatedEvent env room))
    (s : IdentityKey) (r : EventId), (fromEvents events).IsDeparture s r →
    (fromEvents events).snapshot.isActive s = true → (fromEvents events).RejoinedAfter s r := by
  intro hall
  let log := Toy.log [(10, Toy.genesis), (11, Toy.leave 1 1 [10])]
  obtain ⟨haccepted, hevent, hactive, hnone⟩ :
      (fromEvents log).isAccepted (Bytes32.ofNat 11) = true ∧
      (fromEvents log).event? (Bytes32.ofNat 11) = some (Toy.leave 1 1 [10]) ∧
      (fromEvents log).snapshot.isActive (Toy.identity 1) = true ∧
      ∀ ent ∈ (fromEvents log).entries, isJoin ent.event = false := by decide +kernel
  obtain ⟨j, e, -, he, hjoin, -⟩ := hall toyEnv Toy.room log (Toy.identity 1) (Bytes32.ofNat 11)
    ⟨haccepted, Toy.leave 1 1 [10], hevent, rfl, rfl⟩ hactive
  obtain ⟨ent, hent, -, rfl⟩ := exists_entry_of_event he
  rw [hnone ent hent] at hjoin
  cases hjoin

/-- A removal concurrent with a join, then a new invite: the subject is Active again without a new join. -/
theorem reinvite_revives_concurrent_join : ¬ ∀ (env : Env) (room : RoomId)
    (events : List (ValidatedEvent env room)) (s : IdentityKey) (r : EventId),
    (fromEvents events).IsDeparture s r → (fromEvents events).snapshot.isActive s = true →
    (fromEvents events).snapshot.admin ≠ some s → (fromEvents events).RejoinedAfter s r := by
  intro hall
  let log := Toy.log (Toy.joined ++ [(13, Toy.remove 2 1 [11]), (14, Toy.invite 2 8 .member none [13])])
  obtain ⟨haccepted, hevent, hactive, hadmin, hmemo⟩ :
      (fromEvents log).isAccepted (Bytes32.ofNat 13) = true ∧
      (fromEvents log).event? (Bytes32.ofNat 13) = some (Toy.remove 2 1 [11]) ∧
      (fromEvents log).snapshot.isActive (Toy.identity 2) = true ∧
      (fromEvents log).snapshot.admin ≠ some (Toy.identity 2) ∧
      ∀ ent ∈ (fromEvents log).entries, isJoin ent.event = true →
        (Bytes32.ofNat 13 : EventId) ∉ ent.membershipAncestors := by decide +kernel
  obtain ⟨j, e, hacc, he, hjoin, -, hbelow⟩ := hall toyEnv Toy.room log (Toy.identity 2) (Bytes32.ofNat 13)
    ⟨haccepted, Toy.remove 2 1 [11], hevent, rfl, rfl⟩ hactive hadmin
  obtain ⟨ent, hent, rfl, rfl⟩ := exists_entry_of_event he
  refine hmemo ent hent hjoin ?_
  have hwf := (settled_fromEvents log).wf
  exact (hwf.mem_entry_memo (mem_entries.mp hent) (result_ne_none_of_accepted hacc)).mpr
    ⟨hbelow, Toy.remove 2 1 [11], hevent, rfl⟩

end RoomMembership

end IrohRooms
