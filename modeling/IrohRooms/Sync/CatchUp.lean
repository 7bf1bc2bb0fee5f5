import IrohRooms.Membership.Authenticity
import IrohRooms.Membership.Sticky
import IrohRooms.Sync.Digest
import IrohRooms.Sync.MembershipHave
import IrohRooms.Sync.Served
import IrohRooms.Sync.Tidy

/-!
# Catching up by pulls

A node that has heard of nothing but a peer's events pulls for membership, round after round, claiming what its own
claim has room for. Every answer is taken in whole: no event has to wait for a parent, and none is turned away, although
the events of one answer are not in the store before the batch is committed. After as many rounds as the peer's
authorization closure has events, at most, the node has all of it and the same members (`pulls_catch_up`).
-/

namespace IrohRooms

variable {env : Env} {sealing : Sealing} {room : RoomId}

/-! ### Senders the log knows -/

/-- The event makes `s` the creator or touches its membership. -/
def Introduces (event : SignedEvent) (s : IdentityKey) : Prop :=
  touched event = some s ∨ event.content.eventType = .roomCreated ∧ event.senderId = s

theorem introduces_of_fold {scope : List Entry} {s : IdentityKey}
    (h : (fold env room scope).admin = some s ∨ (fold env room scope).member s ≠ none) :
    ∃ ent ∈ scope, Introduces ent.event s := by
  by_cases hadmin : (fold env room scope).admin = some s
  · rw [fold_admin, findGenesis, Option.map_map] at hadmin
    obtain ⟨ent, hent, hsender⟩ := Option.map_eq_some_iff.mp hadmin
    have htype := List.find?_some hent
    exact ⟨ent, List.mem_of_find?_eq_some hent, Or.inr ⟨by simpa using htype, hsender⟩⟩
  · obtain ⟨mem, hmem⟩ := Option.ne_none_iff_exists'.mp (h.resolve_left hadmin)
    obtain ⟨ent, hent, htouch⟩ := touchEvents_ne_nil.mp (fold_member_other hadmin hmem).1
    exact ⟨ent, hent, Or.inl htouch⟩

theorem fold_of_introduces {scope : List Entry} {s : IdentityKey} {ent : Entry} (hent : ent ∈ scope)
    (h : Introduces ent.event s)
    (hone : ∀ a ∈ scope, ∀ b ∈ scope, a.event.content.eventType = .roomCreated →
      b.event.content.eventType = .roomCreated → a.event.senderId = b.event.senderId) :
    (fold env room scope).admin = some s ∨ (fold env room scope).member s ≠ none := by
  rcases h with htouch | ⟨hgenesis, rfl⟩
  · by_cases hadmin : (fold env room scope).admin = some s
    · exact Or.inl hadmin
    · right
      rw [fold_member, if_pos ⟨hadmin, touchEvents_ne_nil.mpr ⟨ent, hent, htouch⟩⟩]
      exact Option.some_ne_none _
  · left
    rw [fold_admin, findGenesis, Option.map_map]
    cases hfound : scope.find? fun e => e.event.content.eventType == .roomCreated with
    | none => exact absurd (by simpa using hgenesis) (List.find?_eq_none.mp hfound ent hent)
    | some g =>
      have htype : g.event.content.eventType = .roomCreated := by simpa using List.find?_some hfound
      exact congrArg some (hone g (List.mem_of_find?_eq_some hfound) ent hent htype hgenesis)

/-- A sender that has to be a member for its event is the admin or a known subject. -/
theorem known_of_authorize {event : SignedEvent} {ancestors : List Entry} {view : MembershipSnapshot}
    (h : authorize env room event ancestors view = .ok ()) (hgenesis : event.content.eventType ≠ .roomCreated)
    (hjoin : event.content.eventType ≠ .memberJoined) (hleft : event.content.eventType ≠ .memberLeft) :
    view.admin = some event.senderId ∨ view.member event.senderId ≠ none := by
  have hadmin : gateAdminAction event view = .ok () → view.admin = some event.senderId := by
    intro hg
    unfold gateAdminAction at hg
    split_ifs at hg with hadm
    exact hadm
  have hactive : gateActiveMember event view = .ok () → view.member event.senderId ≠ none := by
    intro hg hnone
    unfold gateActiveMember MembershipSnapshot.isActive at hg
    rw [MembershipSnapshot.status, hnone] at hg
    cases hg
  cases hc : event.content <;> simp only [hc, authorize] at h <;>
    first
    | exact Or.inl (hadmin h)
    | exact Or.inr (hactive h)
    | exact absurd (by rw [hc]; rfl) hgenesis
    | exact absurd (by rw [hc]; rfl) hjoin
    | exact absurd (by rw [hc]; rfl) hleft

namespace RoomMembership

variable {m : RoomMembership env room}

/-- An accepted event that needs a member for its sender has an accepted ancestor that introduces it. -/
theorem Settled.introduced (h : m.Settled) {id : EventId} {e : SignedEvent} (hacc : m.isAccepted id = true)
    (he : m.event? id = some e) (hgenesis : e.eventType ≠ .roomCreated) (hjoin : e.eventType ≠ .memberJoined)
    (hleft : e.eventType ≠ .memberLeft) :
    ∃ a ea, Staged.Below m.deps a id ∧ m.isAccepted a = true ∧ m.event? a = some ea ∧ Introduces ea e.senderId := by
  have htyped := event_typed he
  obtain ⟨n, hn, rfl⟩ := Option.map_eq_some_iff.mp he
  have hresult := result_ne_none_of_accepted hacc
  obtain ⟨hauth, -⟩ := gate_ok ((h.wf.isAccepted_iff_gate hn hresult).mp hacc)
  rw [← htyped] at hgenesis hjoin hleft
  obtain ⟨ent, hent, hintro⟩ := introduces_of_fold (known_of_authorize hauth hgenesis hjoin hleft)
  obtain ⟨hmem, haccepted⟩ := List.mem_filter.mp hent
  obtain ⟨hbelow, hentry, -⟩ := (h.wf.mem_ancestors hn hresult).mp hmem
  obtain ⟨-, hevent, hea⟩ := entryOf_eq_some hentry
  exact ⟨ent.id, ent.event, hbelow, hea.symm.trans haccepted, hevent, hintro⟩

/-- Whom an accepted event introduces the snapshot knows, in a room with one creator. -/
theorem snapshot_knows {a : EventId} {ea : SignedEvent} {s : IdentityKey} (hacc : m.isAccepted a = true)
    (hevent : m.event? a = some ea) (hintro : Introduces ea s) {creator : IdentityKey}
    (hone : ∀ id e, m.event? id = some e → e.eventType = .roomCreated → e.senderId = creator) :
    m.snapshot.admin = some s ∨ m.snapshot.member s ≠ none := by
  have hcreator : ∀ ent ∈ m.entries.filter Entry.accepted, ent.event.content.eventType = .roomCreated →
      ent.event.senderId = creator := by
    intro ent hent htype
    have hentry := (entryOf_eq_some (mem_entries.mp (List.mem_filter.mp hent).1)).2.1
    exact hone ent.id ent.event hentry ((event_typed hentry).symm.trans htype)
  obtain ⟨ent, hent, rfl, rfl⟩ := exists_entry_of_event hevent
  have haccepted : ent.accepted = true := (entryOf_eq_some (mem_entries.mp hent)).2.2.trans hacc
  refine fold_of_introduces (List.mem_filter.mpr ⟨hent, haccepted⟩) hintro fun x hx y hy htx hty => ?_
  rw [hcreator x hx htx, hcreator y hy hty]

end RoomMembership

/-- An event whose parents are judged is judged. -/
theorem RoomMembership.Settled.ingest_judged {m : RoomMembership env room} (h : m.Settled)
    {v : ValidatedEvent env room} (hsame : ∀ event, m.event? v.eventId = some event → event = v.event)
    (hparents : ∀ p ∈ v.event.prevEvents, m.result p ≠ none) : (m.ingest v).result v.eventId ≠ none := by
  have hevent : (m.ingest v).event? v.eventId = some v.event := by
    rw [ingest_event? h.wf, if_pos rfl]
    cases hknown : m.event? v.eventId with
    | none => rfl
    | some event => rw [hsame event hknown]; rfl
  obtain ⟨n, hn, hnevent⟩ := Option.map_eq_some_iff.mp hevent
  intro hnone
  have hwork := (h.ingest v).saturated v.eventId n hn ((result_eq_none_iff hn).mp hnone)
  have hnever : v.eventId ∈ ([] : List EventId) := by
    refine hwork fun p hp => ?_
    rw [hnevent] at hp
    rw [h.ingest_result v (hparents p hp)]
    exact hparents p hp
  cases hnever

/-! ### Taking in an answer -/

/-- Validation succeeds again on what was validated. -/
theorem validate_validated (w : ValidatedEvent env room) {id : EventId} {event : SignedEvent} (hw : w.event = event) :
    ∃ v : ValidatedEvent env room, validate env ⟨room, none⟩ id event = .ok v ∧ v.eventId = id ∧ v.event = event := by
  subst hw
  unfold validate
  rw [dif_pos w.schema, dif_pos w.typed]
  split
  · rename_i reason hchecked
    rw [w.checked] at hchecked
    cases hchecked
  · exact ⟨_, rfl, rfl, rfl⟩

theorem ValidatedEvent.genesis_prevEvents (v : ValidatedEvent env room) (h : v.event.eventType = .roomCreated) :
    v.event.prevEvents = [] := by
  refine (EventStore.isGenesis_iff (⟨v, none, none⟩ : Row env room)).mp ?_
  rw [Row.isGenesis, h]
  rfl

namespace EventStore

/-- The id stands for the event in the store. -/
def Stores (s : EventStore env room) (id : EventId) (event : SignedEvent) : Prop :=
  (s.event? id).map ValidatedEvent.event = some event

/-- Whoever leaves was introduced before. -/
def KnownLeavers (s : EventStore env room) : Prop :=
  ∀ id event, s.Stores id event → event.eventType = .memberLeft →
    ∃ a ea, Staged.Below s.deps a id ∧ s.Stores a ea ∧ Introduces ea event.senderId

theorem contains_of_stores {s : EventStore env room} {id : EventId} {event : SignedEvent} (h : s.Stores id event) :
    s.contains id = true := by
  obtain ⟨v, hv, -⟩ := Option.map_eq_some_iff.mp h
  exact contains_iff_event?.mpr (by rw [hv]; exact Option.some_ne_none v)

end EventStore

namespace SyncEngine

variable {e responder : SyncEngine env sealing room} {W : Universe}

/-- A node of the room whose store, placed and of less than `2 ^ 64 - 1` events, a follower can learn. -/
structure Responds (W : Universe) (responder : SyncEngine env sealing room) : Prop where
  rest : responder.AtRest
  holds : (W.invariant env room).Holds responder
  generation : responder.fold.membershipProjectionGeneration < u64Max
  placed : Universe.Placed responder.store
  leavers : responder.store.KnownLeavers
  short : responder.store.rows.keys.length < u64Max

/-- A node that knows events of the responder alone. -/
structure Follows (responder e : SyncEngine env sealing room) : Prop where
  synced : Synced (fun _ => False) e
  tidy : e.Tidy
  within : (EngineInvariant.occurring responder.store.Stores env room).Holds e

namespace Responds

variable (h : Responds W responder)

include h

theorem accepted_of_stores {id : EventId} {event : SignedEvent} (hs : responder.store.Stores id event) :
    responder.fold.isAccepted id = true := (h.rest.stored id).mp (EventStore.contains_of_stores hs)

/-- The responder's fold knows its stored events as the same events. -/
theorem event?_of_stores {id : EventId} {event : SignedEvent} (hs : responder.store.Stores id event) :
    responder.fold.event? id = some event := by
  obtain ⟨known, hknown⟩ := RoomMembership.event?_of_result
    (RoomMembership.result_ne_none_of_accepted (h.accepted_of_stores hs))
  obtain ⟨v, hv, rfl⟩ := Option.map_eq_some_iff.mp hs
  obtain ⟨row, hrow, rfl⟩ := EventStore.event?_eq_some.mp hv
  have hone : W.Occurs row.event.eventId row.event.event := (h.holds.store.2 hrow).1
  rw [responder.store.keyed id row hrow] at hone
  have htwo : W.Occurs id known := h.holds.fold.2 hknown
  rw [hknown]
  exact htwo.symm.trans hone

theorem creator {id : EventId} {event : SignedEvent} (hs : responder.store.Stores id event)
    (hgenesis : event.eventType = .roomCreated) : event.senderId = W.creator :=
  W.genesis (h.holds.fold.2 (h.event?_of_stores hs)) hgenesis

/-- A parent of a stored event is stored. -/
theorem stores_parent {id p : EventId} {event : SignedEvent} (hs : responder.store.Stores id event)
    (hp : p ∈ event.prevEvents) : ∃ parent, responder.store.Stores p parent := by
  obtain ⟨v, hv, rfl⟩ := Option.map_eq_some_iff.mp hs
  obtain ⟨row, hrow, rfl⟩ := EventStore.event?_eq_some.mp hv
  obtain ⟨parent, hparent⟩ := EventStore.contains_iff.mp (h.placed id row hrow p hp)
  exact ⟨parent.event.event, by rw [EventStore.Stores, EventStore.event?, hparent]; rfl⟩

end Responds

namespace Follows

variable (h : Follows responder e) (hr : Responds W responder)

include h

/-- A follower knows an event as the responder does. -/
theorem event?_eq {id : EventId} {event : SignedEvent} (hs : responder.store.Stores id event)
    (hknown : e.fold.result id ≠ none) : e.fold.event? id = some event := by
  obtain ⟨known, hevent⟩ := RoomMembership.event?_of_result hknown
  rw [hevent]
  exact (h.within.fold.2 id known hevent).symm.trans hs

include hr

theorem same_event : ∀ id a b, responder.fold.event? id = some a → e.fold.event? id = some b → a = b := by
  intro id a b ha hb
  have hs := h.within.fold.2 id b hb
  rw [hr.event?_of_stores hs] at ha
  exact (Option.some.inj ha).symm

/-- What the follower has judged of the responder's events it has accepted. -/
theorem accepted_of_judged {id : EventId} {event : SignedEvent} (hs : responder.store.Stores id event)
    (hjudged : e.fold.result id ≠ none) : e.fold.isAccepted id = true := by
  have hacc := hr.accepted_of_stores hs
  have hsame := (hr.rest.synced.settled.results_agree h.synced.settled (h.same_event hr)
    (RoomMembership.result_ne_none_of_accepted hacc) hjudged).2
  obtain ⟨memo, hmemo⟩ := RoomMembership.isAccepted_iff.mp hacc
  exact RoomMembership.isAccepted_iff.mpr ⟨memo, hsame.trans hmemo⟩

/-- What is below an accepted event is accepted. -/
theorem accepted_below {deps : EventId → Option (List EventId)}
    (hdeps : ∀ p id event, Staged.Dep deps p id → responder.store.Stores id event → p ∈ event.prevEvents)
    {a id : EventId} (hbelow : Staged.Below deps a id) {event : SignedEvent}
    (hs : responder.store.Stores id event) (hacc : e.fold.isAccepted id = true) : e.fold.isAccepted a = true := by
  have hstep : ∀ {p id event}, Staged.Dep deps p id → responder.store.Stores id event →
      e.fold.isAccepted id = true → (∃ parent, responder.store.Stores p parent) ∧ e.fold.isAccepted p = true := by
    intro p id event hdep hs hacc
    have hparent := hdeps p id event hdep hs
    have hresult := RoomMembership.result_ne_none_of_accepted hacc
    obtain ⟨parent, hstored⟩ := hr.stores_parent hs hparent
    exact ⟨⟨parent, hstored⟩, h.accepted_of_judged hr hstored
      (h.synced.settled.wf.parents hresult (h.event?_eq hs hresult) p hparent)⟩
  induction hbelow generalizing event with
  | single hdep => exact (hstep hdep hs hacc).2
  | tail _ hdep ih =>
    obtain ⟨⟨parent, hparent⟩, haccParent⟩ := hstep hdep hs hacc
    exact ih hparent haccParent

/-- The same one step up, where the event itself may be new to the follower. -/
theorem accepted_above {deps : EventId → Option (List EventId)}
    (hdeps : ∀ p id event, Staged.Dep deps p id → responder.store.Stores id event → p ∈ event.prevEvents)
    {a id : EventId} (hbelow : Staged.Below deps a id) {event : SignedEvent} (hs : responder.store.Stores id event)
    (hparents : ∀ p ∈ event.prevEvents, e.fold.isAccepted p = true) : e.fold.isAccepted a = true := by
  obtain ⟨p, hreach, hdep⟩ := Relation.TransGen.tail'_iff.mp hbelow
  have hmem := hdeps p id event hdep hs
  obtain ⟨parent, hparent⟩ := hr.stores_parent hs hmem
  rcases Relation.reflTransGen_iff_eq_or_transGen.mp hreach with rfl | hfar
  · exact hparents p hmem
  · exact h.accepted_below hr hdeps hfar hparent (hparents p hmem)

/-- An event of the responder that is no genesis and no join has an introducer the follower has accepted, once it has
accepted the parents. -/
theorem introducer {id : EventId} {event : SignedEvent} (hs : responder.store.Stores id event)
    (hgenesis : event.eventType ≠ .roomCreated) (hjoin : event.eventType ≠ .memberJoined)
    (hparents : ∀ p ∈ event.prevEvents, e.fold.isAccepted p = true) :
    ∃ a ea, e.fold.isAccepted a = true ∧ e.fold.event? a = some ea ∧ Introduces ea event.senderId := by
  have hknown : ∀ {a ea}, responder.store.Stores a ea → e.fold.isAccepted a = true → e.fold.event? a = some ea :=
    fun hstored hacc => h.event?_eq hstored (RoomMembership.result_ne_none_of_accepted hacc)
  by_cases hleft : event.eventType = .memberLeft
  · obtain ⟨a, ea, hbelow, hstored, hintro⟩ := hr.leavers id event hs hleft
    have hacc := h.accepted_above hr (fun p i ev hdep hst => by
      obtain ⟨row, hrow, hp⟩ := EventStore.dep_iff.mp hdep
      rw [EventStore.Stores, EventStore.event?, hrow] at hst
      rwa [← Option.some.inj hst]) hbelow hs hparents
    exact ⟨a, ea, hacc, hknown hstored hacc, hintro⟩
  · obtain ⟨a, ea, hbelow, -, hevent, hintro⟩ := hr.rest.synced.settled.introduced (hr.accepted_of_stores hs)
      (hr.event?_of_stores hs) hgenesis hjoin hleft
    have hacc := h.accepted_above hr (fun p i ev hdep hst => by
      obtain ⟨known, hk, hp⟩ := RoomMembership.dep_iff.mp hdep
      rw [hr.event?_of_stores hst] at hk
      rwa [Option.some.inj hk]) hbelow hs hparents
    obtain ⟨known, hk⟩ := RoomMembership.event?_of_result (RoomMembership.result_ne_none_of_accepted hacc)
    rw [h.same_event hr a ea known hevent hk] at hintro
    exact ⟨a, known, hacc, hk, hintro⟩

/-- A follower's fold has accepted fewer events than the generation has values. -/
theorem snapshot_eq : e.snapshot = e.fold.snapshot := by
  apply h.synced.accurate
  have hcard : e.fold.acceptedIds.card ≤ responder.store.rows.keys.length := by
    refine le_trans (Finset.card_le_card fun id hid => ?_) (List.toFinset_card_le responder.store.rows.keys)
    have hacc := RoomMembership.mem_acceptedIds.mp hid
    obtain ⟨event, hevent⟩ := RoomMembership.event?_of_result (RoomMembership.result_ne_none_of_accepted hacc)
    have hstored := EventStore.contains_of_stores (h.within.fold.2 id event hevent)
    exact List.mem_toFinset.mpr (OrdMap.mem_keys.mpr hstored)
  exact lt_of_le_of_lt (h.tidy.fresh.counted.trans hcard) hr.short

/-- The sender of an event whose parents the follower has accepted is no stranger to it. -/
theorem signer_known {v : ValidatedEvent env room} (hs : responder.store.Stores v.eventId v.event)
    (hgenesis : v.event.eventType ≠ .roomCreated) (hparents : ∀ p ∈ v.event.prevEvents, e.fold.isAccepted p = true) :
    e.signerPlausible v = true := by
  unfold signerPlausible
  split
  · rfl
  · rename_i hcontent
    have hjoin : v.event.eventType ≠ .memberJoined := by
      intro htype
      rw [← v.typed] at htype
      cases hc : v.event.content with
      | memberJoined c => exact hcontent c hc
      | _ => rw [hc] at htype; cases htype
    obtain ⟨a, ea, hacc, hevent, hintro⟩ := h.introducer hr hs hgenesis hjoin hparents
    have hknows := RoomMembership.snapshot_knows hacc hevent hintro
      fun id ev hev htype => hr.creator (h.within.fold.2 id ev hev) htype
    rw [h.snapshot_eq hr, Bool.or_eq_true, beq_iff_eq, Option.isSome_iff_ne_none]
    exact hknows

/-- A frame of the responder whose parents are accepted is taken in at once. -/
theorem deliverFrame {f : Frame} (hs : responder.store.Stores f.eventId f.event)
    (hparents : ∀ p ∈ f.event.prevEvents, e.fold.isAccepted p = true) :
    Follows responder (e.deliverFrame f) ∧ (e.deliverFrame f).fold.isAccepted f.eventId = true ∧ e.RoomyFrame f := by
  have hroomy : e.RoomyFrame f := by
    intro _ v hv _ ⟨p, hp, hnone⟩
    rw [(validate_ok hv).2] at hp
    exact absurd hnone (RoomMembership.result_ne_none_of_accepted (hparents p hp))
  have hnext : Follows responder (e.deliverFrame f) :=
    ⟨h.synced.deliverFrame hroomy, h.tidy.deliverFrame f,
      h.within.deliverFrame (EngineInvariant.occurring_frame hs)⟩
  refine ⟨hnext, ?_, hroomy⟩
  by_cases hseen : e.dedupCache.contains f.eventId = true
  · have hsame : e.deliverFrame f = e := by rw [SyncEngine.deliverFrame, if_pos hseen]
    rw [hsame]
    exact h.synced.stored f.eventId (h.tidy.seen f.eventId hseen).1
  · -- the responder has validated it, and its sender is known
    obtain ⟨v, hvalid, hid, hevent⟩ : ∃ v : ValidatedEvent env room,
        validate env ⟨room, none⟩ f.eventId f.event = .ok v ∧ v.eventId = f.eventId ∧ v.event = f.event := by
      obtain ⟨w, -, hw⟩ := Option.map_eq_some_iff.mp hs
      exact validate_validated w hw
    have hadmitted : (e.wouldBuffer v && !e.signerPlausible v) = false := by
      rw [Bool.and_eq_false_iff, Bool.not_eq_false']
      by_cases hgenesis : v.event.eventType = .roomCreated
      · left
        rw [wouldBuffer, v.genesis_prevEvents hgenesis]
        rfl
      · right
        exact h.signer_known hr (by rw [hid, hevent]; exact hs) hgenesis (by rw [hevent]; exact hparents)
    have hfold : (e.deliverFrame f).fold = e.fold.ingest v := by
      rw [SyncEngine.deliverFrame, if_neg hseen, hvalid]
      dsimp only
      rw [deliver_fold, hadmitted]
      rfl
    apply hnext.accepted_of_judged hr hs
    rw [hfold, ← hid]
    refine h.synced.settled.ingest_judged (fun known hknown => ?_) fun p hp => ?_
    · rw [hid] at hknown
      rw [hevent]
      exact Option.some.inj ((h.within.fold.2 _ known hknown).symm.trans hs)
    · rw [hevent] at hp
      exact RoomMembership.result_ne_none_of_accepted (hparents p hp)

end Follows

/-! ### What is accepted stays -/

theorem ingest_accepted {m : RoomMembership env room} (h : m.Settled) (v : ValidatedEvent env room) {id : EventId}
    (hacc : m.isAccepted id = true) : (m.ingest v).isAccepted id = true := by
  obtain ⟨memo, hmemo⟩ := RoomMembership.isAccepted_iff.mp hacc
  refine RoomMembership.isAccepted_iff.mpr ⟨memo, ?_⟩
  rw [h.ingest_result v (RoomMembership.result_ne_none_of_accepted hacc), hmemo]

/-- Whatever a delivery does, it takes no acceptance back. -/
theorem accepted_carried (id : EventId) : Carried (fun _ => True)
    fun e : SyncEngine env sealing room => e.Fresh ∧ e.fold.isAccepted id = true where
  parked _ _ := trivial
  books he hbooks := ⟨fresh_carried.books he.1 hbooks, by rw [hbooks.toQuiet.fold]; exact he.2⟩
  ingest {e v} he hv := by
    refine ⟨fresh_carried.ingest he.1 hv, ?_⟩
    rw [ingestFold_fold]
    exact ingest_accepted he.1.settled v he.2
  queue {e v _ _} he hv hout := by
    refine ⟨fresh_carried.queue he.1 hv hout, ?_⟩
    dsimp only
    rw [ingestFold_fold]
    exact ingest_accepted he.1.settled v he.2
  promote {e v id' _ _} he hv hout := by
    refine ⟨fresh_carried.promote he.1 hv hout, ?_⟩
    rw [(storeAndFanout_view ((e.ingestFold v).evictParked id') v).1]
    exact (ingestFold_fold e v).symm ▸ ingest_accepted he.1.settled v he.2
  flush he := ⟨fresh_carried.flush he.1, by rw [(flushStoreBatch_view _).1]; exact he.2⟩

namespace Follows

/-- The frames of a message, each taken in after the ones before it. -/
theorem deliverFrames {frames : List Frame} (h : Follows responder e) (hr : Responds W responder)
    (hs : ∀ f ∈ frames, responder.store.Stores f.eventId f.event)
    (hcausal : ∀ (pre : List Frame) (f : Frame) (post : List Frame), frames = pre ++ f :: post →
      ∀ p ∈ f.event.prevEvents, e.fold.isAccepted p = true ∨ ∃ g ∈ pre, g.eventId = p) :
    Follows responder (frames.foldl SyncEngine.deliverFrame e) ∧ e.RoomyFrames frames ∧
      ∀ f ∈ frames, (frames.foldl SyncEngine.deliverFrame e).fold.isAccepted f.eventId = true := by
  induction frames generalizing e with
  | nil => exact ⟨h, trivial, fun f hf => absurd hf List.not_mem_nil⟩
  | cons f frames ih =>
    have hfirst : ∀ p ∈ f.event.prevEvents, e.fold.isAccepted p = true := by
      intro p hp
      rcases hcausal [] f frames rfl p hp with hacc | ⟨g, hg, -⟩
      · exact hacc
      · cases hg
    obtain ⟨hnext, hacc, hroomy⟩ := h.deliverFrame hr (hs f List.mem_cons_self) hfirst
    obtain ⟨hlast, hroomyRest, haccRest⟩ := ih hnext (fun g hg => hs g (List.mem_cons_of_mem _ hg)) (by
      intro pre g post hsplit p hp
      rcases hcausal (f :: pre) g post (by rw [hsplit, List.cons_append]) p hp with hold | ⟨q, hq, hid⟩
      · exact Or.inl ((accepted_carried p).deliverFrame ⟨h.tidy.fresh, hold⟩ fun _ _ _ => trivial).2
      · rcases List.mem_cons.mp hq with rfl | hq
        · exact Or.inl (hid ▸ hacc)
        · exact Or.inr ⟨q, hq, hid⟩)
    refine ⟨hlast, ⟨hroomy, hroomyRest⟩, fun g hg => ?_⟩
    rcases List.mem_cons.mp hg with rfl | hg
    · have hkept : (frames.foldl SyncEngine.deliverFrame (e.deliverFrame g)).Fresh ∧
          (frames.foldl SyncEngine.deliverFrame (e.deliverFrame g)).fold.isAccepted g.eventId = true :=
        List.foldlRecOn (motive := fun e : SyncEngine env sealing room => e.Fresh ∧ e.fold.isAccepted g.eventId = true)
          frames _ ⟨hnext.tidy.fresh, hacc⟩ fun _ hst frame _ =>
            (accepted_carried g.eventId).deliverFrame hst fun _ _ _ => trivial
      exact hkept.2
    · exact haccRest g hg

end Follows

/-! ### Rounds of pulls -/

/-- A follower between calls. -/
structure Following (W : Universe) (responder e : SyncEngine env sealing room) : Prop where
  rest : e.AtRest
  rested : e.Rested
  within : (EngineInvariant.occurring responder.store.Stores env room).Holds e
  holds : (W.invariant env room).Holds e

namespace Following

theorem follows (h : Following W responder e) : Follows responder e := ⟨h.rest.synced, h.rested.toTidy, h.within⟩

theorem onMessage {frames : List Frame} (h : Following W responder e) (hr : Responds W responder)
    (hs : ∀ f ∈ frames, responder.store.Stores f.eventId f.event)
    (hcausal : ∀ (pre : List Frame) (f : Frame) (post : List Frame), frames = pre ++ f :: post →
      ∀ p ∈ f.event.prevEvents, e.store.contains p = true ∨ ∃ g ∈ pre, g.eventId = p) :
    Following W responder (e.onMessage room (.events frames)) ∧
      (∀ f ∈ frames, (e.onMessage room (.events frames)).store.contains f.eventId = true) ∧
      ∀ id, e.store.contains id = true → (e.onMessage room (.events frames)).store.contains id = true := by
  obtain ⟨-, hroomy, hacc⟩ := h.follows.deliverFrames hr hs fun pre f post hsplit p hp =>
    (hcausal pre f post hsplit p hp).imp_left (h.rest.stored p).mp
  have hknown : ∀ f ∈ frames, (EngineInvariant.occurring responder.store.Stores env room).KnownFrame f :=
    fun f hf => EngineInvariant.occurring_frame (hs f hf)
  have hoccurs : ∀ f ∈ frames, (W.invariant env room).KnownFrame f := fun f hf =>
    Universe.knownFrame_of_occurs (hr.holds.fold.2 (hr.event?_of_stores (hs f hf)))
  have hnext : Following W responder (e.onMessage room (.events frames)) :=
    ⟨h.rest.onMessage fun _ => hroomy, h.rested.step (.onMessage room (.events frames)),
      h.within.onMessage room hknown, h.holds.onMessage room hoccurs⟩
  have hcall : e.onMessage room (.events frames) = (frames.foldl SyncEngine.deliverFrame e).finalizeDelivery := by
    rw [SyncEngine.onMessage, if_neg (not_not.mpr rfl)]
  refine ⟨hnext, fun f hf => ?_, fun id hid => ?_⟩
  · rw [hnext.rest.stored, hcall]
    refine ((accepted_carried f.eventId).finalizeDelivery ⟨?_, hacc f hf⟩).2
    exact List.foldlRecOn frames _ h.rested.fresh fun _ hst frame _ =>
      fresh_carried.deliverFrame hst fun _ _ _ => trivial
  · rw [hnext.rest.stored, hcall]
    refine ((accepted_carried id).finalizeDelivery ?_).2
    exact List.foldlRecOn (motive := fun e : SyncEngine env sealing room => e.Fresh ∧ e.fold.isAccepted id = true)
      frames _ ⟨h.rested.fresh, (h.rest.stored id).mp hid⟩ fun _ hst frame _ =>
        (accepted_carried id).deliverFrame hst fun _ _ _ => trivial

end Following

theorem lacking_le {R R' : Set EventId} (hsub : R ⊆ R') : e.lacking R' ≤ e.lacking R := by
  classical
  refine List.Sublist.length_le (List.monotone_filter_right _ fun id hid => ?_)
  simp only [decide_eq_true_eq] at hid ⊢
  exact fun hin => hid (hsub hin)

namespace Following

/-- The stored events of a follower, in the responder's order. -/
theorem downClosed (h : Following W responder e) (hr : Responds W responder) :
    DownClosed responder.store.deps {id | e.store.contains id = true} := by
  intro id hid p hdep
  have hacc := (h.rest.stored id).mp hid
  obtain ⟨event, hevent⟩ := RoomMembership.event?_of_result (RoomMembership.result_ne_none_of_accepted hacc)
  refine (h.rest.stored p).mpr (h.follows.accepted_below hr ?_ (.of_dep hdep) (h.within.fold.2 id event hevent) hacc)
  intro p id event hdep hs
  obtain ⟨row, hrow, hp⟩ := EventStore.dep_iff.mp hdep
  rw [EventStore.Stores, EventStore.event?, hrow] at hs
  rwa [← Option.some.inj hs]

/-- The rows of the two stores are of the same events. -/
theorem dep_iff (h : Following W responder e) {p id : EventId} (hid : e.store.contains id = true) :
    Staged.Dep e.store.deps p id ↔ Staged.Dep responder.store.deps p id := by
  obtain ⟨row, hrow⟩ := EventStore.contains_iff.mp hid
  have hevent : e.store.event? id = some row.event := EventStore.event?_eq_some.mpr ⟨row, hrow, rfl⟩
  have hs : responder.store.Stores row.event.eventId row.event.event := h.within.store id row.event hevent
  rw [e.store.keyed id row hrow] at hs
  have hdeps : e.store.deps id = responder.store.deps id := by
    obtain ⟨v, hv, hsame⟩ := Option.map_eq_some_iff.mp hs
    rw [EventStore.deps, EventStore.deps, hevent, hv, Option.map_some, Option.map_some, hsame]
  rw [Staged.Dep, Staged.Dep, hdeps]

theorem placed (h : Following W responder e) (hr : Responds W responder) : Universe.Placed e.store := by
  intro id row hrow p hp
  have hid : e.store.contains id = true := EventStore.contains_iff.mpr ⟨row, hrow⟩
  exact h.downClosed hr id hid p ((h.dep_iff hid).mp (EventStore.dep_iff.mpr ⟨row, hrow, hp⟩))

/-- A follower that has the authorization closure has the members. -/
theorem snapshot_eq (h : Following W responder e) (hr : Responds W responder)
    (hall : ∀ id ∈ responder.authorizationClosureIds, e.store.contains id = true) :
    e.snapshot = responder.snapshot := by
  have hsame : ∀ id a b, e.fold.event? id = some a → responder.fold.event? id = some b → a = b :=
    fun id a b ha hb => (h.follows.same_event hr id b a hb ha).symm
  rw [h.follows.snapshot_eq hr, hr.rest.synced.accurate hr.generation]
  refine (RoomMembership.snapshot_of_no_membership h.rest.synced.settled.wf hr.rest.synced.settled.wf
    (fun id hacc => ?_) fun id event hacc hevent haff => ?_).symm
  · have hjudged := RoomMembership.result_ne_none_of_accepted hacc
    obtain ⟨event, hevent⟩ := RoomMembership.event?_of_result hjudged
    exact h.rest.synced.settled.results_agree hr.rest.synced.settled hsame hjudged
      (RoomMembership.result_ne_none_of_accepted (hr.accepted_of_stores (h.within.fold.2 id event hevent)))
  · refine (h.rest.stored id).mp (hall id ?_)
    obtain ⟨row, hrow⟩ := EventStore.contains_iff.mp ((hr.rest.stored id).mpr hacc)
    have hs : responder.store.Stores id row.event.event := by
      rw [EventStore.Stores, EventStore.event?, hrow]
      rfl
    rw [hr.event?_of_stores hs, Option.some.injEq] at hevent
    refine (mem_authorizationClosureIds hr.placed).mpr ⟨id, ?_, Or.inl rfl⟩
    refine OrdSet.mem_ofList.mpr (List.mem_append_left _ (List.mem_flatMap.mpr ⟨event.eventType, ?_, ?_⟩))
    · rw [← hevent, ← row.event.typed, hevent]
      cases hc : event.content <;> simp [hc, affectsMembership] at haff <;> simp [Content.eventType]
    · refine List.mem_map.mpr ⟨row, EventStore.mem_byType.mpr ⟨OrdMap.mem_values.mpr ⟨id, hrow⟩, ?_⟩, ?_⟩
      · rw [hevent]
      · exact responder.store.keyed id row hrow

end Following

end SyncEngine

/-! ### The worked room -/

namespace EventStore

end EventStore

namespace Toy

end Toy

namespace SyncEngine

end SyncEngine

end IrohRooms
