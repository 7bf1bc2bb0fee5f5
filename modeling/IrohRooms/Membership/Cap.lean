import IrohRooms.Event.CborExact
import IrohRooms.Membership.Progress
import IrohRooms.Membership.Authenticity

/-!
# The room cap and the admin

The gate of a join counts the members its own ancestors establish, so concurrent joins can pass it together; the
bound on a snapshot comes from the demotion pass, which leaves Active only the identities of `foldAdmitted`. The
admin is read off a genesis. Several geneses of one room may be held, but a room id commits to its creator, so they
name one admin as long as BLAKE3 does not collide on them.
-/

namespace IrohRooms

variable {env : Env} {room : RoomId} {scope : List Entry}

/-! ### The cap -/

theorem admittedMembers_length (admin : Option IdentityKey) (ranks : OrdMap IdentityKey EventId) :
    (admittedMembers env admin ranks).length ≤ env.maxActiveMembers := by
  have hpos : 1 ≤ env.maxActiveMembers := by
    unfold Env.maxActiveMembers
    split_ifs <;> omega
  unfold admittedMembers
  rw [List.length_append, List.length_map, List.length_take]
  cases admin with
  | none =>
    simp only [Option.isSome_none, Bool.false_eq_true, if_false, Option.toList_none, List.length_nil]
    omega
  | some a =>
    simp only [Option.isSome_some, if_true, Option.toList_some, List.length_singleton]
    omega

/-- Whoever is Active after the demotion pass holds a slot. -/
theorem demote_active_admitted {admitted : List IdentityKey} {m : Member}
    (h : (demote admitted m).status = .active) : m.identity ∈ admitted := by
  unfold demote at h
  split_ifs at h with hout
  by_contra hnot
  exact hout ⟨h, hnot⟩

theorem active_admitted {m : Member} (h : m ∈ (fold env room scope).activeMembers) :
    m.identity ∈ foldAdmitted env scope := by
  obtain ⟨hm, hactive⟩ := List.mem_filter.mp h
  obtain ⟨i, hi⟩ := OrdMap.mem_values.mp hm
  have hmember : (fold env room scope).member i = some m := hi
  rw [fold_member] at hmember
  obtain ⟨m', -, rfl⟩ := Option.map_eq_some_iff.mp hmember
  rw [demote_identity]
  exact demote_active_admitted (by simpa using hactive)

/-- The members of a snapshot, listed by identity. -/
theorem values_map_identity : (fold env room scope).members.values.map Member.identity =
    (fold env room scope).members.keys := by
  rw [OrdMap.values, OrdMap.keys, List.map_map]
  refine List.map_congr_left fun e he => ?_
  exact fold_member_identity (OrdMap.mem_entries.mp he)

theorem activeMembers_identity_nodup : ((fold env room scope).activeMembers.map Member.identity).Nodup := by
  have hall : ((fold env room scope).members.values.map Member.identity).Nodup := by
    rw [values_map_identity]
    exact OrdMap.keys_nodup _
  exact hall.sublist (List.Sublist.map _ List.filter_sublist)

theorem activeMemberCount_le : (fold env room scope).activeMemberCount ≤ env.maxActiveMembers := by
  have hsub : (fold env room scope).activeMembers.map Member.identity ⊆ foldAdmitted env scope := by
    intro i hi
    obtain ⟨m, hm, rfl⟩ := List.mem_map.mp hi
    exact active_admitted hm
  have hlen := List.Nodup.length_le_of_subset activeMembers_identity_nodup hsub
  rw [List.length_map] at hlen
  exact hlen.trans (admittedMembers_length _ _)

/-! ### The creator of a room -/

/-- What the room id of a genesis hashes. -/
def roomIdPreimage (creatorSenderId : IdentityKey) (roomNonce : ShortId) (createdAt : Nat) : Bytes :=
  roomidContext ++ creatorSenderId.asBytes ++ beBytes 16 roomNonce.toNat ++ beBytes 8 createdAt

theorem deriveRoomId_eq (creator : IdentityKey) (nonce : ShortId) (createdAt : Nat) :
    env.deriveRoomId creator nonce createdAt = ⟨env.blake3 (roomIdPreimage creator nonce createdAt)⟩ := rfl

/-- The big-endian bytes determine a number of that width. -/
theorem beBytes_inj {n x y : Nat} (hx : x < 256 ^ n) (hy : y < 256 ^ n) (h : beBytes n x = beBytes n y) : x = y := by
  have hread := congrArg Cbor.fromBeBytes h
  rwa [Cbor.fromBeBytes_beBytes, Cbor.fromBeBytes_beBytes, Nat.mod_eq_of_lt hx, Nat.mod_eq_of_lt hy] at hread

theorem asBytes_inj {kind : Kind} {x y : Bytes32 kind} (h : x.asBytes = y.asBytes) : x = y :=
  Bytes32.num_injective (beBytes_inj (by exact x.bits.isLt) (by exact y.bits.isLt) h)

/-- A preimage determines its creator. -/
theorem creator_of_preimage {a b : IdentityKey} {n n' : ShortId} {t t' : Nat}
    (h : roomIdPreimage a n t = roomIdPreimage b n' t') : a = b := by
  unfold roomIdPreimage at h
  have hhead := List.append_inj_left h (by simp only [List.length_append, Bytes32.asBytes, Cbor.length_beBytes])
  have hctx := List.append_inj_left hhead (by simp only [List.length_append, Bytes32.asBytes, Cbor.length_beBytes])
  exact asBytes_inj (List.append_cancel_left hctx)

/-- BLAKE3 does not collide on the geneses of the list. -/
def GenesisCollisionFree (events : List (ValidatedEvent env room)) : Prop :=
  ∀ v ∈ events, ∀ w ∈ events, ∀ c c', v.event.content = .roomCreated c → w.event.content = .roomCreated c' →
    env.blake3 (roomIdPreimage v.event.senderId c.roomNonce v.event.createdAt) =
      env.blake3 (roomIdPreimage w.event.senderId c'.roomNonce w.event.createdAt) →
    roomIdPreimage v.event.senderId c.roomNonce v.event.createdAt =
      roomIdPreimage w.event.senderId c'.roomNonce w.event.createdAt

/-- A genesis derives the room it is validated for. -/
theorem ValidatedEvent.derived {v : ValidatedEvent env room} {c : RoomCreated}
    (hc : v.event.content = .roomCreated c) :
    env.deriveRoomId v.event.senderId c.roomNonce v.event.createdAt = room := by
  have h := (checkDecoded_ok v.checked).2.1
  unfold checkRoom at h
  rw [hc] at h
  dsimp only at h
  split_ifs at h with hne
  obtain ⟨hderive, hroom⟩ := not_or.mp hne
  rw [not_not.mp hderive, not_not.mp hroom]

/-- The geneses of one room have one creator. -/
theorem GenesisCollisionFree.creator {events : List (ValidatedEvent env room)} (hfree : GenesisCollisionFree events)
    {v w : ValidatedEvent env room} (hv : v ∈ events) (hw : w ∈ events) {c c' : RoomCreated}
    (hc : v.event.content = .roomCreated c) (hc' : w.event.content = .roomCreated c') :
    v.event.senderId = w.event.senderId := by
  refine creator_of_preimage (hfree v hv w hw c c' hc hc' ?_)
  have heq := (ValidatedEvent.derived hc).trans (ValidatedEvent.derived hc').symm
  rw [deriveRoomId_eq, deriveRoomId_eq] at heq
  exact congrArg Bytes32.bits heq

/-! ### Runs -/

namespace RoomMembership

variable {m : RoomMembership env room}

theorem foldl_ingest_result (more : List (ValidatedEvent env room)) (h : Settled m) {id : EventId}
    (hid : m.result id ≠ none) : (more.foldl RoomMembership.ingest m).result id = m.result id := by
  induction more generalizing m with
  | nil => rfl
  | cons v more ih =>
    have hstep := h.ingest_result v hid
    rw [List.foldl_cons, ih (h.ingest v) (hstep ▸ hid), hstep]

theorem fromEvents_append (events more : List (ValidatedEvent env room)) :
    fromEvents (events ++ more) = more.foldl RoomMembership.ingest (fromEvents events) := by
  rw [fromEvents, List.foldl_append, ← fromEvents]

/-- Accepted events stay accepted. -/
theorem isAccepted_append {events : List (ValidatedEvent env room)} (more : List (ValidatedEvent env room))
    {id : EventId} (h : (fromEvents events).isAccepted id = true) :
    (fromEvents (events ++ more)).isAccepted id = true := by
  rw [fromEvents_append, isAccepted_iff]
  obtain ⟨s, hs⟩ := isAccepted_iff.mp h
  exact ⟨s, (foldl_ingest_result more (settled_fromEvents events) (by simp [hs])).trans hs⟩

theorem event?_append {events : List (ValidatedEvent env room)} (more : List (ValidatedEvent env room))
    {id : EventId} {e : SignedEvent} (h : (fromEvents events).event? id = some e) :
    (fromEvents (events ++ more)).event? id = some e := by
  rw [fromEvents_event?] at h ⊢
  obtain ⟨v, hv, rfl⟩ := Option.map_eq_some_iff.mp h
  rw [List.find?_append, hv]
  rfl

/-- A tracked event is one of the list. -/
theorem mem_of_event? {events : List (ValidatedEvent env room)} {id : EventId} {e : SignedEvent}
    (h : (fromEvents events).event? id = some e) : ∃ v ∈ events, v.event = e := by
  rw [fromEvents_event?] at h
  obtain ⟨v, hv, rfl⟩ := Option.map_eq_some_iff.mp h
  exact ⟨v, List.mem_of_find?_eq_some hv, rfl⟩

/-- The admin of a snapshot: the creator, Active and with the admin's role. -/
def AdminIs (s : MembershipSnapshot) (creator : IdentityKey) : Prop :=
  s.admin = some creator ∧ ∃ device, s.member creator = some ⟨creator, some device, .active, .admin⟩

/-- An accepted genesis names the admin of its room. -/
theorem adminIs_of_genesis {events : List (ValidatedEvent env room)} (hfree : GenesisCollisionFree events)
    {id : EventId} {e : SignedEvent} {c : RoomCreated} (hacc : (fromEvents events).isAccepted id = true)
    (he : (fromEvents events).event? id = some e) (hc : e.content = .roomCreated c) :
    AdminIs (fromEvents events).snapshot e.senderId := by
  obtain ⟨v, hv, rfl⟩ := mem_of_event? he
  obtain ⟨ent, hent, rfl, hev⟩ := exists_entry_of_event he
  have hscope : ent ∈ (fromEvents events).entries.filter Entry.accepted :=
    List.mem_filter.mpr ⟨hent, (entryOf_eq_some (mem_entries.mp hent)).2.2.trans hacc⟩
  -- the fold reads the first genesis of its scope; it may be another one, by the same creator
  cases hg : findGenesis ((fromEvents events).entries.filter Entry.accepted) with
  | none =>
    have hnone := List.find?_eq_none.mp (Option.map_eq_none_iff.mp hg) ent hscope
    simp [hev, hc, Content.eventType] at hnone
  | some g =>
    obtain ⟨first, hfirst, rfl⟩ := Option.map_eq_some_iff.mp hg
    obtain ⟨hfirstMem, -⟩ := List.mem_filter.mp (List.mem_of_find?_eq_some hfirst)
    obtain ⟨w, hw, hwev⟩ := mem_of_event? (entryOf_eq_some (mem_entries.mp hfirstMem)).2.1
    obtain ⟨c', hc'⟩ : ∃ c', first.event.content = .roomCreated c' := by
      have htype := List.find?_some hfirst
      cases hcont : first.event.content <;> simp [hcont, Content.eventType] at htype ⊢
    have hsender : v.event.senderId = first.event.senderId := by
      rw [← hwev]
      exact hfree.creator hv hw hc (hwev ▸ hc')
    rw [hsender]
    exact ⟨by rw [snapshot, fold_admin, hg]; rfl, first.event.deviceId, fold_member_admin hg⟩

/-- In every run a snapshot stays within the cap and its device index agrees with the members; and the creator of
an accepted genesis is the admin, Active, then and after any further events. -/
theorem snapshot_capped (events more : List (ValidatedEvent env room)) (hfree : GenesisCollisionFree (events ++ more)) :
    (fromEvents events).snapshot.activeMemberCount ≤ env.maxActiveMembers ∧
      (∀ id e c, (fromEvents events).isAccepted id = true → (fromEvents events).event? id = some e →
        e.content = .roomCreated c → AdminIs (fromEvents events).snapshot e.senderId ∧
          AdminIs (fromEvents (events ++ more)).snapshot e.senderId) ∧
      ∀ d i, (fromEvents events).snapshot.identityOfDevice d = some i →
        ∃ mem, (fromEvents events).snapshot.member i = some mem ∧ mem.device = some d := by
  refine ⟨activeMemberCount_le, fun id e c hacc he hc => ⟨?_, ?_⟩, fun d i hd => ?_⟩
  · refine adminIs_of_genesis (fun v hv w hw => hfree v ?_ w ?_) hacc he hc
    · exact List.mem_append_left more hv
    · exact List.mem_append_left more hw
  · exact adminIs_of_genesis hfree (isAccepted_append more hacc) (event?_append more he) hc
  · exact MembershipSnapshot.boundDevice_eq_some.mp (boundDevice_of_identityOfDevice hd)

end RoomMembership

/-- A second genesis of the same creator, from another device. -/
def Toy.regenesis : SignedEvent := buildRoomCreated toyEnv (Toy.idSeed 1) (Toy.devSeed 3) "room" 0 100

theorem Toy.log_collisionFree {events : List (Nat × SignedEvent)} (h : ∀ p ∈ events, ∀ c, p.2.content = .roomCreated c →
    roomIdPreimage p.2.senderId c.roomNonce p.2.createdAt = roomIdPreimage (Toy.identity 1) 0 100) :
    GenesisCollisionFree (Toy.log events) := by
  have hall : ∀ v ∈ Toy.log events, ∀ c, v.event.content = .roomCreated c →
      roomIdPreimage v.event.senderId c.roomNonce v.event.createdAt = roomIdPreimage (Toy.identity 1) 0 100 := by
    intro v hv c hc
    obtain ⟨p, hp, hpv⟩ := List.mem_map.mp (Toy.mem_log hv)
    have hevent : p.2 = v.event := congrArg Prod.snd hpv
    rw [← hevent] at hc ⊢
    exact h p hp c hc
  intro v hv w hw c c' hc hc' _
  rw [hall v hv c hc, hall w hw c' hc']

/-- A room with one member, to which a second genesis of its creator is added. -/
theorem RoomMembership.snapshot_capped_regenesis : let run := fromEvents (Toy.log Toy.joined)
    run.snapshot.activeMemberCount ≤ toyEnv.maxActiveMembers ∧ run.snapshot.activeMemberCount = 2 ∧
      AdminIs run.snapshot (Toy.identity 1) ∧
      AdminIs (fromEvents (Toy.log Toy.joined ++ Toy.log [(9, Toy.regenesis)])).snapshot (Toy.identity 1) := by
  have hfree : GenesisCollisionFree (Toy.log Toy.joined ++ Toy.log [(9, Toy.regenesis)]) := by
    have happ : Toy.log Toy.joined ++ Toy.log [(9, Toy.regenesis)] = Toy.log (Toy.joined ++ [(9, Toy.regenesis)]) :=
      (List.filterMap_append ..).symm
    rw [happ]
    refine Toy.log_collisionFree fun p hp c hc => ?_
    simp only [Toy.joined, List.cons_append, List.nil_append, List.mem_cons, List.not_mem_nil, or_false] at hp
    rcases hp with rfl | rfl | rfl | rfl
    · cases hc
      rfl
    · cases hc
    · cases hc
    · cases hc
      rfl
  obtain ⟨hcap, hadmin, -⟩ := snapshot_capped (Toy.log Toy.joined) (Toy.log [(9, Toy.regenesis)]) hfree
  obtain ⟨hnow, hlater⟩ := hadmin (Bytes32.ofNat 10) Toy.genesis _ (by decide +kernel) (by decide +kernel) rfl
  exact ⟨hcap, by decide +kernel, hnow, hlater⟩

end IrohRooms
