import IrohRooms.Event.Build
import IrohRooms.Membership.Invariant
import IrohRooms.Membership.Snapshot

/-!
# Who signed an accepted event

An event is signed by a device and speaks for an identity. It is *authentic* when its content carries a verified
binding of that device, or the membership its ancestors establish binds the device to the identity. The gate
guarantees this for every accepted event except two kinds: a removal without an embedded binding, and a departure
of somebody who has no bound device.
-/

namespace IrohRooms

variable {env : Env} {room : RoomId}

/-- The event's device speaks for its sender. -/
def Authentic (env : Env) (room : RoomId) (event : SignedEvent) (view : MembershipSnapshot) : Prop :=
  (∃ b, event.content.deviceBinding? = some b ∧ b.identityKey = event.senderId ∧ b.deviceKey = event.deviceId ∧
      b.verify env room = .ok ()) ∨
    view.boundDevice event.senderId = some event.deviceId

/-- A removal that carries no binding, from a device the view does not bind to its sender. -/
def UnboundRemoval (event : SignedEvent) (view : MembershipSnapshot) : Prop :=
  event.eventType = .memberRemoved ∧ event.content.deviceBinding? = none ∧
    view.boundDevice event.senderId ≠ some event.deviceId

/-- A departure of somebody to whom the view binds no device. -/
def UnboundDeparture (event : SignedEvent) (view : MembershipSnapshot) : Prop :=
  event.eventType = .memberLeft ∧ view.boundDevice event.senderId = none

theorem authentic_of_binding {v : ValidatedEvent env room} {view : MembershipSnapshot} {b : DeviceBinding}
    (hb : v.event.content.deviceBinding? = some b) : Authentic env room v.event view := by
  obtain ⟨hid, hdev, hver⟩ := verifyBindings_ok v.bindings hb
  rw [v.roomId_eq] at hver
  exact Or.inl ⟨b, hb, hid, hdev, hver⟩

theorem gate_ok {event : SignedEvent} {ancestors : List Entry} (h : gate env room event ancestors = .ok ()) :
    authorize env room event ancestors (ancestorFold env room ancestors) = .ok () ∧
      gateDeviceBinding event (ancestorFold env room ancestors) = .ok () := by
  unfold gate at h
  cases ha : authorize env room event ancestors (ancestorFold env room ancestors) with
  | error reason => simp [ha] at h
  | ok u => exact ⟨rfl, by simpa [ha] using h⟩

/-- A passed binding gate leaves the bound device or no bound device. -/
theorem gateDeviceBinding_ok {event : SignedEvent} {view : MembershipSnapshot}
    (h : gateDeviceBinding event view = .ok ()) (hreq : event.eventType.requiresMembershipDeviceBinding = true) :
    view.boundDevice event.senderId = some event.deviceId ∨ view.boundDevice event.senderId = none := by
  unfold gateDeviceBinding at h
  rw [hreq] at h
  cases hb : view.boundDevice event.senderId with
  | none => exact Or.inr rfl
  | some d =>
    by_cases hd : d = event.deviceId
    · exact Or.inl (congrArg some hd)
    · simp [hb, hd] at h

/-- Authors that must be Active or the admin have a bound device, so the binding gate decides. -/
theorem boundDevice_of_authorized {event : SignedEvent} {ancestors : List Entry}
    (h : gate env room event ancestors = .ok ()) (hreq : event.eventType.requiresMembershipDeviceBinding = true)
    (htyped : event.content.eventType = event.eventType) (hleft : event.eventType ≠ .memberLeft) :
    (ancestorFold env room ancestors).boundDevice event.senderId = some event.deviceId := by
  obtain ⟨hauth, hbind⟩ := gate_ok h
  refine (gateDeviceBinding_ok hbind hreq).resolve_right ?_
  rw [← htyped] at hreq hleft
  have hactive : gateActiveMember event (ancestorFold env room ancestors) = .ok () →
      (ancestorFold env room ancestors).boundDevice event.senderId ≠ none := by
    intro hg
    refine boundDevice_ne_none_of_isActive ?_
    unfold gateActiveMember at hg
    split_ifs at hg with hact
    exact hact
  have hadmin : gateAdminAction event (ancestorFold env room ancestors) = .ok () →
      (ancestorFold env room ancestors).boundDevice event.senderId ≠ none := by
    intro hg
    refine boundDevice_admin_ne_none ?_
    unfold gateAdminAction at hg
    split_ifs at hg with hadm
    exact hadm
  cases hc : event.content <;> simp only [hc, authorize] at hauth <;>
    first
    | exact hactive hauth
    | exact hadmin hauth
    | exact absurd (by rw [hc]; rfl) hleft
    | simp [hc, Content.eventType, EventType.requiresMembershipDeviceBinding] at hreq

/-- In every run, an accepted event is authentic unless it is an unbound removal or departure. -/
theorem accepted_authentic_iff (events : List (ValidatedEvent env room)) {id : EventId} {e : SignedEvent}
    {view : MembershipSnapshot} (he : (RoomMembership.fromEvents events).event? id = some e)
    (hacc : (RoomMembership.fromEvents events).isAccepted id = true)
    (hview : (RoomMembership.fromEvents events).ancestorView id = some view) :
    Authentic env room e view ↔ ¬ UnboundRemoval e view ∧ ¬ UnboundDeparture e view := by
  obtain ⟨n, hn, rfl⟩ := Option.map_eq_some_iff.mp he
  have hwf := (RoomMembership.settled_fromEvents events).wf
  have hgate := (hwf.isAccepted_iff_gate hn (RoomMembership.result_ne_none_of_accepted hacc)).mp hacc
  have hview' : view = ancestorFold env room
      ((RoomMembership.fromEvents events).resolve n.membershipAncestors) := by
    simpa [RoomMembership.ancestorView, hn] using hview.symm
  constructor
  · intro hauth
    refine ⟨fun ⟨_, hnone, hne⟩ => ?_, fun ⟨hleft, hnone⟩ => ?_⟩
    · rcases hauth with ⟨b, hb, -⟩ | hbound
      · rw [hnone] at hb
        cases hb
      · exact hne hbound
    · rcases hauth with ⟨b, hb, -⟩ | hbound
      · rw [← n.event.typed] at hleft
        cases hc : n.event.event.content <;> simp_all [Content.eventType, Content.deviceBinding?]
      · rw [hnone] at hbound
        cases hbound
  · rintro ⟨hrem, hdep⟩
    cases hb : n.event.event.content.deviceBinding? with
    | some b => exact authentic_of_binding hb
    | none =>
      refine Or.inr ?_
      by_cases hreq : n.event.event.eventType.requiresMembershipDeviceBinding = true
      · by_cases hleft : n.event.event.eventType = .memberLeft
        · obtain ⟨-, hbind⟩ := gate_ok hgate
          rw [← hview'] at hbind
          exact (gateDeviceBinding_ok hbind hreq).resolve_right fun hnone => hdep ⟨hleft, hnone⟩
        · rw [hview']
          exact boundDevice_of_authorized hgate hreq n.event.typed hleft
      · by_contra hne
        refine hrem ⟨?_, hb, hne⟩
        -- of the three types that carry their own binding only a removal may omit it
        rw [← n.event.typed] at hreq ⊢
        cases hc : n.event.event.content <;>
          simp_all [Content.eventType, Content.deviceBinding?, EventType.requiresMembershipDeviceBinding]

/-- The room of the admin and an invited participant `2` who joined. -/
def Toy.joined : List (Nat × SignedEvent) :=
  [(10, genesis), (11, invite 2 7 .member none [10]), (12, join 2 7 .member [11])]

/-- The joined member's own departure is authentic: its device is the one bound by the join. -/
theorem accepted_authentic_departure :
    let run := RoomMembership.fromEvents (Toy.log (Toy.joined ++ [(13, Toy.leave 2 2 [12])]))
    ∃ view, run.ancestorView (Bytes32.ofNat 13) = some view ∧ Authentic toyEnv Toy.room (Toy.leave 2 2 [12]) view := by
  intro run
  obtain ⟨hread, hevent, haccepted⟩ :
      (run.ancestorView (Bytes32.ofNat 13)).map (fun view => view.boundDevice (Toy.identity 2)) =
        some (some (Toy.device 2)) ∧
      run.event? (Bytes32.ofNat 13) = some (Toy.leave 2 2 [12]) ∧ run.isAccepted (Bytes32.ofNat 13) = true := by
    decide +kernel
  obtain ⟨view, hview, hbound⟩ := Option.map_eq_some_iff.mp hread
  refine ⟨view, hview, (accepted_authentic_iff _ hevent haccepted hview).mpr ⟨?_, ?_⟩⟩
  · rintro ⟨htype, -⟩
    exact absurd htype (by decide)
  · rintro ⟨-, hnone⟩
    rw [show (Toy.leave 2 2 [12]).senderId = Toy.identity 2 from rfl, hbound] at hnone
    cases hnone

/-- A removal in the admin's name, signed by the device of a stranger, is accepted. -/
theorem removal_accepted_from_stranger : ¬ ∀ (env : Env) (room : RoomId) (events : List (ValidatedEvent env room))
    (id : EventId) (e : SignedEvent) (view : MembershipSnapshot),
    (RoomMembership.fromEvents events).event? id = some e →
    (RoomMembership.fromEvents events).isAccepted id = true →
    (RoomMembership.fromEvents events).ancestorView id = some view → Authentic env room e view := by
  intro hall
  let log := Toy.log (Toy.joined ++ [(13, Toy.remove 2 9 [12])])
  obtain ⟨hread, hevent, haccepted⟩ :
      ((RoomMembership.fromEvents log).ancestorView (Bytes32.ofNat 13)).map
        (fun view => view.boundDevice (Toy.identity 1)) = some (some (Toy.device 1)) ∧
      (RoomMembership.fromEvents log).event? (Bytes32.ofNat 13) = some (Toy.remove 2 9 [12]) ∧
      (RoomMembership.fromEvents log).isAccepted (Bytes32.ofNat 13) = true := by decide +kernel
  obtain ⟨view, hview, hbound⟩ := Option.map_eq_some_iff.mp hread
  have hauth := hall toyEnv Toy.room log (Bytes32.ofNat 13) (Toy.remove 2 9 [12]) view hevent haccepted hview
  rcases hauth with ⟨b, hb, -⟩ | hdev
  · exact absurd hb (by simp [Toy.remove, buildMemberRemoved, buildEvent, Content.deviceBinding?])
  · rw [show (Toy.remove 2 9 [12]).senderId = Toy.identity 1 from rfl, hbound] at hdev
    exact absurd hdev (by decide)

end IrohRooms
