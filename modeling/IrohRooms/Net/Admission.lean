import IrohRooms.Membership.Model

/-!
# Connect-time admission

The table the accept gate reads, built from a snapshot and the engine's fail-closed subjects. An endpoint id is a
device key whose bytes decompress to a curve point; the point check is iroh's, so it is a parameter here.
-/

namespace IrohRooms

/-- A device key that is an endpoint id. -/
abbrev EndpointId (isPoint : DeviceKey → Bool) := { d : DeviceKey // isPoint d = true }

def EndpointId.fromBytes (isPoint : DeviceKey → Bool) (d : DeviceKey) : Option (EndpointId isPoint) :=
  if h : isPoint d = true then some ⟨d, h⟩ else none

inductive RejectCause
  | unknownDevice | notActive | failClosed
  deriving DecidableEq, Repr

inductive AdmissionDecision
  | admitted (identity : IdentityKey)
  | admitProvisional
  | reject (cause : RejectCause)
  deriving DecidableEq, Repr

variable {isPoint : DeviceKey → Bool}

/-- The admission table: the identity of each bound device, the Active ones, and the fail-closed overlay. -/
structure AdmissionView (isPoint : DeviceKey → Bool) where
  deviceToIdentity : OrdMap (EndpointId isPoint) IdentityKey
  active : OrdSet IdentityKey
  failClosed : OrdSet IdentityKey
  deriving DecidableEq

namespace AdmissionView

/-- Denies every device. -/
def empty : AdmissionView isPoint := ⟨.empty, .empty, .empty⟩

/-- Enter one member: its device if it has one, and its identity if it is Active. -/
def enter (snapshot : MembershipSnapshot) (view : AdmissionView isPoint) (m : Member) : AdmissionView isPoint :=
  { view with
    deviceToIdentity := match m.device.bind (EndpointId.fromBytes isPoint) with
      | some id => view.deviceToIdentity.insert id m.identity
      | none => view.deviceToIdentity
    active := if snapshot.isActive m.identity then view.active.add m.identity else view.active }

def fromSnapshot (snapshot : MembershipSnapshot) (failClosed : List IdentityKey) : AdmissionView isPoint :=
  snapshot.members.values.foldl (enter snapshot) ⟨.empty, .empty, OrdSet.ofList failClosed⟩

def decide (view : AdmissionView isPoint) (device : EndpointId isPoint) : AdmissionDecision :=
  match view.deviceToIdentity.get? device with
  | none => .reject .unknownDevice
  | some identity =>
    if identity ∈ view.failClosed then .reject .failClosed
    else if identity ∈ view.active then .admitted identity
    else .reject .notActive

end AdmissionView

theorem EndpointId.fromBytes_eq_some {d : DeviceKey} {id : EndpointId isPoint} :
    EndpointId.fromBytes isPoint d = some id ↔ id.val = d := by
  unfold EndpointId.fromBytes
  split_ifs with h
  · rw [Option.some.injEq]
    constructor
    · intro heq
      rw [← heq]
    · intro heq
      exact Subtype.ext heq.symm
  · constructor
    · intro heq
      cases heq
    · intro heq
      exact absurd (heq ▸ id.property) h

namespace AdmissionView

/-- Everything in the table comes from a member entered, or was there before. -/
theorem foldl_enter (snapshot : MembershipSnapshot) (l : List Member) (view : AdmissionView isPoint) :
    (∀ {d i}, (l.foldl (enter snapshot) view).deviceToIdentity.get? d = some i →
      (∃ m ∈ l, m.identity = i ∧ m.device = some d.val) ∨ view.deviceToIdentity.get? d = some i) ∧
    (∀ {i}, i ∈ (l.foldl (enter snapshot) view).active → snapshot.isActive i = true ∨ i ∈ view.active) ∧
    (l.foldl (enter snapshot) view).failClosed = view.failClosed := by
  induction l generalizing view with
  | nil => exact ⟨fun h => Or.inr h, fun h => Or.inr h, rfl⟩
  | cons m l ih =>
    obtain ⟨hdev, hact, hfail⟩ := ih (enter snapshot view m)
    refine ⟨fun {d i} h => ?_, fun {i} h => ?_, hfail⟩
    · rcases hdev h with ⟨m', hm', hrec⟩ | hview
      · exact Or.inl ⟨m', List.mem_cons_of_mem m hm', hrec⟩
      · simp only [enter] at hview
        split at hview
        · rename_i id hid
          rw [OrdMap.get?_insert] at hview
          split_ifs at hview with hd
          · obtain ⟨dev, hdev', hpoint⟩ := Option.bind_eq_some_iff.mp hid
            rw [EndpointId.fromBytes_eq_some] at hpoint
            exact Or.inl ⟨m, List.mem_cons_self, Option.some.inj hview, by rw [hdev', hd, hpoint]⟩
          · exact Or.inr hview
        · exact Or.inr hview
    · rcases hact h with hactive | hview
      · exact Or.inl hactive
      · simp only [enter] at hview
        split_ifs at hview with hactive
        · rcases OrdSet.mem_add.mp hview with rfl | hold
          · exact Or.inl hactive
          · exact Or.inr hold
        · exact Or.inr hview

/-- An admitted device is bound to an Active member outside the overlay. -/
theorem fromSnapshot_admitted {snapshot : MembershipSnapshot} {failClosed : List IdentityKey}
    {d : EndpointId isPoint} {i : IdentityKey}
    (h : (fromSnapshot snapshot failClosed : AdmissionView isPoint).decide d = .admitted i) :
    (∃ m ∈ snapshot.members.values, m.identity = i ∧ m.device = some d.val) ∧ snapshot.isActive i = true ∧
      i ∉ failClosed := by
  obtain ⟨hdev, hact, hfail⟩ := foldl_enter snapshot snapshot.members.values
    (⟨.empty, .empty, OrdSet.ofList failClosed⟩ : AdmissionView isPoint)
  unfold decide at h
  split at h
  · cases h
  · rename_i identity hget
    split_ifs at h with hclosed hactive
    cases h
    refine ⟨?_, ?_, ?_⟩
    · rcases hdev hget with hm | hempty
      · exact hm
      · cases hempty
    · rcases hact hactive with hm | hempty
      · exact hm
      · cases hempty
    · intro hmem
      apply hclosed
      rw [fromSnapshot, hfail]
      exact OrdSet.mem_ofList.mpr hmem

/-- A decision of a table is an admission or a refusal. -/
theorem decide_cases (view : AdmissionView isPoint) (d : EndpointId isPoint) :
    (∃ i, view.decide d = .admitted i) ∨ ∃ cause, view.decide d = .reject cause := by
  unfold decide
  split
  · exact Or.inr ⟨_, rfl⟩
  · split_ifs
    · exact Or.inr ⟨_, rfl⟩
    · exact Or.inl ⟨_, rfl⟩
    · exact Or.inr ⟨_, rfl⟩

end AdmissionView

end IrohRooms
