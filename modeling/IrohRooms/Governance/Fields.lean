import IrohRooms.Event.Delimited
import IrohRooms.Governance.Model

/-!
# Reading fields of canonical maps

The readers of the governance records look fields up by key and refuse keys they do not know; they differ in the code
they give for a missing field, a value of the wrong type and an id of the wrong width, so the codes are arguments here.
A record read this way is written back exactly if the values under its keys are (`encode_map_iff_lookup`).
-/

namespace IrohRooms.Governance

/-- `Option::ok_or`. -/
def orReject {α : Type} (code : Reject) : Option α → Except Reject α
  | some a => .ok a
  | none => .error code

/-- A required field. -/
def field {α : Type} (missing shape : Reject) (read : CborValue → Option α) (entries : List (String × CborValue))
    (key : String) : Except Reject α := do
  let value ← orReject missing (entries.lookup key)
  orReject shape (read value)

/-- A field that may be absent. -/
def optionalField {α : Type} (shape : Reject) (read : CborValue → Option α) (entries : List (String × CborValue))
    (key : String) : Except Reject (Option α) :=
  match entries.lookup key with
  | none => .ok none
  | some value => (orReject shape (read value)).map some

/-- Thirty-two bytes exactly. -/
def Id.ofBytes {kind : IdKind} (b : Bytes) : Option (Id kind) :=
  if b.length = 32 then some ⟨BitVec.ofNat 256 (Cbor.fromBeBytes b)⟩ else none

def idOf {kind : IdKind} (shape width : Reject) (value : CborValue) : Except Reject (Id kind) := do
  let b ← orReject shape value.asBytes
  orReject width (Id.ofBytes b)

def idField {kind : IdKind} (missing shape width : Reject) (entries : List (String × CborValue)) (key : String) :
    Except Reject (Id kind) := do
  let value ← orReject missing (entries.lookup key)
  idOf shape width value

def rejectUnknownKeys (entries : List (String × CborValue)) (allowed : List String) (code : Reject) :
    Except Reject Unit :=
  if entries.all fun e => allowed.contains e.1 then .ok () else .error code

/-! ### Words of the wire -/

def Role.parse : String → Except Reject Role
  | "member" => .ok .member
  | "agent" => .ok .agent
  | "admin" => .ok .admin
  | _ => .error .invalidContent

def MemberStatus.parse : String → Except Reject MemberStatus
  | "active" => .ok .active
  | "revoked" => .ok .revoked
  | _ => .error .invalidContent

def ReplicaStatus.parse : String → Except Reject ReplicaStatus
  | "active" => .ok .active
  | "disabled" => .ok .disabled
  | _ => .error .invalidContent

theorem Role.parse_eq_ok {s : String} {r : Role} : Role.parse s = .ok r ↔ s = r.asStr := by
  constructor
  · intro h
    unfold Role.parse at h
    split at h <;> cases h <;> rfl
  · rintro rfl
    cases r <;> rfl

theorem MemberStatus.parse_eq_ok {s : String} {r : MemberStatus} : MemberStatus.parse s = .ok r ↔ s = r.asStr := by
  constructor
  · intro h
    unfold MemberStatus.parse at h
    split at h <;> cases h <;> rfl
  · rintro rfl
    cases r <;> rfl

/-! ### What a successful read says -/

section Reads

variable {α : Type} {missing shape width code : Reject} {read : CborValue → Option α} {value : CborValue}
variable {entries : List (String × CborValue)} {key : String} {kind : IdKind}

@[simp] theorem orReject_eq_ok {o : Option α} {a : α} : orReject code o = .ok a ↔ o = some a := by
  cases o <;> simp [orReject]

theorem exists_of_forall₂ {β γ : Type} {R : β → γ → Prop} {l : List β} {l' : List γ} (h : List.Forall₂ R l l') {x : β}
    (hx : x ∈ l) : ∃ y ∈ l', R x y := by
  induction h with
  | nil => cases hx
  | cons hxy _ ih =>
    rcases List.mem_cons.mp hx with rfl | hx
    · exact ⟨_, List.mem_cons_self, hxy⟩
    · obtain ⟨y, hy, hR⟩ := ih hx
      exact ⟨y, List.mem_cons_of_mem _ hy, hR⟩

theorem field_eq_ok {a : α} : field missing shape read entries key = .ok a ↔
    ∃ value, entries.lookup key = some value ∧ read value = some a := by
  simp only [field, bind_eq_ok_iff, orReject_eq_ok]

theorem uint_field_eq_ok {n : UInt64} :
    field missing shape CborValue.asUint entries key = .ok n ↔ entries.lookup key = some (.uint n) := by
  simp only [field_eq_ok, asUint_eq_some]
  exact ⟨fun ⟨v, h, hv⟩ => hv ▸ h, fun h => ⟨_, h, rfl⟩⟩

theorem text_field_eq_ok {x : String} :
    field missing shape CborValue.asText entries key = .ok x ↔ entries.lookup key = some (.text x) := by
  simp only [field_eq_ok, asText_eq_some]
  exact ⟨fun ⟨v, h, hv⟩ => hv ▸ h, fun h => ⟨_, h, rfl⟩⟩

theorem bytes_field_eq_ok {b : Bytes} :
    field missing shape CborValue.asBytes entries key = .ok b ↔ entries.lookup key = some (.bytes b) := by
  simp only [field_eq_ok, asBytes_eq_some]
  exact ⟨fun ⟨v, h, hv⟩ => hv ▸ h, fun h => ⟨_, h, rfl⟩⟩

theorem Id.ofBytes_eq_some {b : Bytes} {x : Id kind} : Id.ofBytes b = some x ↔ b = x.asBytes := by
  unfold Id.ofBytes Id.asBytes Id.num
  constructor
  · intro h
    split_ifs at h with hlen
    rw [← Option.some.inj h]
    have hlt : Cbor.fromBeBytes b < 2 ^ 256 := by
      have := Cbor.fromBeBytes_lt b
      rwa [hlen] at this
    rw [BitVec.toNat_ofNat, Nat.mod_eq_of_lt hlt, ← hlen, Cbor.beBytes_fromBeBytes]
  · rintro rfl
    have hlt : x.bits.toNat < 256 ^ 32 := x.bits.isLt
    rw [if_pos (Cbor.length_beBytes 32 _), Cbor.fromBeBytes_beBytes, Nat.mod_eq_of_lt hlt, BitVec.ofNat_toNat,
      BitVec.setWidth_eq]

theorem Id.asBytes_injective : Function.Injective (Id.asBytes : Id kind → Bytes) := fun _ _ h =>
  Option.some.inj ((Id.ofBytes_eq_some.mpr rfl).symm.trans (Id.ofBytes_eq_some.mpr h))

theorem Id.length_asBytes (x : Id kind) : x.asBytes.length = 32 := Cbor.length_beBytes 32 _

theorem idOf_eq_ok {x : Id kind} : idOf shape width value = .ok x ↔ value = x.toCbor := by
  simp only [idOf, bind_eq_ok_iff, orReject_eq_ok, asBytes_eq_some, Id.ofBytes_eq_some, Id.toCbor]
  constructor
  · rintro ⟨b, rfl, rfl⟩
    rfl
  · intro h
    exact ⟨_, h, rfl⟩

theorem idField_eq_ok {x : Id kind} :
    idField missing shape width entries key = .ok x ↔ entries.lookup key = some x.toCbor := by
  simp only [idField, bind_eq_ok_iff, orReject_eq_ok, idOf_eq_ok]
  constructor
  · rintro ⟨value, h, rfl⟩
    exact h
  · intro h
    exact ⟨_, h, rfl⟩

theorem rejectUnknownKeys_eq_ok {allowed : List String} :
    rejectUnknownKeys entries allowed code = .ok () ↔ ∀ e ∈ entries, e.1 ∈ allowed := by
  unfold rejectUnknownKeys
  split_ifs with h
  · simpa using h
  · simpa using h

/-- A key outside a closed set is not there. -/
theorem lookup_eq_none_of_closed {allowed : List String} (h : ∀ e ∈ entries, e.1 ∈ allowed) (hkey : key ∉ allowed) :
    entries.lookup key = none := by
  rw [List.lookup_eq_none_iff]
  intro e he
  simp only [bne_iff_ne, ne_eq]
  rintro rfl
  exact hkey (h e he)

end Reads

end IrohRooms.Governance
