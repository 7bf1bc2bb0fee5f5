import IrohRooms.Event.Content

/-!
# Validated events

`SignedEvent` is the decoded eight-field event. `checkDecoded` runs the stateless checks of
`validate_wire_bytes` on it in source order: field rules, room binding, embedded device bindings, causal
shape. `ValidatedEvent` carries their success, so the membership fold can not be fed an unchecked event.
-/

namespace IrohRooms

/-- The logical signed event. -/
structure SignedEvent where
  schemaVersion : Nat
  roomId : RoomId
  senderId : IdentityKey
  deviceId : DeviceKey
  eventType : EventType
  createdAt : Nat
  prevEvents : List EventId
  content : Content
  deriving DecidableEq, Repr

def schemaVersion : Nat := 1

def maxPrevEvents : Nat := 20

def clockSkewFutureMs : Nat := 300000

/-- The largest `u64`. -/
def u64Max : Nat := 2 ^ 64 - 1

structure ValidationContext where
  expectedRoom : RoomId
  nowMs : Option Nat

/-- Step 6: every event names the expected room, and a genesis derives it. -/
def checkRoom (env : Env) (expectedRoom : RoomId) (event : SignedEvent) : Except RejectReason Unit :=
  match event.content with
  | .roomCreated c =>
    if env.deriveRoomId event.senderId c.roomNonce event.createdAt ≠ event.roomId ∨ event.roomId ≠ expectedRoom
    then .error .roomIdMismatch else .ok ()
  | _ => if event.roomId ≠ expectedRoom then .error .roomIdMismatch else .ok ()

/-- Step 9: the parent count, and that exactly a genesis has no parent. -/
def checkCausal (event : SignedEvent) : Except RejectReason Unit :=
  if event.prevEvents.length > maxPrevEvents then .error .tooManyParents
  else match event.content with
    | .roomCreated _ => if event.prevEvents ≠ [] then .error .notGenesisDescended else .ok ()
    | _ => if event.prevEvents = [] then .error .notGenesisDescended else .ok ()

/-- The stateless checks on a decoded event, in source order. -/
def checkDecoded (env : Env) (expectedRoom : RoomId) (event : SignedEvent) : Except RejectReason Unit := do
  checkFieldRules event.content event.senderId
  checkRoom env expectedRoom event
  verifyBindings env event.content event.senderId event.deviceId event.roomId
  checkCausal event

/-- The advisory clock-skew flag. -/
def skewFlags (nowMs : Option Nat) (createdAt : Nat) : List Flag :=
  match nowMs with
  | some now => if createdAt > min (now + clockSkewFutureMs) u64Max then [.clockSkew] else []
  | none => []

/-- A signed event that passed the stateless checks for `room`. -/
structure ValidatedEvent (env : Env) (room : RoomId) where
  eventId : EventId
  event : SignedEvent
  flags : List Flag
  schema : event.schemaVersion = schemaVersion
  typed : event.content.eventType = event.eventType
  checked : checkDecoded env room event = .ok ()

/-- Validation of an event decoded from bytes with the given hash. -/
def validate (env : Env) (ctx : ValidationContext) (eventId : EventId) (event : SignedEvent) :
    Except RejectReason (ValidatedEvent env ctx.expectedRoom) :=
  if hschema : event.schemaVersion = schemaVersion then
    if htyped : event.content.eventType = event.eventType then
      match hchecked : checkDecoded env ctx.expectedRoom event with
      | .error reason => .error reason
      | .ok () => .ok ⟨eventId, event, skewFlags ctx.nowMs event.createdAt, hschema, htyped, hchecked⟩
    else .error .invalidContent
  else .error .unknownSchemaVersion

/-! ### What the checks guarantee -/

theorem checkDecoded_ok {env : Env} {room : RoomId} {event : SignedEvent}
    (h : checkDecoded env room event = .ok ()) :
    checkFieldRules event.content event.senderId = .ok () ∧ checkRoom env room event = .ok () ∧
      verifyBindings env event.content event.senderId event.deviceId event.roomId = .ok () ∧
      checkCausal event = .ok () := by
  unfold checkDecoded at h
  cases h₁ : checkFieldRules event.content event.senderId with
  | error r => rw [h₁] at h; cases h
  | ok u =>
    rw [h₁] at h
    cases h₂ : checkRoom env room event with
    | error r => rw [h₂] at h; cases h
    | ok u =>
      rw [h₂] at h
      cases h₃ : verifyBindings env event.content event.senderId event.deviceId event.roomId with
      | error r => rw [h₃] at h; cases h
      | ok u =>
        rw [h₃] at h
        exact ⟨rfl, rfl, rfl, h⟩

theorem validate_ok {env : Env} {ctx : ValidationContext} {eventId : EventId} {event : SignedEvent}
    {v : ValidatedEvent env ctx.expectedRoom} (h : validate env ctx eventId event = .ok v) :
    v.eventId = eventId ∧ v.event = event := by
  unfold validate at h
  split_ifs at h
  split at h
  · cases h
  · cases h
    exact ⟨rfl, rfl⟩

namespace ValidatedEvent

variable {env : Env} {room : RoomId} (v : ValidatedEvent env room)

theorem fieldRules : checkFieldRules v.event.content v.event.senderId = .ok () := (checkDecoded_ok v.checked).1

theorem bindings : verifyBindings env v.event.content v.event.senderId v.event.deviceId v.event.roomId = .ok () :=
  (checkDecoded_ok v.checked).2.2.1

theorem roomId_eq : v.event.roomId = room := by
  have h := (checkDecoded_ok v.checked).2.1
  unfold checkRoom at h
  split at h
  · split at h
    · cases h
    · rename_i hne
      exact not_not.mp (not_or.mp hne).2
  · split at h
    · cases h
    · rename_i hne
      exact not_not.mp hne

end ValidatedEvent

end IrohRooms
