import IrohRooms.Event.Validate

/-!
# Encrypted bodies

A `content.encrypted` event seals one of the five content bodies under the room key of an epoch. Its verdict is
computed from cleartext alone; a body that does not open, parse or obey the field rules is unreadable, never
invalid. `Sealing` collects what opening rests on: the AEAD and key-wrapping primitives, and the byte codec of the
associated data and of a body.
-/

namespace IrohRooms

/-- A 32-byte symmetric room key. -/
abbrev RoomKey := BitVec 256

inductive CryptoError
  | unsupportedSuite (suite : UInt8) | authentication
  deriving DecidableEq, Repr

/-- Why an encrypted body could not be surfaced. -/
inductive UnreadableReason
  | notEncrypted | unsupportedSuite | aeadFailure | malformedPlaintext | innerInvalid
  | noEpochKey (epoch : Nat)
  | epochConflicted (epoch : Nat)
  deriving DecidableEq, Repr

/-- The primitives: the AEAD, room-key wrapping and commitment, and the byte codec. Parsing is keyed to the inner
type, so a parsed body has it. -/
structure Sealing where
  openContent : UInt8 → RoomKey → BitVec 96 → Bytes → Bytes → Except CryptoError Bytes
  unwrapRoomKey : WrappedKeyEntry → BitVec 256 → RoomId → Nat → Option RoomKey
  roomKeyCommitment : RoomKey → RoomId → Nat → BitVec 256
  aadFor : SignedEvent → Bytes
  parseBody : EventType → Bytes → Except UnreadableReason Content
  parseBody_type : ∀ {ty bytes content}, parseBody ty bytes = .ok content → content.eventType = ty

variable (sealing : Sealing)

/-- Open an event's body with the key of its epoch, parse it and check the sender-bound fields. -/
def openEncryptedContent (event : SignedEvent) (roomKey : RoomKey) : Except UnreadableReason Content :=
  match event.content with
  | .encrypted c =>
    match sealing.openContent c.suite roomKey c.nonce c.ciphertext (sealing.aadFor event) with
    | .error (.unsupportedSuite _) => .error .unsupportedSuite
    | .error .authentication => .error .aeadFailure
    | .ok plaintext =>
      match sealing.parseBody c.innerType plaintext with
      | .error reason => .error reason
      | .ok inner =>
        match checkFieldRules inner event.senderId with
        | .error _ => .error .innerInvalid
        | .ok () => .ok inner
  | _ => .error .notEncrypted

variable {sealing}

/-- A body is surfaced if it opens, parses and obeys the field rules. -/
theorem openEncryptedContent_eq_ok {event : SignedEvent} {roomKey : RoomKey} {inner : Content} :
    openEncryptedContent sealing event roomKey = .ok inner ↔ ∃ c plaintext, event.content = .encrypted c ∧
      sealing.openContent c.suite roomKey c.nonce c.ciphertext (sealing.aadFor event) = .ok plaintext ∧
      sealing.parseBody c.innerType plaintext = .ok inner ∧ checkFieldRules inner event.senderId = .ok () := by
  unfold openEncryptedContent
  constructor
  · intro h
    split at h
    · rename_i c hc
      split at h
      · cases h
      · cases h
      · rename_i plaintext hopen
        split at h
        · cases h
        · rename_i body hparse
          split at h
          · cases h
          · rename_i hrules
            cases h
            exact ⟨c, plaintext, hc, hopen, hparse, hrules⟩
    · cases h
  · intro ⟨c, plaintext, hc, hopen, hparse, hrules⟩
    rw [hc]
    dsimp only
    rw [hopen]
    dsimp only
    rw [hparse]
    dsimp only
    rw [hrules]

/-- An opened body has the announced type and obeys the field rules of the envelope's sender. -/
theorem openEncryptedContent_ok {event : SignedEvent} {roomKey : RoomKey} {inner : Content}
    (h : openEncryptedContent sealing event roomKey = .ok inner) :
    (∃ c, event.content = .encrypted c ∧ inner.eventType = c.innerType) ∧
      checkFieldRules inner event.senderId = .ok () := by
  obtain ⟨c, plaintext, hc, -, hparse, hrules⟩ := openEncryptedContent_eq_ok.mp h
  exact ⟨⟨c, hc, sealing.parseBody_type hparse⟩, hrules⟩

end IrohRooms
