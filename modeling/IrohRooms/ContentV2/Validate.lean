import IrohRooms.Event.Codec
import IrohRooms.Governance.CborV2
import IrohRooms.Governance.Fields

/-!
# Kinds of content

The closed registry of content kinds and the strict reader of their maps: each kind asks for its keys and checks the
type, the width and the cap of each, and a key that it did not ask for is refused.
-/

namespace IrohRooms.CborV2.CborValue

def asUint : CborValue → Option UInt64
  | .uint n => some n
  | _ => none

def asBytes : CborValue → Option Bytes
  | .bytes b => some b
  | _ => none

def asText : CborValue → Option String
  | .text s => some s
  | _ => none

def asArray : CborValue → Option (List CborValue)
  | .array items => some items
  | _ => none

def asMap : CborValue → Option (List (String × CborValue))
  | .map entries => some entries
  | _ => none

end IrohRooms.CborV2.CborValue

namespace IrohRooms.ContentV2

open Governance (Reject PrincipalId orReject orReject_eq_ok)

/-! ### Registry -/

inductive ContentKind
  | messageText | messageReaction | messageEdited | fileShared | agentStatus
  | moderationBlock | moderationReport | moderationRemove
  deriving DecidableEq, Repr

namespace ContentKind

def asStr : ContentKind → String
  | messageText => "message.text"
  | messageReaction => "message.reaction"
  | messageEdited => "message.edited"
  | fileShared => "file.shared"
  | agentStatus => "agent.status"
  | moderationBlock => "moderation.block"
  | moderationReport => "moderation.report"
  | moderationRemove => "moderation.remove"

def fromWire : String → Except Reject ContentKind
  | "message.text" => .ok messageText
  | "message.reaction" => .ok messageReaction
  | "message.edited" => .ok messageEdited
  | "file.shared" => .ok fileShared
  | "agent.status" => .ok agentStatus
  | "moderation.block" => .ok moderationBlock
  | "moderation.report" => .ok moderationReport
  | "moderation.remove" => .ok moderationRemove
  | _ => .error .unknownContentKind

theorem asStr_of_fromWire {text : String} {kind : ContentKind} (h : fromWire text = .ok kind) : kind.asStr = text := by
  unfold fromWire at h
  split at h <;> cases h <;> rfl

end ContentKind

/-! ### Strict field reader -/

/-- The entries of a map and the keys that were found in it. -/
structure Fields where
  entries : List (String × CborV2.CborValue)
  seen : List String

abbrev FieldReader := StateT Fields (Except Reject)

/-- Refuse unless the condition holds. -/
def ensure (c : Prop) [Decidable c] : Except Reject Unit := if c then .ok () else .error .invalidContent

namespace Fields

def new (entries : List (String × CborV2.CborValue)) : Fields := ⟨entries, []⟩

def get (key : String) : FieldReader (Option CborV2.CborValue) := fun f =>
  match f.entries.lookup key with
  | some value => .ok (some value, { f with seen := key :: f.seen })
  | none => .ok (none, f)

def require {α : Type} (read : CborV2.CborValue → Option α) (key : String) : FieldReader α := do
  let value ← get key
  orReject .invalidContent (value.bind read)

def requireText : String → FieldReader String := require CborV2.CborValue.asText

def requireUint : String → FieldReader UInt64 := require CborV2.CborValue.asUint

def requireBytes : String → FieldReader Bytes := require CborV2.CborValue.asBytes

/-- A field that may be absent, but is refused if it is there with another type. -/
def opt {α : Type} (read : CborV2.CborValue → Option α) (key : String) : FieldReader (Option α) := do
  match ← get key with
  | some value => (orReject .invalidContent (read value)).map some
  | none => pure none

def optText : String → FieldReader (Option String) := opt CborV2.CborValue.asText

def optUint : String → FieldReader (Option UInt64) := opt CborV2.CborValue.asUint

def optBytes : String → FieldReader (Option Bytes) := opt CborV2.CborValue.asBytes

def optArray : String → FieldReader (Option (List CborV2.CborValue)) := opt CborV2.CborValue.asArray

/-- Every key was asked for. -/
def finish : FieldReader Unit := fun f => (ensure (∀ e ∈ f.entries, e.1 ∈ f.seen)).map fun u => (u, f)

end Fields

open ContentV2.Fields

/-! ### Values -/

def requireFixed (n : Nat) (b : Bytes) : Except Reject Unit := ensure (b.length = n)

def requireTextCap (s : String) (cap : Nat) : Except Reject Unit := do
  ensure (s ≠ "" ∧ s.utf8ByteSize ≤ cap)
  ensure (s.toList.any isControl = false)

def requireEnum (s : String) (allowed : List String) : Except Reject Unit := ensure (s ∈ allowed)

def requireBstrArrayCap (items : List CborV2.CborValue) (cap : Nat) : Except Reject Unit := do
  ensure (items ≠ [] ∧ items.length ≤ cap)
  items.forM fun item => (orReject .invalidContent item.asBytes).map fun _ => ()

/-- Run a check on a field that may be absent. -/
def whenPresent {α : Type} (value : Option α) (check : α → Except Reject Unit) : Except Reject Unit :=
  match value with
  | some a => check a
  | none => .ok ()

/-- An optional array of up to `cap` byte strings of `n` bytes each, not empty. -/
def optFixedArray (n cap : Nat) (key : String) : FieldReader Unit := do
  let value ← optArray key
  whenPresent value fun items => do
    requireBstrArrayCap items cap
    items.forM fun item => do
      let b ← orReject .invalidContent item.asBytes
      requireFixed n b

/-- An optional byte string of `n` bytes. -/
def optFixed (n : Nat) (key : String) : FieldReader Unit := do
  let value ← optBytes key
  whenPresent value (requireFixed n)

def optEnum (key : String) (allowed : List String) : FieldReader Unit := do
  let value ← optText key
  whenPresent value fun s => requireEnum s allowed

/-- A required byte string of `n` bytes. -/
def requireFixedBytes (n : Nat) (key : String) : FieldReader Bytes := do
  let b ← requireBytes key
  requireFixed n b
  return b

def isMimeChar (c : Char) : Bool := c.isAlphanum || c = '.' || c = '-' || c = '_'

/-- A `type/subtype`, where parameters may follow the subtype after a semicolon. -/
def isWellFormedMime (mime : String) : Bool :=
  let chars := mime.toList
  let ty := chars.takeWhile (· ≠ '/')
  let rest := chars.dropWhile (· ≠ '/')
  rest ≠ [] && ty ≠ [] && rest.tail ≠ [] && ty.all isMimeChar &&
    (rest.tail.takeWhile (· ≠ ';')).all fun c => isMimeChar c || c = '+'

/-! ### Validators -/

def maxMessageBodyBytes : Nat := 16384

def validateMessageText : FieldReader Unit := do
  let body ← requireText "body"
  ensure (body.utf8ByteSize ≤ maxMessageBodyBytes)
  optEnum "format" ["plain", "markdown"]
  optFixed 32 "in_reply_to"
  optFixedArray 32 64 "mentions"
  optFixed 16 "thread_id"

def validateMessageReaction : FieldReader Unit := do
  let _ ← requireFixedBytes 32 "target"
  let emoji ← requireText "emoji"
  requireTextCap emoji 64
  optEnum "op" ["add", "remove"]

def validateMessageEdited : FieldReader Unit := do
  let _ ← requireFixedBytes 32 "target"
  let newBody ← requireText "new_body"
  ensure (newBody.utf8ByteSize ≤ maxMessageBodyBytes)
  optEnum "format" ["plain", "markdown"]

def validateFileShared : FieldReader Unit := do
  let _ ← requireFixedBytes 16 "file_id"
  let name ← requireText "name"
  requireTextCap name 255
  let mime ← requireText "mime_type"
  ensure (mime.utf8ByteSize ≤ 255 ∧ isWellFormedMime mime = true)
  let size ← requireUint "size_bytes"
  ensure (size ≤ 104857600)
  let _ ← requireFixedBytes 32 "blob_hash"
  optEnum "blob_format" ["raw", "hash_seq"]
  optFixedArray 32 16 "providers"

def validateAgentStatus : FieldReader Unit := do
  let status ← requireText "status"
  requireTextCap status 64
  let message ← optText "message"
  whenPresent message fun s => ensure (s.utf8ByteSize ≤ 4096)
  optFixedArray 16 16 "related_artifact_ids"
  let pct ← optUint "progress_pct"
  whenPresent pct fun n => ensure (n ≤ 100)

/-- The `stream_id` inside a moderation map, of its own width. -/
def validateStreamScope : FieldReader Unit := optFixed 16 "stream_id"

/-- A block of the room names no stream, and one of a stream does. -/
def checkScopeStreamConsistency (scope : String) : FieldReader Unit := fun f =>
  let hasStreamId := f.entries.any fun e => e.1 = "stream_id"
  (match scope with
    | "room" => ensure (hasStreamId = false)
    | "stream" => ensure (hasStreamId = true)
    | _ => .error .invalidContent).map fun u => (u, f)

def validateEvidenceTriple : FieldReader Unit := do
  let reason ← optText "reason"
  whenPresent reason fun s => ensure (s.utf8ByteSize ≤ 1024)
  optFixedArray 32 16 "evidence_events"
  optFixedArray 32 16 "evidence_blobs"

def validateModerationBlock (authorId : PrincipalId) : FieldReader Unit := do
  validateStreamScope
  let subject ← requireFixedBytes 32 "subject"
  let blockedBy ← requireFixedBytes 32 "blocked_by"
  ensure (blockedBy = authorId.asBytes ∧ subject ≠ authorId.asBytes)
  let scope ← requireText "scope"
  requireEnum scope ["stream", "room"]
  checkScopeStreamConsistency scope
  validateEvidenceTriple
  let _ ← optUint "expires_at"

def validateModerationReport (authorId : PrincipalId) : FieldReader Unit := do
  validateStreamScope
  let _ ← requireFixedBytes 32 "subject"
  optFixed 32 "target_event"
  let category ← requireText "category"
  requireEnum category ["spam", "abuse", "harassment", "malware", "other"]
  let reportedBy ← requireFixedBytes 32 "reported_by"
  ensure (reportedBy = authorId.asBytes)
  validateEvidenceTriple

def validateModerationRemove (authorId : PrincipalId) : FieldReader Unit := do
  validateStreamScope
  let _ ← requireFixedBytes 32 "target_event"
  let removedBy ← requireFixedBytes 32 "removed_by"
  ensure (removedBy = authorId.asBytes)
  validateEvidenceTriple

def validateKind (kind : ContentKind) (authorId : PrincipalId) : FieldReader Unit :=
  match kind with
  | .messageText => validateMessageText
  | .messageReaction => validateMessageReaction
  | .messageEdited => validateMessageEdited
  | .fileShared => validateFileShared
  | .agentStatus => validateAgentStatus
  | .moderationBlock => validateModerationBlock authorId
  | .moderationReport => validateModerationReport authorId
  | .moderationRemove => validateModerationRemove authorId

def validateContent (kind : ContentKind) (content : CborV2.CborValue) (authorId : PrincipalId) :
    Except Reject Unit := do
  let entries ← orReject .invalidContent content.asMap
  let (_, f) ← (validateKind kind authorId).run (.new entries)
  let _ ← Fields.finish.run f

end IrohRooms.ContentV2
