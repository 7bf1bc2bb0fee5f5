import Mathlib.Data.Prod.Lex
import IrohRooms.Lib.OrdMap
import IrohRooms.Lib.Worklist
import IrohRooms.Event.Validate

/-!
# The event store

The `events` table of one room: each row holds a validated event under its id and two derived columns, `lamport`
and `admin_seq`, that are `NULL` until the row's ancestors are there. `insertInTx` adds a row with empty columns
and lets `propagateFrom` recompute it and, whenever a value changed, its stored children. The `event_parents` rows
are exactly the parent lists of the stored events, so they are read off them. A write may fail: `writes` is the
schedule of the outcomes of the coming write transactions, and a failed transaction changes no row.
-/

namespace IrohRooms

variable {env : Env} {room : RoomId}

/-- A row of the `events` table. -/
structure Row (env : Env) (room : RoomId) where
  event : ValidatedEvent env room
  lamport : Option Nat
  adminSeq : Option Nat

def Row.isGenesis (row : Row env room) : Bool := row.event.event.eventType == .roomCreated

/-- The rows by event id, and whether each coming write transaction succeeds (all do once the list is used up). -/
structure EventStore (env : Env) (room : RoomId) where
  rows : OrdMap EventId (Row env room)
  writes : List Bool
  keyed : ∀ id row, rows.get? id = some row → row.event.eventId = id

inductive InsertOutcome
  | inserted | duplicate
  deriving DecidableEq, Repr

/-- The canonical order `lamport IS NULL, lamport, event_id`. -/
abbrev OrderKey := Bool ×ₗ Nat ×ₗ EventId

/-- A row's place in the canonical order. -/
def Row.key (row : Row env room) : OrderKey :=
  toLex (row.lamport.isNone, toLex (row.lamport.getD 0, row.event.eventId))

namespace EventStore

/-- An empty table with the given write schedule. -/
def openEmpty (writes : List Bool) : EventStore env room := ⟨.empty, writes, fun _ _ h => nomatch h⟩

variable (s : EventStore env room)

def contains (id : EventId) : Bool := s.rows.contains id

def event? (id : EventId) : Option (ValidatedEvent env room) := (s.rows.get? id).map Row.event

/-! ### Derived columns -/

/-- The admin identity: the sender of the stored genesis with the lowest id. -/
def adminOfRoom : Option IdentityKey :=
  (s.rows.values.find? Row.isGenesis).map fun row => row.event.event.senderId

def lamportOf (id : EventId) : Option Nat := (s.rows.get? id).bind Row.lamport

def adminSeqOf (id : EventId) : Option Nat := (s.rows.get? id).bind Row.adminSeq

/-- The stored rows that cite `id`, one for each citation, ascending. -/
def childrenOf (id : EventId) : List EventId :=
  s.rows.entries.flatMap fun e => (e.2.event.event.prevEvents.filter (· == id)).map fun _ => e.1

/-- One parent's part in `1 + max`: the running maximum plus one, `none` once a parent's lamport is unknown. -/
def lamportStep (lamportOf : EventId → Option Nat) (acc : Option Nat) (parent : EventId) : Option Nat :=
  acc.bind fun next => (lamportOf parent).map fun l => max next (l + 1)

/-- `lamport`: zero at the genesis, else `1 + max` of the parents' iff all are known. -/
def computeLamport (lamportOf : EventId → Option Nat) (isGenesis : Bool) (parents : List EventId) : Option Nat :=
  if parents = [] then (if isGenesis then some 0 else none)
  else parents.foldl (lamportStep lamportOf) (some 0)

/-- The running maximum of the defined values. -/
def adminStep (adminSeqOf : EventId → Option Nat) (acc : Option Nat) (parent : EventId) : Option Nat :=
  match adminSeqOf parent with
  | some a => some (match acc with
    | some m => max m a
    | none => a)
  | none => acc

/-- `admin_seq`: only for admin-authored events; zero at the genesis, else `1 + max` of the parents' defined ones. -/
def computeAdmin (admin : Option IdentityKey) (adminSeqOf : EventId → Option Nat) (sender : IdentityKey)
    (isGenesis : Bool) (parents : List EventId) : Option Nat :=
  if admin = some sender then
    if isGenesis then some 0 else (parents.foldl (adminStep adminSeqOf) none).map (· + 1)
  else none

/-- The columns the equations give a row in the present table. -/
def computed (row : Row env room) : Option Nat × Option Nat :=
  let event := row.event.event
  (computeLamport s.lamportOf row.isGenesis event.prevEvents,
    computeAdmin s.adminOfRoom s.adminSeqOf event.senderId row.isGenesis event.prevEvents)

/-- Write a row under its own event's id. -/
def setRow (row : Row env room) : EventStore env room :=
  { s with
    rows := s.rows.insert row.event.eventId row
    keyed := by
      intro id row' h
      rw [OrdMap.get?_insert] at h
      split_ifs at h with hid
      · rw [Option.some.injEq] at h
        rw [← h, hid]
      · exact s.keyed id row' h }

/-- Recompute one row; `none` when there is no such row or nothing changed. -/
def recomputeOne (id : EventId) : Option (EventStore env room) :=
  match s.rows.get? id with
  | none => none
  | some row =>
    let new := s.computed row
    if new = (row.lamport, row.adminSeq) then none else some (s.setRow ⟨row.event, new.1, new.2⟩)

/-- The number of stored citations, a bound on the children of any row. -/
def edgeCount : Nat := (s.rows.values.map fun row => row.event.event.prevEvents.length).sum

/-- Enough pops for any acyclic table (`Columns`). -/
def propagateFuel : Nat := (s.edgeCount + 1) ^ s.rows.entries.length + 1

def propagateFrom (start : EventId) : EventStore env room :=
  Worklist.run recomputeOne s.childrenOf s.propagateFuel s [start]

/-! ### Writes -/

/-- Insert one event within an open transaction. -/
def insertInTx (v : ValidatedEvent env room) : EventStore env room × InsertOutcome :=
  if s.contains v.eventId then (s, .duplicate)
  else ((s.setRow ⟨v, none, none⟩).propagateFrom v.eventId, .inserted)

/-- Whether the next write transaction succeeds. -/
def beginWrite : EventStore env room × Bool :=
  match s.writes with
  | [] => (s, true)
  | ok :: rest => ({ s with writes := rest }, ok)

def insertAllInTx : EventStore env room → List (ValidatedEvent env room) → EventStore env room × List InsertOutcome
  | s, [] => (s, [])
  | s, v :: vs =>
    let r := s.insertInTx v
    let rs := insertAllInTx r.1 vs
    (rs.1, r.2 :: rs.2)

/-- Persist many events in one transaction; `none` when it failed. -/
def insertAllOutcomes (vs : List (ValidatedEvent env room)) : EventStore env room × Option (List InsertOutcome) :=
  let tx := s.beginWrite
  if tx.2 then
    let r := insertAllInTx tx.1 vs
    (r.1, some r.2)
  else (tx.1, none)

def insert (v : ValidatedEvent env room) : EventStore env room × Option InsertOutcome :=
  let tx := s.beginWrite
  if tx.2 then
    let r := tx.1.insertInTx v
    (r.1, some r.2)
  else (tx.1, none)

/-! ### Queries -/

/-- The rows of a type in canonical order. -/
def byType (ty : EventType) : List (Row env room) :=
  (s.rows.values.filter fun row => row.event.event.eventType == ty).insertionSort fun a b => a.key ≤ b.key

/-- The causally placed rows in canonical order. -/
def roomTail : List (Row env room) :=
  (s.rows.values.filter fun row => row.lamport.isSome).insertionSort fun a b => a.key ≤ b.key

/-- The better of the current tip and a row: the higher `admin_seq`, at equal ones the row seen first. -/
def tipStep (tip : Option (EventId × Nat)) (e : EventId × Row env room) : Option (EventId × Nat) :=
  match e.2.adminSeq with
  | none => tip
  | some seq =>
    match tip with
    | some t => if seq > t.2 then some (e.1, seq) else some t
    | none => some (e.1, seq)

/-- The row with the highest `admin_seq`, ties to the lowest id. -/
def adminChainTip : Option (EventId × Nat) := s.rows.entries.foldl tipStep none

end EventStore

end IrohRooms
