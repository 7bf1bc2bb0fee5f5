import IrohRooms.Membership.Fold

/-!
# The causal graph

`RoomMembership` ingests validated events in any order. An event stays Pending until every parent is classified;
classifying an event wakes its children through the reverse edges, depth first. Loops of the source carry fuel:
`cascade` gets one unit per pop, and no run pops more often than once per reverse edge plus once for the new
event; `structuralSearch` pops each known event's parents at most once.
-/

namespace IrohRooms

/-- The verdict of an event, Pending while a parent is missing or pending. -/
inductive Verdict
  | pending
  | accepted (flags : List Flag)
  | rejected (reason : RejectReason)
  deriving DecidableEq, Repr

variable {env : Env} {room : RoomId}

structure Node (env : Env) (room : RoomId) where
  event : ValidatedEvent env room
  verdict : Verdict
  membershipAncestors : OrdSet EventId

namespace Node

def isAccepted (n : Node env room) : Bool :=
  match n.verdict with
  | .accepted _ => true
  | _ => false

def isPending (n : Node env room) : Bool := n.verdict == .pending

def entry (id : EventId) (n : Node env room) : Entry :=
  ⟨id, n.event.event, n.isAccepted, n.membershipAncestors⟩

end Node

/-- The fold engine's state: nodes, reverse edges, per-author heads, projection generation. -/
structure RoomMembership (env : Env) (room : RoomId) where
  nodes : OrdMap EventId (Node env room)
  children : OrdMap EventId (List EventId)
  senderHeads : OrdMap IdentityKey (OrdSet EventId)
  membershipProjectionGeneration : Nat

/-- What `ingest` reports. -/
inductive Ingest
  | accepted (eventId : EventId) (flags : List Flag)
  | rejected (eventId : EventId) (reason : RejectReason)
  | buffered (eventId : EventId) (missing : List EventId)
  deriving DecidableEq, Repr

namespace RoomMembership

def new : RoomMembership env room := ⟨.empty, .empty, .empty, 0⟩

variable (m : RoomMembership env room)

def entryOf (id : EventId) : Option Entry := (m.nodes.get? id).map (Node.entry id)

/-- The entries of a set of ids, ascending, unknown ids skipped. -/
def resolve (ids : OrdSet EventId) : List Entry := ids.toList.filterMap m.entryOf

/-- All entries, ascending by id. -/
def entries : List Entry := m.nodes.entries.map fun e => e.2.entry e.1

def isClassified (id : EventId) : Bool :=
  match m.nodes.get? id with
  | some n => !n.isPending
  | none => false

def isAccepted (id : EventId) : Bool :=
  match m.nodes.get? id with
  | some n => n.isAccepted
  | none => false

def prevOf (id : EventId) : List EventId :=
  match m.nodes.get? id with
  | some n => n.event.event.prevEvents
  | none => []

/-- What one parent hands down: its own membership ancestors, and itself if it affects membership. -/
def memoStep (look : EventId → Option Entry) (acc : OrdSet EventId) (parent : EventId) : OrdSet EventId :=
  match look parent with
  | some e => (if affectsMembership e.event.content then acc.add parent else acc).extend
      e.membershipAncestors.toList
  | none => acc

def parentMemo (look : EventId → Option Entry) (parents : List EventId) : OrdSet EventId :=
  parents.foldl (memoStep look) OrdMap.empty

/-! ### Equivocation -/

def structuralSearch (ancestor : EventId) : Nat → List EventId → OrdSet EventId → Bool
  | 0, _, _ => false
  | _ + 1, [], _ => false
  | fuel + 1, current :: stack, seen =>
    if current ∈ seen then structuralSearch ancestor fuel stack seen
    else if current = ancestor then true
    else structuralSearch ancestor fuel ((m.prevOf current).reverse ++ stack) (seen.add current)

/-- Whether `ancestor` is reached from `descendant` through parents. -/
def isStructuralAncestor (ancestor descendant : EventId) : Bool :=
  m.structuralSearch ancestor
    (1 + (m.prevOf descendant).length + (m.nodes.values.map fun n => n.event.event.prevEvents.length).sum)
    (m.prevOf descendant).reverse OrdMap.empty

def isEquivocation (id : EventId) (sender : IdentityKey) : Bool :=
  match m.senderHeads.get? sender with
  | some heads => heads.toList.any fun head => !m.isStructuralAncestor head id
  | none => false

def recordSenderHead (id : EventId) : RoomMembership env room :=
  match m.nodes.get? id with
  | none => m
  | some n =>
    let sender := n.event.event.senderId
    let existing : OrdSet EventId := (m.senderHeads.get? sender).getD OrdMap.empty
    let retained := OrdSet.ofList (existing.toList.filter fun head => !m.isStructuralAncestor head id)
    { m with senderHeads := m.senderHeads.insert sender (retained.add id) }

/-! ### Classification -/

/-- The verdict of the gate, with the advisory flags of an accepted event. -/
def gateVerdict (id : EventId) (membershipAncestors : OrdSet EventId) : Verdict :=
  match m.nodes.get? id with
  | none => .rejected .notAMember
  | some n =>
    let event := n.event.event
    let flags := if m.isEquivocation id event.senderId && !n.event.flags.contains .equivocation
      then n.event.flags ++ [.equivocation] else n.event.flags
    match gate env room event (m.resolve membershipAncestors) with
    | .ok () => .accepted flags
    | .error reason => .rejected reason

def setNode (id : EventId) (n : Node env room) : RoomMembership env room :=
  { m with nodes := m.nodes.insert id n }

def bumpGeneration : RoomMembership env room :=
  { m with membershipProjectionGeneration := min (m.membershipProjectionGeneration + 1) u64Max }

/-- Move a pending event whose parents are all classified to its verdict; `none` when it did not transition. -/
def tryClassify (id : EventId) : Option (RoomMembership env room) :=
  match m.nodes.get? id with
  | none => none
  | some n =>
    if !n.isPending then none
    else if n.event.event.prevEvents.any fun parent => !m.isClassified parent then none
    else
      let memo := parentMemo m.entryOf n.event.event.prevEvents
      let memoised := m.setNode id { n with membershipAncestors := memo }
      let verdict := memoised.gateVerdict id memo
      let classified := memoised.setNode id ⟨n.event, verdict, memo⟩
      match verdict with
      | .accepted _ =>
        let recorded := classified.recordSenderHead id
        some (if affectsMembership n.event.event.content then recorded.bumpGeneration else recorded)
      | _ => some classified

/-- Classify from the top of the stack, pushing the children of every event that transitions. -/
def cascade : Nat → RoomMembership env room → List EventId → RoomMembership env room
  | 0, m, _ => m
  | _ + 1, m, [] => m
  | fuel + 1, m, current :: work =>
    match m.tryClassify current with
    | some m' => cascade fuel m' (((m'.children.get? current).getD []).reverse ++ work)
    | none => cascade fuel m work

def addChild (children : OrdMap EventId (List EventId)) (id parent : EventId) : OrdMap EventId (List EventId) :=
  children.insert parent ((children.get? parent).getD [] ++ [id])

/-- The state with a new pending node and its reverse edges. -/
def track (v : ValidatedEvent env room) : RoomMembership env room :=
  { m with
    children := v.event.prevEvents.foldl (fun ch parent => addChild ch v.eventId parent) m.children
    nodes := m.nodes.insert v.eventId ⟨v, .pending, OrdMap.empty⟩ }

/-- One unit per reverse edge and one for the event itself. -/
def cascadeFuel : Nat := 1 + (m.children.values.map List.length).sum

/-- Ingest one validated event; a known id changes nothing. -/
def ingest (v : ValidatedEvent env room) : RoomMembership env room :=
  if m.nodes.contains v.eventId then m
  else cascade (m.track v).cascadeFuel (m.track v) [v.eventId]

def fromEvents (events : List (ValidatedEvent env room)) : RoomMembership env room := events.foldl ingest new

/-! ### Reads -/

def blockers (n : Node env room) : List EventId :=
  n.event.event.prevEvents.filter fun parent => !m.isClassified parent

/-- The outcome to report for an event. -/
def outcome (id : EventId) : Ingest :=
  match m.nodes.get? id with
  | none => .buffered id []
  | some n =>
    match n.verdict with
    | .accepted flags => .accepted id flags
    | .rejected reason => .rejected id reason
    | .pending => .buffered id (m.blockers n)

/-- The fold over every accepted event held. -/
def snapshot : MembershipSnapshot := fold env room (m.entries.filter Entry.accepted)

/-- The fold over an event's accepted membership ancestors. -/
def ancestorView (id : EventId) : Option MembershipSnapshot :=
  (m.nodes.get? id).map fun n => ancestorFold env room (m.resolve n.membershipAncestors)

/-- The effect of an admin write: the invited role, or `none` for a removal. -/
def adminEffect : Content → Option (Option Role)
  | .memberInvited c => some (some c.role)
  | .memberRemoved _ => some none
  | _ => none

/-- The accepted invites and removals of `admin`, grouped by subject. -/
def adminWrites (admin : IdentityKey) : OrdMap IdentityKey (List Entry) :=
  (m.entries.filter fun e => e.accepted && e.event.senderId == admin
      && (adminEffect e.event.content).isSome).foldl (fun groups e => match touched e.event with
    | some subject => groups.insert subject ((groups.get? subject).getD [] ++ [e])
    | none => groups) OrdMap.empty

/-- Concurrent admin writes on one subject with different effects. -/
def adminDivergence (admin : IdentityKey) : Option (List EventId) :=
  (m.adminWrites admin).entries.findSome? fun group =>
    let heads := causalHeads group.2
    if heads.length < 2 then none
    else if 2 ≤ (heads.filterMap fun e => adminEffect e.event.content).dedup.length
    then some (heads.map Entry.id) else none

end RoomMembership

end IrohRooms
