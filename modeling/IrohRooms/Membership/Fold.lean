import IrohRooms.Membership.Model
import Mathlib.Data.Prod.Lex

/-!
# The deterministic fold and the authorization gate

Both are functions of a list of *entries*: events of the causal graph as the fold sees them, resolved from
their ids with unknown ids skipped. `fold` reduces the accepted entries in scope to a snapshot, per subject over
the causal heads of the events that touch it. `gate` judges one event against the entries of its membership
ancestors alone, which is what makes a verdict independent of everything that arrives elsewhere.
-/

namespace IrohRooms

/-- One event of the causal graph: its verdict's acceptance and its memoised membership ancestors. -/
structure Entry where
  id : EventId
  event : SignedEvent
  accepted : Bool
  membershipAncestors : OrdSet EventId
  deriving DecidableEq

/-- The events that take part in the membership fold. -/
def affectsMembership : Content → Bool
  | .roomCreated _ | .memberInvited _ | .memberJoined _ | .memberLeft _ | .memberRemoved _ => true
  | _ => false

/-- The subject whose membership an event touches. -/
def touched (event : SignedEvent) : Option IdentityKey :=
  match event.content with
  | .memberInvited c => some c.inviteeKey
  | .memberJoined _ => some event.senderId
  | .memberLeft c => some c.memberId
  | .memberRemoved c => some c.memberId
  | _ => none

def isJoin (event : SignedEvent) : Bool := event.content.eventType == .memberJoined

/-! ### Resolving one subject -/

def touchEvents (scope : List Entry) (subject : IdentityKey) : List Entry :=
  scope.filter fun e => touched e.event == some subject

/-- `ancestor` is a strict membership ancestor of the entry. -/
def isAncestor (ancestor : EventId) (descendant : Entry) : Bool := decide (ancestor ∈ descendant.membershipAncestors)

/-- The entries with no other entry of the list among their descendants. -/
def causalHeads (touch : List Entry) : List Entry :=
  touch.filter fun head => !touch.any fun other => other.id != head.id && isAncestor head.id other

/-- What a head contributes to its subject's status. -/
def statusContribution : Content → Option Status
  | .memberRemoved _ | .memberLeft _ => some .removed
  | .memberJoined _ => some .active
  | .memberInvited _ => some .invited
  | _ => none

def mergeStatus (status : Status) (head : Entry) : Status :=
  match statusContribution head.event.content with
  | some contribution => max status contribution
  | none => status

def statusFromHeads (heads : List Entry) : Status := heads.foldl mergeStatus .invited

def carriedRole : Content → Option Role
  | .memberInvited c => some c.role
  | .memberJoined c => some c.role
  | _ => none

/-- The least role among the role-carrying entries, ties broken by the lowest id. -/
def leastPrivilegeRole (entries : List Entry) : Option Role :=
  (entries.filterMap fun e => (carriedRole e.event.content).map fun r => toLex (r, e.id)).min?.map
    fun p => (ofLex p).1

def resolveRole (touch heads : List Entry) : Role :=
  ((leastPrivilegeRole heads).orElse fun _ => leastPrivilegeRole touch).getD .member

/-- The device of the join with the lowest id. -/
def lowestJoinDevice (entries : List Entry) : Option DeviceKey :=
  let joins := entries.filter fun e => isJoin e.event
  (joins.map Entry.id).min?.bind fun id => (joins.find? fun e => e.id == id).map fun e => e.event.deviceId

def resolveDevice (touch heads : List Entry) : Option DeviceKey :=
  (lowestJoinDevice heads).orElse fun _ => lowestJoinDevice touch

def activationEvent (touch heads : List Entry) : Option EventId :=
  (((heads ++ touch).filter fun e => isJoin e.event).map Entry.id).min?

/-! ### The fold -/

/-- The accumulator of the fold over subjects. -/
structure FoldState where
  members : OrdMap IdentityKey Member
  byDevice : OrdMap DeviceKey IdentityKey
  activeRanks : OrdMap IdentityKey EventId

def seedAdmin (genesis : Option SignedEvent) : FoldState :=
  match genesis with
  | none => ⟨.empty, .empty, .empty⟩
  | some g => ⟨OrdMap.empty.insert g.senderId ⟨g.senderId, some g.deviceId, .active, .admin⟩,
      OrdMap.empty.insert g.deviceId g.senderId, .empty⟩

/-- The member record of a touched subject, before the cap. -/
def resolveMember (scope : List Entry) (subject : IdentityKey) : Member :=
  let touch := touchEvents scope subject
  let heads := causalHeads touch
  ⟨subject, resolveDevice touch heads, statusFromHeads heads, resolveRole touch heads⟩

def foldSubject (scope : List Entry) (st : FoldState) (subject : IdentityKey) : FoldState :=
  let touch := touchEvents scope subject
  if touch = [] then st else
    let member := resolveMember scope subject
    { members := st.members.insert subject member
      byDevice := match member.device with
        | some d => st.byDevice.insert d subject
        | none => st.byDevice
      activeRanks := if member.status = .active then match activationEvent touch (causalHeads touch) with
          | some rank => st.activeRanks.insert subject rank
          | none => st.activeRanks
        else st.activeRanks }

/-- The identities that keep a slot: the admin, and the lowest-ranked of the others. -/
def admittedMembers (env : Env) (admin : Option IdentityKey) (activeRanks : OrdMap IdentityKey EventId) :
    List IdentityKey :=
  let slots := env.maxActiveMembers - (if admin.isSome then 1 else 0)
  let ranked : OrdSet (EventId ×ₗ IdentityKey) := OrdSet.ofList (activeRanks.entries.map fun e => toLex (e.2, e.1))
  (ranked.toList.take slots).map (fun p => (ofLex p).2) ++ admin.toList

/-- An Active member without a slot falls back to Invited. -/
def demote (admitted : List IdentityKey) (m : Member) : Member :=
  if m.status = .active ∧ m.identity ∉ admitted then { m with status := .invited } else m

def capActiveMembers (env : Env) (admin : Option IdentityKey) (members : OrdMap IdentityKey Member)
    (activeRanks : OrdMap IdentityKey EventId) : OrdMap IdentityKey Member :=
  members.mapValues (demote (admittedMembers env admin activeRanks))

def findGenesis (scope : List Entry) : Option SignedEvent :=
  (scope.find? fun e => e.event.content.eventType == .roomCreated).map Entry.event

/-- The touched subjects other than the admin, ascending. -/
def subjects (scope : List Entry) (admin : Option IdentityKey) : List IdentityKey :=
  (OrdSet.ofList (scope.filterMap fun e => touched e.event)).toList.filter fun s => admin != some s

/-- Fold a scope of accepted entries into a snapshot. -/
def fold (env : Env) (room : RoomId) (scope : List Entry) : MembershipSnapshot :=
  let genesis := findGenesis scope
  let admin := genesis.map SignedEvent.senderId
  let st := (subjects scope admin).foldl (foldSubject scope) (seedAdmin genesis)
  ⟨room, admin, capActiveMembers env admin st.members st.activeRanks, st.byDevice⟩

/-! ### The gate -/

def acceptedAncestors (ancestors : List Entry) : List Entry := ancestors.filter Entry.accepted

def gateAdminAction (event : SignedEvent) (view : MembershipSnapshot) : Except RejectReason Unit :=
  if view.admin = some event.senderId then .ok () else .error .insufficientRole

def gateActiveMember (event : SignedEvent) (view : MembershipSnapshot) : Except RejectReason Unit :=
  if view.isActive event.senderId then .ok () else .error .notAMember

/-- Device binding from membership state; a sender without a bound device passes. -/
def gateDeviceBinding (event : SignedEvent) (view : MembershipSnapshot) : Except RejectReason Unit :=
  if !event.eventType.requiresMembershipDeviceBinding then .ok ()
  else match view.boundDevice event.senderId with
    | some bound => if bound = event.deviceId then .ok () else .error .unboundDevice
    | none => .ok ()

/-- Whether an ancestor is an accepted departure of the subject. -/
def isDepartureOf (subject : IdentityKey) (e : Entry) : Bool :=
  e.accepted && match e.event.content with
    | .memberRemoved c => c.memberId == subject
    | .memberLeft c => c.memberId == subject
    | _ => false

/-- A departure of the subject in scope descends from the invite. -/
def departureConsumes (subject : IdentityKey) (inviteId : EventId) (ancestors : List Entry) : Bool :=
  ancestors.any fun e => isDepartureOf subject e && isAncestor inviteId e

/-- An accepted invite of the admin that names the joiner and whose capability hash matches the secret. -/
def namingInvite (env : Env) (room : RoomId) (admin : IdentityKey) (event : SignedEvent) (content : MemberJoined)
    (e : Entry) : Option MemberInvited :=
  if e.accepted then match e.event.content with
    | .memberInvited invite =>
      if invite.inviteId ≠ content.viaInviteId ∨ invite.inviteeKey ≠ event.senderId ∨ e.event.senderId ≠ admin
      then none
      else if env.capabilityHash room content.viaInviteId content.capabilitySecret ≠ invite.capabilityHash
      then none
      else some invite
    | _ => none
  else none

/-- The signed expiry lies before the join's own time. -/
def inviteExpired (invite : MemberInvited) (createdAt : Nat) : Bool :=
  match invite.expiresAt with
  | some expiry => decide (createdAt > expiry)
  | none => false

/-- The scan over the ancestors: the first expired or role-mismatched candidate ends it. -/
def scanInvites (env : Env) (room : RoomId) (admin : IdentityKey) (event : SignedEvent) (content : MemberJoined) :
    List Entry → Option EventId → Except RejectReason (Option EventId)
  | [], matched => .ok matched
  | e :: rest, matched =>
    match namingInvite env room admin event content e with
    | none => scanInvites env room admin event content rest matched
    | some invite =>
      if inviteExpired invite event.createdAt then .error .expiredInvite
      else if content.role ≠ invite.role then .error .insufficientRole
      else scanInvites env room admin event content rest <| some <| match matched with
        | some existing => if existing ≤ e.id then existing else e.id
        | none => e.id

/-- The key-bound join gate. -/
def gateJoin (env : Env) (room : RoomId) (event : SignedEvent) (content : MemberJoined) (ancestors : List Entry)
    (view : MembershipSnapshot) : Except RejectReason Unit :=
  match view.admin with
  | none => .error .badCapability
  | some admin =>
    match scanInvites env room admin event content ancestors none with
    | .error reason => .error reason
    | .ok none => .error .badCapability
    | .ok (some inviteId) =>
      if departureConsumes event.senderId inviteId ancestors then .error .expiredInvite
      else if !view.isActive event.senderId && decide (view.activeMemberCount ≥ env.maxActiveMembers)
      then .error .roomFull
      else .ok ()

/-- The per-type authorization rule. -/
def authorize (env : Env) (room : RoomId) (event : SignedEvent) (ancestors : List Entry)
    (view : MembershipSnapshot) : Except RejectReason Unit :=
  match event.content with
  | .roomCreated _ => .ok ()
  | .memberInvited _ | .memberRemoved _ | .memberKeyDistribution _ => gateAdminAction event view
  | .memberLeft _ => .ok ()
  | .memberJoined content => gateJoin env room event content ancestors view
  | .messageText _ | .fileShared _ | .pipeOpened _ | .pipeClosed _ | .agentStatus _ | .encrypted _ =>
    gateActiveMember event view

/-- The membership an event's ancestors establish. -/
def ancestorFold (env : Env) (room : RoomId) (ancestors : List Entry) : MembershipSnapshot :=
  fold env room (acceptedAncestors ancestors)

/-- An event's log validity, judged against its membership ancestors alone. -/
def gate (env : Env) (room : RoomId) (event : SignedEvent) (ancestors : List Entry) : Except RejectReason Unit :=
  let view := ancestorFold env room ancestors
  match authorize env room event ancestors view with
  | .error reason => .error reason
  | .ok () => gateDeviceBinding event view

end IrohRooms
