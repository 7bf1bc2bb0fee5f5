import IrohRooms.Lib.Grouping
import IrohRooms.Lib.Rounds
import IrohRooms.RoomGovernance.Fork

/-!
# The governance fold of a room

The fold takes entries, approvals and resolutions in any order. A pass offers every entry to the running state, in the
order of their ids, until a round decides none of them; what is left then is missing a dependency. The first pass finds
the forks, the authorised resolutions drop entries, and the second pass derives the state without these.
-/

namespace IrohRooms.RoomGovernance

open Governance (Id Reject)

structure GovernanceState where
  roomId : RoomId
  admin : Option MemberId
  members : OrdMap MemberId MemberRecord
  /-- The last accepted entry of each author, with its sequence number. -/
  tips : OrdMap MemberId (UInt64 × GovernanceEntryId)
  forks : List ForkEvidence
  policy : ApprovalPolicy

namespace GovernanceState

def empty (roomId : RoomId) : GovernanceState := ⟨roomId, none, OrdMap.empty, OrdMap.empty, [], .default⟩

def authorSeq (state : GovernanceState) (author : MemberId) : UInt64 := ((state.tips.get? author).map Prod.fst).getD 0

def authorTip (state : GovernanceState) (author : MemberId) : Option GovernanceEntryId :=
  (state.tips.get? author).map Prod.snd

def hasUnresolvedFork (state : GovernanceState) (author : MemberId) : Bool :=
  state.forks.any fun f => decide (f.author = author) && !f.resolved

end GovernanceState

/-! ### Authorization -/

/-- What the approvers contribute: one for being the signer, and one for the first approval in their name. -/
def quorumCount (signer : MemberId) (approvals : List ApprovalBody) : List MemberId → Nat
  | [] => 0
  | approver :: rest =>
    (if approver = signer then 1 else 0) + (if approvals.any fun a => decide (a.approver = approver) then 1 else 0) +
      quorumCount signer approvals rest

def authorizeAdminOrPolicy (state : GovernanceState) (signer : MemberId) (approvals : List ApprovalBody) :
    Except Reject Unit :=
  match state.policy with
  | .adminAlone => if state.admin = some signer then .ok () else .error .insufficientAuthorization
  | .mOfN m approvers =>
    if m.toNat ≤ quorumCount signer approvals approvers then .ok () else .error .insufficientAuthorization

def authorizeGovernanceEntry (state : GovernanceState) (entry : GovernanceEntryBody) (approvals : List ApprovalBody) :
    Except Reject Unit :=
  if state.hasUnresolvedFork entry.author then .error .unresolvedFork
  else
    match entry.action with
    | .initRoom admin _ _ => if admin ≠ entry.author then .error .insufficientAuthorization else .ok ()
    | .removeMember member =>
      -- the admin of a room is immutable
      if state.admin = some member then .error .invalidContent
      else authorizeAdminOrPolicy state entry.author approvals
    | _ => authorizeAdminOrPolicy state entry.author approvals

def authorizeForkResolution (state : GovernanceState) (signer : MemberId) : Except Reject Unit :=
  if state.admin = some signer then .ok () else .error .insufficientAuthorization

/-! ### One entry -/

inductive Class
  | accept
  | reject (reason : Reject)
  | fork (evidence : ForkEvidence)
  | wait
  deriving DecidableEq

def Class.ofResult : Except Reject Unit → Class
  | .ok _ => .accept
  | .error reason => .reject reason

/-- The approvals that name an entry. -/
def approvalsFor (approvalsByEntry : OrdMap GovernanceEntryId (List ApprovalBody)) (id : GovernanceEntryId) :
    List ApprovalBody := (approvalsByEntry.get? id).getD []

/-- The evidence of a fork between an entry and the tip of its author. -/
def forkWithTip (state : GovernanceState) (entry : GovernanceEntryBody) (id : GovernanceEntryId) : Option ForkEvidence :=
  match state.authorTip entry.author with
  | none => none
  | some tip => detect entry.author id entry.seq (some (state.authorSeq entry.author, tip))

def classify (entry : GovernanceEntryBody) (state : GovernanceState) (id : GovernanceEntryId)
    (approvalsByEntry : OrdMap GovernanceEntryId (List ApprovalBody)) : Class :=
  if entry.roomId ≠ state.roomId then .reject .invalidContent
  else if state.admin = none then
    if entry.action.isInitRoom = false then .wait
    else if entry.seq ≠ 1 ∨ entry.parent ≠ none then .reject .invalidContent
    else .ofResult (authorizeGovernanceEntry state entry [])
  else if entry.action.isInitRoom = true then .reject .invalidContent
  else
    match forkWithTip state entry id with
    | some evidence => .fork evidence
    | none =>
      if entry.seq ≠ state.authorSeq entry.author + 1 then .wait
      else if entry.parent ≠ state.authorTip entry.author then .wait
      else .ofResult (authorizeGovernanceEntry state entry (approvalsFor approvalsByEntry id))

/-- `BTreeMap::get_mut`, and nothing for a member that is not there. -/
def updateMember (members : OrdMap MemberId MemberRecord) (member : MemberId) (f : MemberRecord → MemberRecord) :
    OrdMap MemberId MemberRecord :=
  match members.get? member with
  | none => members
  | some m => members.insert member (f m)

def applyAction (state : GovernanceState) (id : GovernanceEntryId) : GovernanceAction → GovernanceState
  | .initRoom admin adminDevice _ =>
    { state with admin := some admin, members := state.members.insert admin ⟨admin, .admin, .active, [adminDevice], id⟩ }
  | .addMember member device role =>
    { state with members := state.members.insert member ⟨member, role, .active, [device], id⟩ }
  | .removeMember member =>
    { state with
      members := updateMember state.members member fun m => { m with status := .removed, governanceCursor := id } }
  | .setRole member role =>
    { state with members := updateMember state.members member fun m => { m with role := role, governanceCursor := id } }
  | .rotateDevice member device =>
    { state with
      members := updateMember state.members member fun m =>
        { m with
          devices := if m.devices.contains device then m.devices else m.devices ++ [device]
          governanceCursor := id } }
  | .setPolicy policy => { state with policy := policy }

def applyEntry (state : GovernanceState) (entry : GovernanceEntryBody) (id : GovernanceEntryId) : GovernanceState :=
  { applyAction state id entry.action with
    tips := (applyAction state id entry.action).tips.insert entry.author (entry.seq, id) }

/-! ### Passes -/

inductive FoldItem
  | accepted (id : GovernanceEntryId)
  | rejected (id : GovernanceEntryId) (reason : Reject)
  deriving DecidableEq

/-- The running state of a pass and the decisions so far. -/
structure Pass where
  state : GovernanceState
  items : OrdMap GovernanceEntryId FoldItem

section Pass

variable (approvalsByEntry : OrdMap GovernanceEntryId (List ApprovalBody)) (dropped : OrdSet GovernanceEntryId)

/-- Decide one entry, unless it is decided already, dropped, or has to wait. -/
def visitEntry (p : Pass) (e : GovernanceEntryId × GovernanceEntryBody) : Option Pass :=
  if p.items.contains e.1 || decide (e.1 ∈ dropped) then none
  else
    match classify e.2 p.state e.1 approvalsByEntry with
    | .accept => some ⟨applyEntry p.state e.2 e.1, p.items.insert e.1 (.accepted e.1)⟩
    | .reject reason => some ⟨p.state, p.items.insert e.1 (.rejected e.1 reason)⟩
    | .fork evidence =>
      some ⟨{ p.state with forks := p.state.forks ++ [evidence] }, p.items.insert e.1 (.rejected e.1 .forkDetected)⟩
    | .wait => none

def Pass.start (roomId : RoomId) : Pass := ⟨.empty roomId, OrdMap.empty⟩

/-- The rounds of a pass. Every round but the last decides an entry, so one more than there are entries is enough. -/
def passRounds (roomId : RoomId) (entriesById : OrdMap GovernanceEntryId GovernanceEntryBody) : Pass :=
  Rounds.loop (visitEntry approvalsByEntry dropped) entriesById.entries (entriesById.entries.length + 1) (.start roomId)

/-- An entry that was neither decided nor dropped is missing a dependency. -/
def markMissing (items : OrdMap GovernanceEntryId FoldItem) (id : GovernanceEntryId) : OrdMap GovernanceEntryId FoldItem :=
  if id ∈ dropped then items
  else if items.contains id then items
  else items.insert id (.rejected id .missingDependency)

def foldPass (roomId : RoomId) (entriesById : OrdMap GovernanceEntryId GovernanceEntryBody) : Pass :=
  ⟨(passRounds approvalsByEntry dropped roomId entriesById).state,
    entriesById.keys.foldl (markMissing dropped) (passRounds approvalsByEntry dropped roomId entriesById).items⟩

end Pass

/-! ### Resolutions -/

def resolutionIsAuthorized (state : GovernanceState) (res : ForkResolutionBody) : Bool :=
  if res.roomId ≠ state.roomId then false else (authorizeForkResolution state res.signer).isOk

/-- The evidence resolved so far and the entries dropped for it. -/
structure Resolved where
  evidence : List (GovernanceEntryId × GovernanceEntryId)
  dropped : OrdSet GovernanceEntryId

def Resolved.drop (dropped : OrdSet GovernanceEntryId) (pair : GovernanceEntryId × GovernanceEntryId) :
    ForkResolveAction → OrdSet GovernanceEntryId
  | .reject => (dropped.add pair.1).add pair.2
  | .accept winner => dropped.add (if pair.1 = winner then pair.2 else pair.1)

def resolveOne (state : GovernanceState) (acc : Resolved) (res : ForkResolutionBody) : Resolved :=
  if resolutionIsAuthorized state res then
    match state.forks.find? fun f => f.conflicting = res.evidence with
    | none => acc
    | some ev => ⟨ev.conflicting :: acc.evidence, Resolved.drop acc.dropped ev.conflicting res.action⟩
  else acc

/-! ### The fold -/

structure GovernanceFold where
  roomId : Option RoomId
  entries : List GovernanceEntryBody
  approvals : List ApprovalBody
  resolutions : List ForkResolutionBody

structure FoldOutcome where
  roomId : RoomId
  items : List FoldItem
  unresolvedForks : List ForkEvidence
  state : GovernanceState

namespace GovernanceFold

def new : GovernanceFold := ⟨none, [], [], []⟩

def forRoom (roomId : RoomId) : GovernanceFold := { new with roomId := some roomId }

def entry (fold : GovernanceFold) (body : GovernanceEntryBody) : GovernanceFold :=
  { fold with roomId := some (fold.roomId.getD body.roomId), entries := fold.entries ++ [body] }

def approval (fold : GovernanceFold) (body : ApprovalBody) : GovernanceFold :=
  { fold with approvals := fold.approvals ++ [body] }

def resolution (fold : GovernanceFold) (body : ForkResolutionBody) : GovernanceFold :=
  { fold with resolutions := fold.resolutions ++ [body] }

def entriesFrom (fold : GovernanceFold) (bodies : List GovernanceEntryBody) : GovernanceFold := bodies.foldl entry fold

variable (env : Env) (fold : GovernanceFold)

/-- The entries under the ids of their canonical bytes; the last of several with one id stays. -/
def entriesById : OrdMap GovernanceEntryId GovernanceEntryBody := OrdMap.indexBy (idOfBody env) fold.entries

def approvalsByEntry : OrdMap GovernanceEntryId (List ApprovalBody) := OrdMap.groupBy ApprovalBody.entryId fold.approvals

def pass (roomId : RoomId) (dropped : OrdSet GovernanceEntryId) : Pass :=
  foldPass fold.approvalsByEntry dropped roomId (fold.entriesById env)

/-- What the resolutions decide over the forks of the first pass. -/
def resolved (roomId : RoomId) : Resolved :=
  fold.resolutions.foldl (resolveOne (fold.pass env roomId OrdMap.empty).state) ⟨[], OrdMap.empty⟩

/-- The forks of the first pass, the resolved ones flagged, in order. -/
def forks (roomId : RoomId) : List ForkEvidence :=
  OrdSet.sortDedup ((fold.pass env roomId OrdMap.empty).state.forks.map fun ev =>
    if (fold.resolved env roomId).evidence.contains ev.conflicting then { ev with resolved := true } else ev)

/-- The decisions of the second pass; what a resolution has dropped is on record as a detected fork. -/
def items (roomId : RoomId) : OrdMap GovernanceEntryId FoldItem :=
  (fold.resolved env roomId).dropped.toList.foldl (fun items id => items.insert id (.rejected id .forkDetected))
    (fold.pass env roomId (fold.resolved env roomId).dropped).items

def finish : Except Reject FoldOutcome :=
  match fold.roomId with
  | none => .error .missingDependency
  | some roomId => .ok {
      roomId := roomId
      items := (fold.items env roomId).values
      unresolvedForks := (fold.forks env roomId).filter fun f => !f.resolved
      state := { (fold.pass env roomId (fold.resolved env roomId).dropped).state with forks := fold.forks env roomId } }

end GovernanceFold

end IrohRooms.RoomGovernance
