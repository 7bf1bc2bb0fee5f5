import IrohRooms.RoomGovernance.Runs
import IrohRooms.Event.Build

/-!
# Who has signed an entry

An envelope is verified under the signer it names, and the body is read from its bytes. For entries and approvals
nothing compares the two, so the author of a body is its signer exactly if the signed bytes say so. When they do for all
that a fold is fed with, the accepted entries and their approvals are signed by those they are attributed to.
-/

namespace IrohRooms.RoomGovernance

open Governance (Id IdKind signingMessage)

/-- The signed map holds the envelope's own signer under a key. -/
def Envelope.Names {kind : IdKind} (e : Envelope kind) (key : String) : Prop :=
  ∃ entries, Cbor.decodeCanonical e.signed = .ok (.map entries) ∧ entries.lookup key = some e.signer.toCbor

/-- The envelope's signature over its bytes, as a record of a kind, is by a principal's key. -/
def Envelope.SignedBy (env : Env) (β : Type) {kind : IdKind} [SignedBody β kind] (e : Envelope kind)
    (principal : MemberId) : Prop :=
  env.verify principal.bits (signingMessage (SignedBody.signContext β) e.signed) e.sig = true

section Claimed

variable {env : Env} {β : Type} {kind : IdKind} [SignedBody β kind] (claimed : β → MemberId) {key : String}

/-- A body whose claimed principal is what the signed map holds under `key`. -/
theorem claimed_eq_signer_iff
    (hclaimed : ∀ value (body : β), SignedBody.fromCanonical value = .ok body →
      ∃ entries, value = .map entries ∧ entries.lookup key = some (claimed body).toCbor)
    {e : Envelope kind} {body : β} (h : verifyEnvelope env β e = .ok body) :
    claimed body = e.signer ↔ e.Names key := by
  obtain ⟨value, hdecode, -, -, hbody⟩ := verifyEnvelope_eq_ok.mp h
  obtain ⟨entries, rfl, hlookup⟩ := hclaimed value body hbody
  constructor
  · intro heq
    exact ⟨entries, hdecode, heq ▸ hlookup⟩
  · rintro ⟨entries', hdecode', hlookup'⟩
    obtain rfl : entries = entries' := by simpa [hdecode] using hdecode'
    rw [hlookup] at hlookup'
    have hbytes : (claimed body).asBytes = e.signer.asBytes := by simpa [Id.toCbor] using hlookup'
    exact Id.asBytes_injective hbytes

theorem signedBy_of_claimed {e : Envelope kind} {body : β} (h : verifyEnvelope env β e = .ok body)
    (heq : claimed body = e.signer) : e.SignedBy env β (claimed body) := by
  obtain ⟨-, -, -, hsig, -⟩ := verifyEnvelope_eq_ok.mp h
  unfold Envelope.SignedBy
  rw [heq]
  exact hsig

end Claimed

/-! ### Entries and approvals -/

section Fold

variable {env : Env}

theorem author_eq_signer_iff {e : SignedGovernanceEntry} {body : GovernanceEntryBody}
    (h : GovernanceEntryBody.decodeVerified env e = .ok body) : body.author = e.signer ↔ e.Names "author" :=
  claimed_eq_signer_iff GovernanceEntryBody.author (fun _ _ h => by
    obtain ⟨entries, -, -, hmap, -, -, -, -, hauthor, -⟩ := GovernanceEntryBody.of_fromCanonical h
    exact ⟨entries, hmap, hauthor⟩) h

theorem approver_eq_signer_iff {e : SignedApproval} {body : ApprovalBody}
    (h : ApprovalBody.decodeVerified env e = .ok body) : body.approver = e.signer ↔ e.Names "approver" :=
  claimed_eq_signer_iff ApprovalBody.approver (fun _ _ h => by
    obtain ⟨entries, hmap, -, -, -, -, -, happrover, -⟩ := ApprovalBody.of_fromCanonical h
    exact ⟨entries, hmap, happrover⟩) h

/-- An entry or approval is by its signer exactly if its signed bytes name the signer. A fold that is fed with such
records only accepts entries that their author has signed, with approvals that their approver has signed. -/
theorem decodeVerified_authorship (env : Env) :
    (∀ e body, GovernanceEntryBody.decodeVerified env e = .ok body → (body.author = e.signer ↔ e.Names "author")) ∧
    (∀ e body, ApprovalBody.decodeVerified env e = .ok body → (body.approver = e.signer ↔ e.Names "approver")) ∧
    ∀ (entries : List SignedGovernanceEntry) (approvals : List SignedApproval) (fold : GovernanceFold)
      (outcome : FoldOutcome),
      (∀ body ∈ fold.entries, ∃ e ∈ entries, GovernanceEntryBody.decodeVerified env e = .ok body ∧ e.Names "author") →
      (∀ a ∈ fold.approvals, ∃ e ∈ approvals, ApprovalBody.decodeVerified env e = .ok a ∧ e.Names "approver") →
      fold.finish env = .ok outcome → ∀ id, .accepted id ∈ outcome.items →
        (∃ state body, fold.AcceptedIn env outcome.roomId state id body) ∧
        ∀ state body, fold.AcceptedIn env outcome.roomId state id body →
          (∃ e ∈ entries, GovernanceEntryBody.decodeVerified env e = .ok body ∧
            e.SignedBy env GovernanceEntryBody body.author) ∧
          ∀ a ∈ approvalsFor fold.approvalsByEntry id, ∃ e ∈ approvals, ApprovalBody.decodeVerified env e = .ok a ∧
            e.SignedBy env ApprovalBody a.approver := by
  refine ⟨fun e body => author_eq_signer_iff, fun e body => approver_eq_signer_iff, ?_⟩
  intro entries approvals fold outcome hentries happrovals hfinish id hid
  refine ⟨GovernanceFold.exists_acceptedIn hfinish hid, fun state body haccepted => ⟨?_, fun a ha => ?_⟩⟩
  · obtain ⟨e, he, hdecode, hnames⟩ := hentries body haccepted.entry.1
    have hauthor := (author_eq_signer_iff hdecode).mpr hnames
    exact ⟨e, he, hdecode, signedBy_of_claimed GovernanceEntryBody.author hdecode hauthor⟩
  · obtain ⟨e, he, hdecode, hnames⟩ := happrovals a (GovernanceFold.mem_approvalsFor.mp ha).1
    have happrover := (approver_eq_signer_iff hdecode).mpr hnames
    exact ⟨e, he, hdecode, signedBy_of_claimed ApprovalBody.approver hdecode happrover⟩

end Fold

namespace Toy

def secret (k : Nat) : SigningKey := BitVec.ofNat 256 k

def who (k : Nat) : MemberId := ⟨toyEnv.publicKey (secret k)⟩

def roomId : RoomId := .ofNat 7

def entry (author : Nat) (seq : UInt64) (parent : Option GovernanceEntryId) (action : GovernanceAction) :
    GovernanceEntryBody := ⟨schemaVersion, roomId, who author, seq, parent, 1000, action⟩

def genesis : GovernanceEntryBody := entry 1 1 none (.initRoom (who 1) (.ofNat 1) "room")

/-- The admin's entry that adds member `k`. -/
def add (k : Nat) : GovernanceEntryBody :=
  entry 1 2 (some (idOfBody toyEnv genesis)) (.addMember (who k) (.ofNat k) .member)

/-- Member `k` approves an entry. -/
def approve (k : Nat) (body : GovernanceEntryBody) : ApprovalBody :=
  ⟨schemaVersion, roomId, idOfBody toyEnv body, who k, none, 1000⟩

def approvedGenesis : GovernanceFold := (GovernanceFold.new.entry genesis).approval (approve 3 genesis)

/-- An entry in the admin's name, signed by another key. -/
def forged : SignedGovernanceEntry := sealed toyEnv (add 2) (secret 2)

/-- What the sealed entries decode to and what the folds accept, evaluated in one go. -/
theorem sealed_computed :
    GovernanceEntryBody.decodeVerified toyEnv (sealed toyEnv genesis (secret 1)) = .ok genesis ∧
    ApprovalBody.decodeVerified toyEnv (sealed toyEnv (approve 3 genesis) (secret 3)) = .ok (approve 3 genesis) ∧
    .accepted (idOfBody toyEnv genesis) ∈ (approvedGenesis.items toyEnv roomId).values ∧
    GovernanceEntryBody.decodeVerified toyEnv forged = .ok (add 2) ∧
    toyEnv.verify (add 2).author.bits (signingMessage (SignedBody.signContext GovernanceEntryBody) forged.signed)
      forged.sig ≠ true ∧
    .accepted (idOfBody toyEnv (add 2)) ∈
      (((GovernanceFold.new.entry genesis).entry (add 2)).items toyEnv roomId).values := by
  decide +kernel

/-- The genesis sealed by the admin and approved by another member is accepted, and both have signed. -/
theorem decodeVerified_authorship_approved :
    ∃ outcome, approvedGenesis.finish toyEnv = .ok outcome ∧ .accepted (idOfBody toyEnv genesis) ∈ outcome.items ∧
      ∃ state body, approvedGenesis.AcceptedIn toyEnv outcome.roomId state (idOfBody toyEnv genesis) body ∧
        ∃ e ∈ [sealed toyEnv genesis (secret 1)], e.SignedBy toyEnv GovernanceEntryBody body.author := by
  obtain ⟨hgenesis, happroved, hid, -⟩ := sealed_computed
  obtain ⟨outcome, hfinish, -, hitems⟩ := @GovernanceFold.exists_finish toyEnv approvedGenesis roomId rfl
  rw [← hitems] at hid
  obtain ⟨⟨state, body, haccepted⟩, hsigned⟩ := (decodeVerified_authorship toyEnv).2.2
    [sealed toyEnv genesis (secret 1)] [sealed toyEnv (approve 3 genesis) (secret 3)] approvedGenesis outcome
    (fun body hbody => ⟨_, List.mem_singleton_self _, by
      rw [List.mem_singleton.mp hbody]
      exact ⟨hgenesis, (author_eq_signer_iff hgenesis).mp rfl⟩⟩)
    (fun a ha => ⟨_, List.mem_singleton_self _, by
      rw [List.mem_singleton.mp ha]
      exact ⟨happroved, (approver_eq_signer_iff happroved).mp rfl⟩⟩) hfinish _ hid
  obtain ⟨⟨e, he, -, hby⟩, -⟩ := hsigned state body haccepted
  exact ⟨outcome, hfinish, hid, state, body, haccepted, e, he, hby⟩

/-- The forged entry decodes as the admin's, and a fold of decoded bodies accepts it. -/
theorem forged_accepted :
    GovernanceEntryBody.decodeVerified toyEnv (sealed toyEnv genesis (secret 1)) = .ok genesis ∧
    GovernanceEntryBody.decodeVerified toyEnv forged = .ok (add 2) ∧ (add 2).author ≠ forged.signer ∧
    ¬ forged.SignedBy toyEnv GovernanceEntryBody (add 2).author ∧
    ∃ outcome, ((GovernanceFold.new.entry genesis).entry (add 2)).finish toyEnv = .ok outcome ∧
      .accepted (idOfBody toyEnv (add 2)) ∈ outcome.items := by
  obtain ⟨hgenesis, -, -, hdecode, hforged, hitem⟩ := sealed_computed
  obtain ⟨outcome, hfinish, -, hitems⟩ :=
    @GovernanceFold.exists_finish toyEnv ((GovernanceFold.new.entry genesis).entry (add 2)) roomId rfl
  exact ⟨hgenesis, hdecode, by decide, hforged, outcome, hfinish, hitems ▸ hitem⟩

end Toy

end IrohRooms.RoomGovernance
