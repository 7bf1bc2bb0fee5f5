import IrohRooms.ContentV2.Body
import IrohRooms.Governance.State

/-!
# Content events and device chains

A content event is promoted once its exact bytes have been read strictly and its signature holds under the device the
body names. Promoted events are linked into one chain per device: each names its predecessor by id, and an id is the
hash of the exact bytes. So a chain that starts at sequence zero counts its own links, and its last id fixes all of it.
-/

namespace IrohRooms.ContentV2

open Governance (Reject blake3Domain signingMessage orReject orReject_eq_ok checkedSucc checkedSucc_eq_some)

def Domain.contentEvent : String := "iroh-room-v2/content-event"

/-- An event as it is received. -/
structure ContentEvent where
  bodyCsb : Bytes
  signature : Signature

variable (env : Env)

def EventId.fromContentEventCsb (csb : Bytes) : EventId := ⟨blake3Domain env Domain.contentEvent csb⟩

/-- An event that was promoted: its id and body are those of its bytes, which its device has signed. -/
structure VerifiedContentEvent where
  id : EventId
  bodyCsb : Bytes
  signature : Signature
  body : ContentEventBody
  id_eq : id = EventId.fromContentEventCsb env bodyCsb
  decoded : ContentEventBody.decodeFromCsb bodyCsb = .ok body
  signed : env.verify body.deviceId.bits (signingMessage Domain.contentEvent bodyCsb) signature = true

def verifyContentEvent (event : ContentEvent) : Except Reject (VerifiedContentEvent env) :=
  match hdecoded : ContentEventBody.decodeFromCsb event.bodyCsb with
  | .error reject => .error reject
  | .ok body =>
    if hsigned : env.verify body.deviceId.bits (signingMessage Domain.contentEvent event.bodyCsb) event.signature = true
    then .ok ⟨.fromContentEventCsb env event.bodyCsb, event.bodyCsb, event.signature, body, rfl, hdecoded, hsigned⟩
    else .error .badSignature

variable {env}

def validateDeviceChainLink (previous : Option (VerifiedContentEvent env)) (current : VerifiedContentEvent env) :
    Except Reject Unit :=
  if current.body.deviceSeq = 0 then .ok ()
  else
    match previous with
    | none => .error .missingDependency
    | some prev =>
      if current.body.communityId ≠ prev.body.communityId ∨ current.body.deviceId ≠ prev.body.deviceId ∨
          current.body.authorId ≠ prev.body.authorId then .error .invalidContent
      else do
        let expectedSeq ← orReject .invalidContent (checkedSucc prev.body.deviceSeq)
        if current.body.deviceSeq ≠ expectedSeq then .error .invalidContent
        else if current.body.prevDeviceEvent ≠ some prev.id then .error .invalidContent
        else .ok ()

/-! ### Promotion -/

/-- Promotion keeps the received bytes and signature. -/
theorem verifyContentEvent_eq_ok {event : ContentEvent} {v : VerifiedContentEvent env}
    (h : verifyContentEvent env event = .ok v) : v.bodyCsb = event.bodyCsb ∧ v.signature = event.signature := by
  unfold verifyContentEvent at h
  split at h
  · cases h
  · split_ifs at h
    obtain rfl := Except.ok.inj h
    exact ⟨rfl, rfl⟩

namespace VerifiedContentEvent

theorem encodeCanonical_eq (v : VerifiedContentEvent env) : v.body.encodeCanonical = v.bodyCsb :=
  ContentEventBody.encodeCanonical_of_decodeFromCsb v.decoded

/-- Every promoted event comes from promoting its own bytes. -/
theorem verifyContentEvent_self (v : VerifiedContentEvent env) :
    verifyContentEvent env ⟨v.bodyCsb, v.signature⟩ = .ok v := by
  obtain ⟨id, bodyCsb, signature, body, rfl, hdecoded, hsigned⟩ := v
  unfold verifyContentEvent
  split
  · rename_i hrejected
    rw [hdecoded] at hrejected
    cases hrejected
  · rename_i body' hdecoded'
    obtain rfl : body = body' := Except.ok.inj (hdecoded.symm.trans hdecoded')
    rw [dif_pos hsigned]

/-- What is hashed for the id of an event. -/
def word (v : VerifiedContentEvent env) : Bytes := contextBytes Domain.contentEvent ++ v.bodyCsb

/-- Where the hash has no collision, an id has one body. -/
theorem body_eq_of_id_eq {v w : VerifiedContentEvent env} {words : Set Bytes} (hfree : Set.InjOn env.blake3 words)
    (hv : v.word ∈ words) (hw : w.word ∈ words) (hid : v.id = w.id) : v.body = w.body := by
  rw [v.id_eq, w.id_eq] at hid
  have hword : v.word = w.word := hfree hv hw (congrArg Governance.Id.bits hid)
  have hbytes : v.bodyCsb = w.bodyCsb := List.append_cancel_left hword
  have hdecoded := v.decoded
  rw [hbytes, w.decoded] at hdecoded
  exact (Except.ok.inj hdecoded).symm

end VerifiedContentEvent

/-! ### Chains -/

/-- What a link says of an event that is not its device's first. -/
structure LinkedTo (prev current : VerifiedContentEvent env) : Prop where
  communityId : current.body.communityId = prev.body.communityId
  deviceId : current.body.deviceId = prev.body.deviceId
  authorId : current.body.authorId = prev.body.authorId
  deviceSeq : current.body.deviceSeq.toNat = prev.body.deviceSeq.toNat + 1
  prevDeviceEvent : current.body.prevDeviceEvent = some prev.id

theorem linkedTo_of_validate {prev current : VerifiedContentEvent env} (hlater : 0 < current.body.deviceSeq)
    (h : validateDeviceChainLink (some prev) current = .ok ()) : LinkedTo prev current := by
  unfold validateDeviceChainLink at h
  have hne : current.body.deviceSeq ≠ 0 := by
    intro hzero
    rw [hzero] at hlater
    exact absurd hlater (by decide)
  rw [if_neg hne] at h
  dsimp only at h
  split at h
  · cases h
  · rename_i hsame
    obtain ⟨expectedSeq, hexpected, h⟩ := bind_eq_ok_iff.mp h
    split_ifs at h with hseq hprev
    have hnext := checkedSucc_eq_some.mp (orReject_eq_ok.mp hexpected)
    simp only [not_or, not_not] at hsame
    refine ⟨hsame.1, hsame.2.1, hsame.2.2, ?_, not_not.mp hprev⟩
    rw [not_not.mp hseq, hnext]

/-- The events of one device, oldest first, each linked to the one before. -/
structure IsDeviceChain (chain : List (VerifiedContentEvent env)) : Prop where
  nonempty : chain ≠ []
  first : ∀ v, chain.head? = some v → v.body.deviceSeq = 0
  later : ∀ v ∈ chain.tail, 0 < v.body.deviceSeq
  linked : chain.IsChain fun prev current => validateDeviceChainLink (some prev) current = .ok ()

namespace IsDeviceChain

variable {chain chain' : List (VerifiedContentEvent env)}

theorem linkedTo (h : IsDeviceChain chain) {k : Nat} {prev current : VerifiedContentEvent env}
    (hprev : chain[k]? = some prev) (hcurrent : chain[k + 1]? = some current) : LinkedTo prev current := by
  have hlater : current ∈ chain.tail := by
    rw [← List.getElem?_tail] at hcurrent
    exact List.mem_of_getElem? hcurrent
  obtain ⟨_, heq⟩ := List.getElem?_eq_some_iff.mp hprev
  obtain ⟨hlt, heq'⟩ := List.getElem?_eq_some_iff.mp hcurrent
  have hlink := List.isChain_iff_getElem.mp h.linked k hlt
  rw [heq, heq'] at hlink
  exact linkedTo_of_validate (h.later current hlater) hlink

theorem exists_prev {k : Nat} {current : VerifiedContentEvent env} (hcurrent : chain[k + 1]? = some current) :
    ∃ prev, chain[k]? = some prev := by
  obtain ⟨hlt, -⟩ := List.getElem?_eq_some_iff.mp hcurrent
  exact ⟨_, List.getElem?_eq_getElem (Nat.lt_of_succ_lt hlt)⟩

/-- Along a chain the sequence counts, and community, device and author stay those of the first event. -/
theorem getElem? (h : IsDeviceChain chain) {first : VerifiedContentEvent env} (hfirst : chain.head? = some first) :
    ∀ {k : Nat} {v : VerifiedContentEvent env}, chain[k]? = some v → v.body.deviceSeq.toNat = k ∧
      v.body.communityId = first.body.communityId ∧ v.body.deviceId = first.body.deviceId ∧
      v.body.authorId = first.body.authorId := by
  intro k
  induction k with
  | zero =>
    intro v hv
    rw [← List.head?_eq_getElem?, hfirst] at hv
    obtain rfl := Option.some.inj hv
    rw [h.first _ hfirst]
    exact ⟨rfl, rfl, rfl, rfl⟩
  | succ k ih =>
    intro v hv
    obtain ⟨prev, hprev⟩ := exists_prev hv
    obtain ⟨hseq, hcommunity, hdevice, hauthor⟩ := ih hprev
    have hlink := h.linkedTo hprev hv
    refine ⟨?_, hlink.communityId.trans hcommunity, hlink.deviceId.trans hdevice, hlink.authorId.trans hauthor⟩
    rw [hlink.deviceSeq, hseq]

/-- What is hashed for the ids of a chain. -/
def words (chain : List (VerifiedContentEvent env)) : Set Bytes := {w | ∃ v ∈ chain, w = v.word}

/-- The ids fix the bodies from the last one down. -/
theorem body_eq {n : Nat} {last last' : VerifiedContentEvent env} (h : IsDeviceChain chain) (h' : IsDeviceChain chain')
    (hfree : Set.InjOn env.blake3 (words chain ∪ words chain')) (hlast : chain[n]? = some last)
    (hlast' : chain'[n]? = some last') (hid : last.id = last'.id) :
    ∀ {d k : Nat} {v w : VerifiedContentEvent env}, k + d = n → chain[k]? = some v → chain'[k]? = some w →
      v.body = w.body := by
  have hword : ∀ {k : Nat} {v w : VerifiedContentEvent env}, chain[k]? = some v → chain'[k]? = some w → v.id = w.id →
      v.body = w.body := fun hv hw hid => VerifiedContentEvent.body_eq_of_id_eq hfree
    (Or.inl ⟨_, List.mem_of_getElem? hv, rfl⟩) (Or.inr ⟨_, List.mem_of_getElem? hw, rfl⟩) hid
  intro d
  induction d with
  | zero =>
    intro k v w hk hv hw
    obtain rfl : k = n := hk
    obtain rfl := Option.some.inj (hv.symm.trans hlast)
    obtain rfl := Option.some.inj (hw.symm.trans hlast')
    exact hword hv hw hid
  | succ d ih =>
    intro k v w hk hv hw
    have hlen := (List.getElem?_eq_some_iff.mp hlast).1
    have hlen' := (List.getElem?_eq_some_iff.mp hlast').1
    have hnext : chain[k + 1]? = some (chain[k + 1]) := List.getElem?_eq_getElem (by omega)
    have hnext' : chain'[k + 1]? = some (chain'[k + 1]) := List.getElem?_eq_getElem (by omega)
    have hbody := ih (by omega) hnext hnext'
    -- the body above names the id below
    have hprev := (h.linkedTo hv hnext).prevDeviceEvent
    rw [hbody, (h'.linkedTo hw hnext').prevDeviceEvent] at hprev
    exact hword hv hw (Option.some.inj hprev).symm

/-- The last event stands at its own sequence. -/
theorem length_eq (h : IsDeviceChain chain) {last : VerifiedContentEvent env} (hlast : chain.getLast? = some last) :
    chain.length = last.body.deviceSeq.toNat + 1 := by
  obtain ⟨first, hfirst⟩ := Option.isSome_iff_exists.mp (List.isSome_head?.mpr h.nonempty)
  rw [List.getLast?_eq_getElem?] at hlast
  have hseq := (h.getElem? hfirst hlast).1
  have hpos := List.length_pos_iff.mpr h.nonempty
  omega

/-- Two chains that end in the same id have the same bodies. -/
theorem bodies_eq (h : IsDeviceChain chain) (h' : IsDeviceChain chain')
    (hfree : Set.InjOn env.blake3 (words chain ∪ words chain'))
    (hid : chain.getLast?.map VerifiedContentEvent.id = chain'.getLast?.map VerifiedContentEvent.id) :
    chain.map VerifiedContentEvent.body = chain'.map VerifiedContentEvent.body := by
  have hlast := List.getLast?_eq_some_getLast h.nonempty
  have hlast' := List.getLast?_eq_some_getLast h'.nonempty
  generalize chain.getLast h.nonempty = last at hlast
  generalize chain'.getLast h'.nonempty = last' at hlast'
  rw [hlast, hlast'] at hid
  have hid : last.id = last'.id := Option.some.inj hid
  have hbody : last.body = last'.body := VerifiedContentEvent.body_eq_of_id_eq hfree
    (Or.inl ⟨_, List.mem_of_getLast? hlast, rfl⟩) (Or.inr ⟨_, List.mem_of_getLast? hlast', rfl⟩) hid
  have hlength : chain.length = chain'.length := by
    rw [h.length_eq hlast, h'.length_eq hlast', hbody]
  rw [List.getLast?_eq_getElem?] at hlast hlast'
  rw [← hlength] at hlast'
  refine List.ext_getElem (by simpa using hlength) fun k hk hk' => ?_
  rw [List.getElem_map, List.getElem_map]
  rw [List.length_map] at hk hk'
  exact body_eq h h' hfree hlast hlast' hid (Nat.add_sub_of_le (Nat.le_sub_one_of_lt hk)) (List.getElem?_eq_getElem hk)
    (List.getElem?_eq_getElem hk')

end IsDeviceChain

/-- A promoted event's body is written as the received bytes, and its id is their hash. A chain of promoted events that
starts at sequence zero has its `k`-th event at sequence `k`, with one community, device and author, and where the hash
has no collision its bodies are fixed by its last id. -/
theorem contentEvents_exact_and_chains_unique (env : Env) :
    (∀ (event : ContentEvent) (v : VerifiedContentEvent env), verifyContentEvent env event = .ok v →
      v.body.encodeCanonical = event.bodyCsb ∧ v.id = ⟨blake3Domain env Domain.contentEvent event.bodyCsb⟩) ∧
    (∀ chain : List (VerifiedContentEvent env), IsDeviceChain chain → ∃ community device author,
      ∀ (k : Nat) (v : VerifiedContentEvent env), chain[k]? = some v → v.body.deviceSeq.toNat = k ∧
        v.body.communityId = community ∧ v.body.deviceId = device ∧ v.body.authorId = author) ∧
    ∀ chain chain' : List (VerifiedContentEvent env), IsDeviceChain chain → IsDeviceChain chain' →
      Set.InjOn env.blake3 (IsDeviceChain.words chain ∪ IsDeviceChain.words chain') →
      chain.getLast?.map VerifiedContentEvent.id = chain'.getLast?.map VerifiedContentEvent.id →
      chain.map VerifiedContentEvent.body = chain'.map VerifiedContentEvent.body := by
  refine ⟨?_, ?_, ?_⟩
  · intro event v h
    obtain ⟨hbytes, -⟩ := verifyContentEvent_eq_ok h
    rw [← hbytes]
    exact ⟨v.encodeCanonical_eq, v.id_eq⟩
  · intro chain h
    obtain ⟨first, hfirst⟩ := Option.isSome_iff_exists.mp (List.isSome_head?.mpr h.nonempty)
    exact ⟨_, _, _, fun k v hv => h.getElem? hfirst hv⟩
  · intro chain chain' h h' hfree hid
    exact h.bodies_eq h' hfree hid

namespace Toy

def message (seq : UInt64) (prev : Option EventId) : ContentEventBody :=
  ⟨contentEventVersion, .ofNat 7, .ofNat 8, .ofNat 1, ⟨toyEnv.publicKey 1⟩, seq, prev, 0, 1000, .messageText, [],
    .map [("body", .text "hi")]⟩

/-- The body, signed by its device. -/
def signedEvent (body : ContentEventBody) : ContentEvent :=
  ⟨body.encodeCanonical, toyEnv.sign 1 (signingMessage Domain.contentEvent body.encodeCanonical)⟩

def opening : ContentEvent := signedEvent (message 0 none)

def reply : ContentEvent := signedEvent (message 1 (some (.fromContentEventCsb toyEnv opening.bodyCsb)))

/-- Both events are promoted, and the second is linked to the first. -/
def linksUp : Bool :=
  match verifyContentEvent toyEnv opening, verifyContentEvent toyEnv reply with
  | .ok v, .ok w => decide (v.body.deviceSeq = 0 ∧ 0 < w.body.deviceSeq ∧ validateDeviceChainLink (some v) w = .ok () ∧
      toyEnv.blake3 v.word ≠ toyEnv.blake3 w.word)
  | _, _ => false

theorem contentEvents_exact_and_chains_unique_reply :
    ∃ v w, verifyContentEvent toyEnv opening = .ok v ∧ verifyContentEvent toyEnv reply = .ok w ∧
      w.body.encodeCanonical = reply.bodyCsb ∧ IsDeviceChain [v, w] ∧ w.body.deviceSeq.toNat = 1 ∧
      ∀ chain : List (VerifiedContentEvent toyEnv), IsDeviceChain chain →
        IsDeviceChain.words chain = IsDeviceChain.words [v, w] →
        chain.getLast?.map VerifiedContentEvent.id = some w.id →
        chain.map VerifiedContentEvent.body = [v.body, w.body] := by
  have hlinks : linksUp = true := by decide +kernel
  unfold linksUp at hlinks
  split at hlinks
  · rename_i v w hv hw
    obtain ⟨hfirst, hlater, hlink, hne⟩ := of_decide_eq_true hlinks
    obtain ⟨hexact, hcounts, hunique⟩ := contentEvents_exact_and_chains_unique toyEnv
    have hchain : IsDeviceChain [v, w] := by
      refine ⟨List.cons_ne_nil _ _, ?_, ?_, List.isChain_cons_cons.mpr ⟨hlink, .singleton w⟩⟩
      · intro u hu
        rwa [← Option.some.inj hu]
      · intro u hu
        rwa [List.mem_singleton.mp hu]
    have hfree : Set.InjOn toyEnv.blake3 (IsDeviceChain.words [v, w]) := by
      rintro _ ⟨a, ha, rfl⟩ _ ⟨b, hb, rfl⟩ hab
      simp only [List.mem_cons, List.not_mem_nil, or_false] at ha hb
      rcases ha with rfl | rfl <;> rcases hb with rfl | rfl
      · rfl
      · exact absurd hab hne
      · exact absurd hab.symm hne
      · rfl
    obtain ⟨_, _, _, hseq⟩ := hcounts [v, w] hchain
    refine ⟨v, w, hv, hw, (hexact reply w hw).1, hchain, (hseq 1 w rfl).1, fun chain hother hwords hid => ?_⟩
    exact hunique chain [v, w] hother hchain (by rwa [hwords, Set.union_self]) hid
  · cases hlinks

end Toy

end IrohRooms.ContentV2
