import IrohRooms.Store.EventStore
import IrohRooms.Sync.Keys

/-!
# Key-aware reads

The lookups of the pipe and blob planes over the stored rows: plaintext bodies as they are, encrypted ones opened
with the held key of their epoch. Each lookup scans the rows of the plaintext type and then the envelopes that
announce the type; `Reads s` below names a row with the body it is read as, and the three specifications say what
the scans compute in terms of it.
-/

namespace IrohRooms

variable {env : Env} {room : RoomId}

section Definitions

variable (sealing : Sealing) (keys : EpochKeyStore)

/-- The surfacing view of an event's content. -/
def readContent (event : SignedEvent) : Except UnreadableReason Content :=
  match event.content with
  | .encrypted c =>
    if keys.isPoisoned c.keyEpoch then .error (.epochConflicted c.keyEpoch)
    else match keys.get c.keyEpoch with
      | none => .error (.noEpochKey c.keyEpoch)
      | some key => openEncryptedContent sealing event key
  | content => .ok content

namespace EventStore

variable (s : EventStore env room)

/-- The stored envelopes that announce `inner`: sort key and outcome of reading each. -/
def encryptedBodies (inner : EventType) : List (OrderKey × Except UnreadableReason Content) :=
  (s.byType .contentEncrypted).filterMap fun row =>
    match row.event.event.content with
    | .encrypted c => if c.innerType = inner then some (row.key, readContent sealing keys row.event.event) else none
    | _ => none

/-- A row's plaintext announcement of the pipe. -/
def openedFor (pipeId : ShortId) (row : Row env room) : Option (OrderKey × PipeOpened) :=
  match row.event.event.content with
  | .pipeOpened opened => if opened.pipeId = pipeId then some (row.key, opened) else none
  | _ => none

/-- The first plaintext announcement of the pipe in canonical order. -/
def plainOpened (pipeId : ShortId) : Option (OrderKey × PipeOpened) :=
  (s.byType .pipeOpened).findSome? (openedFor pipeId)

/-- A readable announcement of the pipe governs if it sorts before the best one so far. -/
def governStep (pipeId : ShortId) (governing : Option (OrderKey × PipeOpened))
    (body : OrderKey × Except UnreadableReason Content) : Option (OrderKey × PipeOpened) :=
  match body.2 with
  | .ok (.pipeOpened opened) =>
    if opened.pipeId = pipeId then
      match governing with
      | none => some (body.1, opened)
      | some best => if body.1 < best.1 then some (body.1, opened) else some best
    else governing
  | _ => governing

/-- The governing `pipe.opened`: the lowest in canonical order, whoever sent it. -/
def pipeOpened (pipeId : ShortId) : Option PipeOpened :=
  ((s.encryptedBodies sealing keys .pipeOpened).foldl (governStep pipeId) (s.plainOpened pipeId)).map Prod.snd

/-- Whether a `pipe.closed` for the pipe is known; an unreadable close counts against every pipe. -/
def pipeIsClosed (pipeId : ShortId) : Bool :=
  (s.byType .pipeClosed).any (fun row =>
    match row.event.event.content with
    | .pipeClosed closed => closed.pipeId == pipeId
    | _ => false) ||
  (s.encryptedBodies sealing keys .pipeClosed).any fun body =>
    match body.2 with
    | .ok (.pipeClosed closed) => closed.pipeId == pipeId
    | .ok _ => false
    | .error _ => true

def sharedHash : Content → Option HashRef
  | .fileShared f => some f.blobHash
  | _ => none

/-- The blob hashes referenced by a readable `file.shared`. -/
def fileSharedHashes : OrdSet HashRef :=
  OrdSet.extend
    (OrdSet.ofList ((s.byType .fileShared).filterMap fun row => sharedHash row.event.event.content))
    ((s.encryptedBodies sealing keys .fileShared).filterMap fun body => body.2.toOption.bind sharedHash)

end EventStore

end Definitions

/-! ### What the scans compute -/

variable {sealing : Sealing} {keys : EpochKeyStore}

namespace EventStore

variable {s : EventStore env room}

theorem mem_byType {ty : EventType} {row : Row env room} :
    row ∈ s.byType ty ↔ row ∈ s.rows.values ∧ row.event.event.eventType = ty := by
  rw [byType, List.mem_insertionSort, List.mem_filter]
  simp

theorem byType_sorted (ty : EventType) : (s.byType ty).Pairwise fun a b => a.key ≤ b.key :=
  List.pairwise_insertionSort _ _

theorem mem_roomTail {row : Row env room} : row ∈ s.roomTail ↔
    s.rows.get? row.event.eventId = some row ∧ row.lamport.isSome = true := by
  rw [roomTail, List.mem_insertionSort, List.mem_filter, OrdMap.mem_values]
  refine and_congr_left fun _ => ⟨fun hrow => ?_, fun hrow => ⟨_, hrow⟩⟩
  obtain ⟨id, hid⟩ := hrow
  rw [s.keyed id row hid]
  exact hid

variable (sealing keys) in
/-- A stored row whose body this node reads as `content`. -/
def Reads (s : EventStore env room) (row : Row env room) (content : Content) : Prop :=
  row ∈ s.rows.values ∧ readContent sealing keys row.event.event = .ok content

theorem readContent_plain {event : SignedEvent} (h : ∀ c, event.content ≠ .encrypted c) :
    readContent sealing keys event = .ok event.content := by
  unfold readContent
  split
  · rename_i c hc
    exact absurd hc (h c)
  · rfl

/-- A body is read from a row of its own type, or from an envelope that announces it. -/
theorem readContent_ok {event : SignedEvent} {content : Content} (h : readContent sealing keys event = .ok content) :
    event.content = content ∨
      ∃ c, event.content = .encrypted c ∧ content.eventType = c.innerType ∧ keys.get c.keyEpoch ≠ none := by
  unfold readContent at h
  split at h
  · rename_i c hc
    split_ifs at h
    split at h
    · cases h
    · rename_i key hkey
      obtain ⟨⟨c', hc', hty⟩, -⟩ := openEncryptedContent_ok h
      rw [hc] at hc'
      cases hc'
      exact Or.inr ⟨c, hc, hty, by simp [hkey]⟩
  · cases h
    exact Or.inl rfl

theorem mem_encryptedBodies {inner : EventType} {body : OrderKey × Except UnreadableReason Content} :
    body ∈ s.encryptedBodies sealing keys inner ↔ ∃ row ∈ s.rows.values, ∃ c,
      row.event.event.content = .encrypted c ∧ c.innerType = inner ∧
        body = (row.key, readContent sealing keys row.event.event) := by
  rw [encryptedBodies, List.mem_filterMap]
  constructor
  · intro ⟨row, hrow, hbody⟩
    split at hbody
    · rename_i c hc
      split_ifs at hbody with hinner
      exact ⟨row, (mem_byType.mp hrow).1, c, hc, hinner, (Option.some.inj hbody).symm⟩
    · cases hbody
  · intro ⟨row, hrow, c, hc, hinner, hbody⟩
    have hty : row.event.event.eventType = .contentEncrypted := by rw [← row.event.typed, hc]; rfl
    refine ⟨row, mem_byType.mpr ⟨hrow, hty⟩, ?_⟩
    simp only [hc, hinner, if_true, hbody]

/-- A body read from a row is seen by one of the two scans of its type. -/
theorem Reads.scanned {row : Row env room} {content : Content} (h : Reads sealing keys s row content) :
    (row ∈ s.byType content.eventType ∧ row.event.event.content = content) ∨
      (row.key, .ok content) ∈ s.encryptedBodies sealing keys content.eventType := by
  obtain ⟨hrow, hread⟩ := h
  rcases readContent_ok hread with hplain | ⟨c, hc, hty, -⟩
  · exact Or.inl ⟨mem_byType.mpr ⟨hrow, by rw [← row.event.typed, hplain]⟩, hplain⟩
  · exact Or.inr (mem_encryptedBodies.mpr ⟨row, hrow, c, hc, hty.symm, by rw [hread]⟩)

theorem Reads.of_plain {row : Row env room} {ty : EventType} {content : Content} (hrow : row ∈ s.byType ty)
    (hcontent : row.event.event.content = content) (hne : content.eventType ≠ .contentEncrypted) :
    Reads sealing keys s row content := by
  refine ⟨(mem_byType.mp hrow).1, ?_⟩
  rw [readContent_plain, hcontent]
  intro c hc
  rw [← hcontent, hc] at hne
  exact hne rfl

theorem Reads.of_body {ty : EventType} {key : OrderKey} {content : Content}
    (h : (key, .ok content) ∈ s.encryptedBodies sealing keys ty) :
    ∃ row, Reads sealing keys s row content ∧ row.key = key := by
  obtain ⟨row, hrow, c, -, -, hbody⟩ := mem_encryptedBodies.mp h
  obtain ⟨hkey, hread⟩ := Prod.mk.inj hbody
  exact ⟨row, ⟨hrow, hread.symm⟩, hkey.symm⟩

/-- A pipe is closed by any readable close for it, and by any close that does not open. -/
theorem pipeIsClosed_iff {pipeId : ShortId} : s.pipeIsClosed sealing keys pipeId = true ↔
    (∃ row c, Reads sealing keys s row (.pipeClosed c) ∧ c.pipeId = pipeId) ∨
      ∃ row ∈ s.rows.values, ∃ c reason, row.event.event.content = .encrypted c ∧ c.innerType = .pipeClosed ∧
        readContent sealing keys row.event.event = .error reason := by
  rw [pipeIsClosed, Bool.or_eq_true, List.any_eq_true, List.any_eq_true]
  constructor
  · intro h
    rcases h with ⟨row, hrow, hp⟩ | ⟨⟨key, body⟩, hbody, hp⟩
    · split at hp
      · rename_i closed hc
        exact Or.inl ⟨row, closed, Reads.of_plain hrow hc (by simp [Content.eventType]), by simpa using hp⟩
      · cases hp
    · dsimp only at hp
      split at hp
      · rename_i closed
        obtain ⟨row, hreads, -⟩ := Reads.of_body hbody
        exact Or.inl ⟨row, closed, hreads, by simpa using hp⟩
      · cases hp
      · rename_i reason
        obtain ⟨row, hrow, c, hc, hinner, heq⟩ := mem_encryptedBodies.mp hbody
        exact Or.inr ⟨row, hrow, c, reason, hc, hinner, (Prod.mk.inj heq).2.symm⟩
  · intro h
    rcases h with ⟨row, c, hreads, hp⟩ | ⟨row, hrow, c, reason, hc, hinner, hread⟩
    · rcases hreads.scanned with ⟨hrow, hcontent⟩ | hbody
      · exact Or.inl ⟨row, hrow, by simp [hcontent, hp]⟩
      · exact Or.inr ⟨_, hbody, by simp [hp]⟩
    · exact Or.inr ⟨_, mem_encryptedBodies.mpr ⟨row, hrow, c, hc, hinner, rfl⟩, by simp [hread]⟩

/-- The referenced hashes are those of the readable shares, whoever sent them. -/
theorem mem_fileSharedHashes {hash : HashRef} : hash ∈ s.fileSharedHashes sealing keys ↔
    ∃ row f, Reads sealing keys s row (.fileShared f) ∧ f.blobHash = hash := by
  have hshared : ∀ {content}, sharedHash content = some hash ↔ ∃ f, content = .fileShared f ∧ f.blobHash = hash := by
    intro content
    cases content <;> simp [sharedHash]
  rw [fileSharedHashes, OrdSet.mem_extend, OrdSet.mem_ofList, List.mem_filterMap, List.mem_filterMap]
  constructor
  · intro h
    rcases h with ⟨row, hrow, hp⟩ | ⟨⟨key, body⟩, hbody, hp⟩
    · obtain ⟨f, hf, hhash⟩ := hshared.mp hp
      exact ⟨row, f, Reads.of_plain hrow hf (by simp [Content.eventType]), hhash⟩
    · obtain ⟨content, hok, hc⟩ := Option.bind_eq_some_iff.mp hp
      obtain ⟨f, rfl, hhash⟩ := hshared.mp hc
      cases body with
      | error reason => cases hok
      | ok content' =>
        cases hok
        obtain ⟨row, hreads, -⟩ := Reads.of_body hbody
        exact ⟨row, f, hreads, hhash⟩
  · intro ⟨row, f, hreads, hhash⟩
    rcases hreads.scanned with ⟨hrow, hcontent⟩ | hbody
    · exact Or.inl ⟨row, hrow, by rw [hcontent]; exact hshared.mpr ⟨f, rfl, hhash⟩⟩
    · exact Or.inr ⟨_, hbody, hshared.mpr ⟨f, rfl, hhash⟩⟩

/-! ### The governing announcement -/

variable (sealing keys) in
/-- A stored row that announces the pipe as `opened`, readable here. -/
def Announces (s : EventStore env room) (pipeId : ShortId) (row : Row env room) (opened : PipeOpened) : Prop :=
  Reads sealing keys s row (.pipeOpened opened) ∧ opened.pipeId = pipeId

theorem row_eq_of_key {row row' : Row env room} (hrow : row ∈ s.rows.values) (hrow' : row' ∈ s.rows.values)
    (h : row.key = row'.key) : row = row' := by
  have hid : row.event.eventId = row'.event.eventId := congrArg (fun k => (ofLex (ofLex k).2).2) h
  obtain ⟨id, hget⟩ := OrdMap.mem_values.mp hrow
  obtain ⟨id', hget'⟩ := OrdMap.mem_values.mp hrow'
  rw [s.keyed id row hget, s.keyed id' row' hget'] at hid
  rw [hid, hget', Option.some.injEq] at hget
  exact hget.symm

/-- `best` is a candidate, if there is one, and no candidate sorts before it. -/
def Lowest (candidate : OrderKey → PipeOpened → Prop) (best : Option (OrderKey × PipeOpened)) : Prop :=
  (∀ k o, candidate k o → ∃ b, best = some b ∧ b.1 ≤ k) ∧ ∀ b, best = some b → candidate b.1 b.2

theorem Lowest.step {candidate : OrderKey → PipeOpened → Prop} {best : Option (OrderKey × PipeOpened)}
    (h : Lowest candidate best) (pipeId : ShortId) (body : OrderKey × Except UnreadableReason Content) :
    Lowest (fun k o => candidate k o ∨ (o.pipeId = pipeId ∧ body = (k, .ok (.pipeOpened o))))
      (governStep pipeId best body) := by
  obtain ⟨hall, hone⟩ := h
  obtain ⟨key, read⟩ := body
  by_cases hcand : ∃ o, read = .ok (.pipeOpened o) ∧ o.pipeId = pipeId
  · obtain ⟨o, rfl, ho⟩ := hcand
    have hnew : ∀ k (o' : PipeOpened), (o'.pipeId = pipeId ∧
        ((key, .ok (.pipeOpened o)) : OrderKey × Except UnreadableReason Content) = (k, .ok (.pipeOpened o'))) →
        k = key := by
      intro k o' hko
      exact (Prod.mk.inj hko.2).1.symm
    simp only [governStep, ho, if_true]
    cases best with
    | none =>
      refine ⟨fun k o' hk => ⟨_, rfl, ?_⟩, fun b hb => ?_⟩
      · rcases hk with hk | hk
        · obtain ⟨b, hb, -⟩ := hall k o' hk
          cases hb
        · exact (hnew k o' hk).ge
      · cases hb
        exact Or.inr ⟨ho, rfl⟩
    | some b₀ =>
      simp only
      split_ifs with hlt
      · refine ⟨fun k o' hk => ⟨_, rfl, ?_⟩, fun b hb => ?_⟩
        · rcases hk with hk | hk
          · obtain ⟨b, hb, hbk⟩ := hall k o' hk
            cases hb
            exact hlt.le.trans hbk
          · exact (hnew k o' hk).ge
        · cases hb
          exact Or.inr ⟨ho, rfl⟩
      · refine ⟨fun k o' hk => ⟨_, rfl, ?_⟩, fun b hb => Or.inl (hone b hb)⟩
        rcases hk with hk | hk
        · obtain ⟨b, hb, hbk⟩ := hall k o' hk
          cases hb
          exact hbk
        · rw [hnew k o' hk]
          exact not_lt.mp hlt
  · -- the body is unreadable, of another type or of another pipe: nothing changes
    have hsame : governStep pipeId best (key, read) = best := by
      unfold governStep
      split
      · rename_i o heq
        rw [if_neg fun ho => hcand ⟨o, heq, ho⟩]
      · rfl
    rw [hsame]
    refine ⟨fun k o hk => ?_, fun b hb => Or.inl (hone b hb)⟩
    rcases hk with hk | ⟨ho, hbody⟩
    · exact hall k o hk
    · exact absurd ⟨o, (Prod.mk.inj hbody).2, ho⟩ hcand

theorem Lowest.congr {candidate candidate' : OrderKey → PipeOpened → Prop} {best : Option (OrderKey × PipeOpened)}
    (h : Lowest candidate best) (hiff : ∀ k o, candidate k o ↔ candidate' k o) : Lowest candidate' best :=
  ⟨fun k o hk => h.1 k o ((hiff k o).mpr hk), fun b hb => (hiff b.1 b.2).mp (h.2 b hb)⟩

theorem foldl_governStep (pipeId : ShortId) (bodies : List (OrderKey × Except UnreadableReason Content))
    {candidate : OrderKey → PipeOpened → Prop} {best : Option (OrderKey × PipeOpened)} (h : Lowest candidate best) :
    Lowest (fun k o => candidate k o ∨ (o.pipeId = pipeId ∧ (k, .ok (.pipeOpened o)) ∈ bodies))
      (bodies.foldl (governStep pipeId) best) := by
  induction bodies generalizing candidate best with
  | nil => exact h.congr fun k o => by simp
  | cons body bodies ih =>
    refine (ih (h.step pipeId body)).congr fun k o => ?_
    rw [List.mem_cons, or_assoc, ← and_or_left, @eq_comm _ body]

theorem openedFor_eq_some {pipeId : ShortId} {row : Row env room} {b : OrderKey × PipeOpened} :
    openedFor pipeId row = some b ↔
      row.key = b.1 ∧ row.event.event.content = .pipeOpened b.2 ∧ b.2.pipeId = pipeId := by
  obtain ⟨k, o⟩ := b
  unfold openedFor
  split
  · rename_i opened hc
    rw [hc, Content.pipeOpened.injEq]
    constructor
    · intro h
      split_ifs at h with ho
      rw [Option.some.injEq, Prod.mk.injEq] at h
      exact ⟨h.1, h.2, h.2 ▸ ho⟩
    · intro ⟨hkey, heq, ho⟩
      rw [heq, if_pos ho, hkey]
  · rename_i hne
    constructor
    · intro h
      cases h
    · intro ⟨_, hc, _⟩
      exact absurd hc (hne o)

theorem lowest_plainOpened (pipeId : ShortId) :
    Lowest (fun k o => o.pipeId = pipeId ∧ ∃ row ∈ s.byType .pipeOpened, row.key = k ∧
      row.event.event.content = .pipeOpened o) (s.plainOpened pipeId) := by
  constructor
  · intro k o ⟨ho, row, hrow, hkey, hc⟩
    have hf : openedFor pipeId row = some (k, o) := openedFor_eq_some.mpr ⟨hkey, hc, ho⟩
    cases hfind : s.plainOpened pipeId with
    | none =>
      have hnone := List.findSome?_eq_none_iff.mp hfind row hrow
      rw [hf] at hnone
      cases hnone
    | some b =>
      obtain ⟨l₁, a, l₂, hsplit, ha, hbefore⟩ := List.findSome?_eq_some_iff.mp hfind
      have hsorted := byType_sorted (s := s) .pipeOpened
      rw [hsplit] at hsorted hrow
      refine ⟨b, rfl, ?_⟩
      rw [← (openedFor_eq_some.mp ha).1, ← hkey]
      rcases List.mem_append.mp hrow with hrow | hrow
      · rw [hbefore row hrow] at hf
        cases hf
      · rcases List.mem_cons.mp hrow with rfl | hrow
        · exact le_refl _
        · exact (List.pairwise_cons.mp (List.pairwise_append.mp hsorted).2.1).1 row hrow
  · intro b hb
    obtain ⟨row, hrow, hf⟩ := List.exists_of_findSome?_eq_some hb
    obtain ⟨hkey, hc, ho⟩ := openedFor_eq_some.mp hf
    exact ⟨ho, row, hrow, hkey, hc⟩

variable (sealing keys) in
theorem lowest_governing (pipeId : ShortId) :
    Lowest (fun k o => ∃ row, Announces sealing keys s pipeId row o ∧ row.key = k)
      ((s.encryptedBodies sealing keys .pipeOpened).foldl (governStep pipeId) (s.plainOpened pipeId)) := by
  refine (foldl_governStep pipeId (s.encryptedBodies sealing keys .pipeOpened)
    (lowest_plainOpened pipeId)).congr fun k o => ?_
  constructor
  · intro h
    rcases h with ⟨ho, row, hrow, hkey, hc⟩ | ⟨ho, hbody⟩
    · exact ⟨row, ⟨Reads.of_plain hrow hc (by simp [Content.eventType]), ho⟩, hkey⟩
    · obtain ⟨row, hreads, hkey⟩ := Reads.of_body hbody
      exact ⟨row, ⟨hreads, ho⟩, hkey⟩
  · intro ⟨row, ⟨hreads, ho⟩, hkey⟩
    rcases hreads.scanned with ⟨hrow, hc⟩ | hbody
    · exact Or.inl ⟨ho, row, hrow, hkey, hc⟩
    · exact Or.inr ⟨ho, hkey ▸ hbody⟩

/-- The governing announcement is the readable one that sorts first, over all senders. -/
theorem pipeOpened_eq_some {pipeId : ShortId} {opened : PipeOpened} :
    s.pipeOpened sealing keys pipeId = some opened ↔ ∃ row, Announces sealing keys s pipeId row opened ∧
      ∀ row' opened', Announces sealing keys s pipeId row' opened' → row.key ≤ row'.key := by
  have hlow := lowest_governing (s := s) sealing keys pipeId
  rw [pipeOpened, Option.map_eq_some_iff]
  constructor
  · intro ⟨b, hb, hopened⟩
    obtain ⟨row, hrow, hkey⟩ := hlow.2 b hb
    refine ⟨row, hopened ▸ hrow, fun row' o' h' => ?_⟩
    obtain ⟨b', hb', hle⟩ := hlow.1 row'.key o' ⟨row', h', rfl⟩
    rw [hb, Option.some.injEq] at hb'
    rw [hkey, hb']
    exact hle
  · intro ⟨row, hrow, hmin⟩
    obtain ⟨b, hb, hle⟩ := hlow.1 row.key opened ⟨row, hrow, rfl⟩
    obtain ⟨row', hrow', hkey'⟩ := hlow.2 b hb
    have hkey : row'.key = row.key := le_antisymm (hkey' ▸ hle) (hmin row' b.2 hrow')
    have heq := row_eq_of_key hrow'.1.1 hrow.1.1 hkey
    have hbody := hrow'.1.2
    rw [heq, hrow.1.2] at hbody
    cases hbody
    exact ⟨b, hb, rfl⟩

end EventStore

end IrohRooms
