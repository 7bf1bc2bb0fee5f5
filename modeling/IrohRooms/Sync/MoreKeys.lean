import IrohRooms.Store.Rebuild
import IrohRooms.Sync.Reads

/-!
# Reading with more keys

Two nodes over one store, the second holding every epoch key of the first. A body the first reads, the second reads
the same, so its shares and announcements are among the second's. Closes go the other way: an envelope that the
first cannot open closes every pipe, hence a pipe the first sees unclosed has no such envelope in the store, and the
two nodes read the same closes.
-/

namespace IrohRooms

section Contained

variable {env : Env} {room : RoomId} {sealing : Sealing} {keys keys' : EpochKeyStore}

namespace EpochKeyStore

/-- Every key of the first set is in the second, for the same epoch. -/
def Contained (keys keys' : EpochKeyStore) : Prop :=
  ∀ epoch key, keys.get epoch = some key → keys'.get epoch = some key

theorem isPoisoned_of_get {ks : EpochKeyStore} {epoch : Nat} {key : RoomKey} (h : ks.get epoch = some key) :
    ks.isPoisoned epoch = false := by
  rw [← Bool.not_eq_true]
  intro hp
  rw [get_eq_none_of_isPoisoned hp] at h
  cases h

end EpochKeyStore

/-- An envelope whose epoch key is held is opened with it. -/
theorem readContent_encrypted {event : SignedEvent} {c : EncryptedContent} {key : RoomKey}
    (hc : event.content = .encrypted c) (hkey : keys.get c.keyEpoch = some key) :
    readContent sealing keys event = openEncryptedContent sealing event key := by
  simp only [readContent, hc, EpochKeyStore.isPoisoned_of_get hkey, hkey, Bool.false_eq_true, if_false]

namespace EpochKeyStore.Contained

variable {s : EventStore env room} (h : Contained keys keys')
include h

theorem readContent {event : SignedEvent} {content : Content} (hread : readContent sealing keys event = .ok content) :
    IrohRooms.readContent sealing keys' event = .ok content := by
  by_cases hplain : ∀ c, event.content ≠ .encrypted c
  · rw [EventStore.readContent_plain hplain] at hread ⊢
    exact hread
  · push Not at hplain
    obtain ⟨c, hc⟩ := hplain
    cases hget : keys.get c.keyEpoch with
    | none =>
      simp only [IrohRooms.readContent, hc, hget] at hread
      split_ifs at hread
    | some key =>
      rw [readContent_encrypted hc (h _ _ hget), ← readContent_encrypted hc hget]
      exact hread

theorem reads {row : Row env room} {content : Content} (hreads : EventStore.Reads sealing keys s row content) :
    EventStore.Reads sealing keys' s row content :=
  ⟨hreads.1, h.readContent hreads.2⟩

theorem announces {pipeId : ShortId} {row : Row env room} {opened : PipeOpened}
    (ha : EventStore.Announces sealing keys s pipeId row opened) :
    EventStore.Announces sealing keys' s pipeId row opened :=
  ⟨h.reads ha.1, ha.2⟩

end EpochKeyStore.Contained

namespace EventStore

variable {s : EventStore env room} {pipeId : ShortId}

theorem fileSharedHashes_mono (h : keys.Contained keys') {hash : HashRef}
    (hmem : hash ∈ s.fileSharedHashes sealing keys) : hash ∈ s.fileSharedHashes sealing keys' := by
  obtain ⟨row, f, hreads, hhash⟩ := mem_fileSharedHashes.mp hmem
  exact mem_fileSharedHashes.mpr ⟨row, f, h.reads hreads, hhash⟩

/-- With no close in sight, every close envelope opens, and so it does with more keys. -/
theorem unclosed_mono (h : keys.Contained keys') (hopen : s.pipeIsClosed sealing keys pipeId = false) :
    s.pipeIsClosed sealing keys' pipeId = false := by
  rw [← Bool.not_eq_true, pipeIsClosed_iff] at hopen ⊢
  push Not at hopen
  obtain ⟨hnone, hreadable⟩ := hopen
  have hboth : ∀ row ∈ s.rows.values, ∀ c, row.event.event.content = .encrypted c → c.innerType = .pipeClosed →
      readContent sealing keys' row.event.event = readContent sealing keys row.event.event := by
    intro row hrow c hc hinner
    cases hread : readContent sealing keys row.event.event with
    | error reason => exact absurd hread (hreadable row hrow c reason hc hinner)
    | ok content => exact h.readContent hread
  intro hclosed
  rcases hclosed with ⟨row, c, hreads, hid⟩ | ⟨row, hrow, c, reason, hc, hinner, hread⟩
  · refine hnone row c ⟨hreads.1, ?_⟩ hid
    rcases readContent_ok hreads.2 with hplain | ⟨env, henv, hty, -⟩
    · rw [readContent_plain (by simp [hplain]), hplain]
    · rw [← hboth row hreads.1 env henv hty.symm]
      exact hreads.2
  · rw [hboth row hrow c hc hinner] at hread
    exact hreadable row hrow c reason hc hinner hread

theorem pipeOpened_isSome_iff :
    (s.pipeOpened sealing keys pipeId).isSome ↔ ∃ row opened, Announces sealing keys s pipeId row opened := by
  constructor
  · intro hsome
    obtain ⟨opened, ho⟩ := Option.isSome_iff_exists.mp hsome
    obtain ⟨row, ha, -⟩ := pipeOpened_eq_some.mp ho
    exact ⟨row, opened, ha⟩
  · intro ⟨row, opened, ha⟩
    obtain ⟨b, hb, -⟩ := (lowest_governing (s := s) sealing keys pipeId).1 row.key opened ⟨row, ha, rfl⟩
    rw [pipeOpened, hb]
    rfl

/-- With one announcement in the store, more keys do not change which one governs. -/
theorem pipeOpened_of_unique (h : keys.Contained keys') {opened : PipeOpened}
    (honce : ∀ row row' o o', Announces sealing keys' s pipeId row o → Announces sealing keys' s pipeId row' o' →
      row = row') (ho : s.pipeOpened sealing keys pipeId = some opened) :
    s.pipeOpened sealing keys' pipeId = some opened := by
  obtain ⟨row, ha, -⟩ := pipeOpened_eq_some.mp ho
  refine pipeOpened_eq_some.mpr ⟨row, h.announces ha, fun row' o' ha' => ?_⟩
  rw [honce row row' opened o' (h.announces ha) ha']

/-- Whoever holds more keys over the same store serves every hash that a holder of fewer serves, sees open and
unclosed every pipe that the other does, and under the same announcement unless it reads a second one. -/
theorem reads_monotone (s : EventStore env room) (sealing : Sealing) (keys keys' : EpochKeyStore)
    (h : keys.Contained keys') :
    (∀ hash ∈ s.fileSharedHashes sealing keys, hash ∈ s.fileSharedHashes sealing keys') ∧
    ∀ pipeId opened, s.pipeOpened sealing keys pipeId = some opened → s.pipeIsClosed sealing keys pipeId = false →
      (s.pipeOpened sealing keys' pipeId).isSome ∧ s.pipeIsClosed sealing keys' pipeId = false ∧
      ((∀ row row' o o', Announces sealing keys' s pipeId row o → Announces sealing keys' s pipeId row' o' →
        row = row') → s.pipeOpened sealing keys' pipeId = some opened) := by
  refine ⟨fun hash hmem => fileSharedHashes_mono h hmem, fun pipeId opened ho hunclosed => ?_⟩
  refine ⟨?_, unclosed_mono h hunclosed, fun honce => pipeOpened_of_unique h honce ho⟩
  obtain ⟨row, o, ha⟩ := pipeOpened_isSome_iff.mp (Option.isSome_of_eq_some ho)
  exact pipeOpened_isSome_iff.mpr ⟨row, o, h.announces ha⟩

end EventStore

end Contained

namespace Toy

/-- An AEAD that prepends the key to the body, with one-byte bodies. -/
def vault : Sealing where
  openContent _ key _ ciphertext _ :=
    if ciphertext.head? = some (UInt8.ofNat key.toNat) then .ok ciphertext.tail else .error .authentication
  unwrapRoomKey _ _ _ _ := none
  roomKeyCommitment _ _ _ := 0
  aadFor _ := []
  parseBody ty bytes :=
    match ty with
    | .pipeOpened => .ok (.pipeOpened ⟨BitVec.ofNat 128 (bytes.headD 0).toNat, identity 1, device 1, "tcp", "web",
        "localhost:3000", "/iroh-rooms/pipe/1", [identity 2], none⟩)
    | .fileShared => .ok (.fileShared ⟨1, "notes.txt", "text/plain", 12, Bytes32.ofNat (bytes.headD 0).toNat, none, none⟩)
    | _ => .error .innerInvalid
  parseBody_type := by
    intro ty bytes content h
    split at h
    all_goals cases h
    all_goals rfl

/-- The admin's envelope around body `n`, sealed with key `key` of epoch `epoch`. -/
def envelope (inner : EventType) (epoch key n : Nat) (prev : List Nat) : SignedEvent :=
  buildEvent toyEnv (idSeed 1) (devSeed 1) room
    (.encrypted ⟨inner, epoch, 1, 0, [UInt8.ofNat key, UInt8.ofNat n]⟩) (prev.map Bytes32.ofNat) 109

/-- Pipe 7 is announced in epoch 1, pipe 8 and a file in epoch 2. -/
def sealedRoom : EventStore toyEnv room :=
  .insertAll (log [(1, genesis), (2, envelope .pipeOpened 1 11 7 [1]), (3, envelope .pipeOpened 2 12 8 [2]),
    (4, envelope .fileShared 2 12 9 [3])])

def fewKeys : EpochKeyStore := (EpochKeyStore.empty.insert 1 11 (Bytes32.ofNat 1)).1

def moreKeys : EpochKeyStore := (fewKeys.insert 2 12 (Bytes32.ofNat 1)).1

def announces (keys : EpochKeyStore) (row : Row toyEnv room) : Bool :=
  match readContent vault keys row.event.event with
  | .ok (.pipeOpened o) => o.pipeId == 7
  | _ => false

theorem announces_of {s : EventStore toyEnv room} {keys : EpochKeyStore} {row : Row toyEnv room} {o : PipeOpened}
    (h : EventStore.Announces vault keys s 7 row o) : announces keys row = true := by
  simp only [announces, h.1.2, h.2, beq_self_eq_true]

theorem fewKeys_contained : fewKeys.Contained moreKeys := by
  intro epoch key hget
  by_cases hlater : epoch = 2
  · subst hlater
    cases hget
  · rw [← hget]
    simp only [EpochKeyStore.get, EpochKeyStore.getWithSource]
    exact congrArg _ (by rw [show moreKeys.epochs = fewKeys.epochs.insert 2 (.key 12 (Bytes32.ofNat 1)) from rfl,
      OrdMap.get?_insert_of_ne _ _ hlater])

end Toy

namespace EventStore

/-- The holder of epoch 1 alone sees pipe 7, and so does the holder of both epochs. -/
theorem reads_monotone_two_epochs :
    Toy.sealedRoom.pipeOpened Toy.vault Toy.fewKeys 7 ≠ none ∧
    Toy.sealedRoom.pipeOpened Toy.vault Toy.moreKeys 7 = Toy.sealedRoom.pipeOpened Toy.vault Toy.fewKeys 7 ∧
    Toy.sealedRoom.pipeIsClosed Toy.vault Toy.moreKeys 7 = false := by
  have hopen : (Toy.sealedRoom.pipeOpened Toy.vault Toy.fewKeys 7).isSome = true := by decide +kernel
  obtain ⟨opened, ho⟩ := Option.isSome_iff_exists.mp hopen
  obtain ⟨-, hpipes⟩ := reads_monotone Toy.sealedRoom Toy.vault Toy.fewKeys Toy.moreKeys Toy.fewKeys_contained
  obtain ⟨-, hunclosed, hsame⟩ := hpipes 7 opened ho (by decide +kernel)
  refine ⟨Option.isSome_iff_ne_none.mp hopen, ?_, hunclosed⟩
  rw [ho]
  apply hsame
  intro row row' o o' ha ha'
  have hone : ∀ row ∈ Toy.sealedRoom.rows.values, ∀ row' ∈ Toy.sealedRoom.rows.values,
      Toy.announces Toy.moreKeys row = true → Toy.announces Toy.moreKeys row' = true → row.key = row'.key := by
    decide +kernel
  exact row_eq_of_key ha.1.1 ha'.1.1
    (hone row ha.1.1 row' ha'.1.1 (Toy.announces_of ha) (Toy.announces_of ha'))

end EventStore

end IrohRooms
