import IrohRooms.Lib.Batching
import IrohRooms.Sync.Message
import IrohRooms.Sync.Serve

/-!
# Emission of events

Frames are sent in batches whose estimated size stays within the transport's cap. The estimate is an allowance for the
envelope and one for the head of each frame; both bound the encoder's own output, so a batch of several frames always
fits, and a frame that fits alone is never sent in a message that does not. The frames are bytes here, and the batches
of the engine's answers are those of the bytes its frames stand for.
-/

namespace IrohRooms

open Cbor

namespace Cbor

/-! ### Lengths -/

theorem length_writeHead_le (major : Nat) {arg : Nat} (h : arg < 2 ^ 32) : (writeHead major arg).length ≤ 5 := by
  unfold writeHead
  dsimp only
  split_ifs
  all_goals
    simp only [List.length_cons, List.length_nil, length_beBytes]
    omega

theorem length_encode_bytes_le {b : Bytes} (h : b.length < 2 ^ 32) : (encode (.bytes b)).length ≤ b.length + 5 := by
  have hle : lenArg b.length ≤ b.length := Nat.min_le_left _ _
  have hhead := length_writeHead_le 2 (lt_of_le_of_lt hle h)
  rw [encode, List.length_append]
  omega

/-- The length of a map does not depend on the order of its entries. -/
theorem length_encode_map (entries : List (String × CborValue)) : (encode (.map entries)).length =
    (writeHead 5 (lenArg entries.length)).length +
      (entries.map fun e => (encodedKey e.1).length + (encode e.2).length).sum := by
  have hperm : (sortEntries (encodeEntries entries)).Perm (encodeEntries entries) := List.perm_insertionSort _ _
  have hsum := (hperm.map fun e => e.1.length + e.2.length).sum_eq
  rw [encodeEntries_eq, List.map_map] at hsum
  rw [encode, List.length_append, List.length_flatMap]
  simp only [List.length_append]
  rw [encodeEntries_eq, hsum]
  rfl

end Cbor

namespace Wire

open SyncEngine (maxFrameBytes eventsEnvelopeAllowance eventsPerFrameOverhead)

/-- A message on its way; `fanout` marks the push of a freshly accepted event. -/
structure Outgoing where
  peer : PeerId
  msg : SyncMessage
  fanout : Bool

def toPeer (peer : PeerId) (msg : SyncMessage) : Outgoing := ⟨peer, msg, false⟩

/-- The loop over the frames, with the open batch and its estimated cost. -/
def emitLoop (room : RoomId) (peer : PeerId) : List Bytes → List Bytes → Nat → List Outgoing
  | [], batch, _ => if batch.isEmpty then [] else [toPeer peer (.events room batch)]
  | frame :: frames, batch, batchCost =>
    let cost := frame.length + eventsPerFrameOverhead
    if !batch.isEmpty && decide (batchCost + cost > maxFrameBytes - eventsEnvelopeAllowance)
    then toPeer peer (.events room batch) :: emitLoop room peer frames [frame] cost
    else emitLoop room peer frames (batch ++ [frame]) (batchCost + cost)

def emitEvents (room : RoomId) (peer : PeerId) (frames : List Bytes) : List Outgoing := emitLoop room peer frames [] 0

/-- The estimated cost of a frame in a batch. -/
def frameCost (frame : Bytes) : Nat := frame.length + eventsPerFrameOverhead

/-- What the cost of a batch may come to. -/
def batchBudget : Nat := maxFrameBytes - eventsEnvelopeAllowance

/-- The batches `emitEvents` sends. -/
def batches (frames : List Bytes) : List (List Bytes) := Batching.cut frameCost batchBudget frames []

/-- The running cost is that of the open batch. -/
theorem emitLoop_eq (room : RoomId) (peer : PeerId) (frames batch : List Bytes) :
    emitLoop room peer frames batch (Batching.total frameCost batch) =
      (Batching.cut frameCost batchBudget frames batch).map fun b => toPeer peer (.events room b) := by
  induction frames generalizing batch with
  | nil =>
    unfold emitLoop Batching.cut
    split_ifs <;> rfl
  | cons frame frames ih =>
    have hone : frameCost frame = Batching.total frameCost [frame] := by simp [Batching.total]
    unfold emitLoop Batching.cut
    dsimp only
    rw [← frameCost, ← batchBudget]
    split_ifs
    · rw [List.map_cons, hone, ih]
    · rw [← ih, Batching.total_append, ← hone]

theorem emitEvents_eq (room : RoomId) (peer : PeerId) (frames : List Bytes) :
    emitEvents room peer frames = (batches frames).map fun b => toPeer peer (.events room b) :=
  emitLoop_eq room peer frames []

/-! ### The size of a batch -/

/-- The envelope of a plain batch: the map head, the tag, the room and the name of the frames. -/
theorem length_encode_events (room : RoomId) (frames : List Bytes) :
    (SyncMessage.events room frames).encode.length = 59 + (encode (bytesArray frames)).length := by
  have hkey : (encode (keyValue room)).length = 34 := by
    show (writeHead 2 (lenArg (beBytes 32 room.num).length) ++ beBytes 32 room.num).length = 34
    rw [List.length_append, length_beBytes]
    rfl
  have htype : (encodedKey "type").length + (encode (.text "events")).length = 12 := by decide
  have hname : (encodedKey "room").length = 5 ∧ (encodedKey "frames").length = 7 := by decide
  have hhead : (writeHead 5 (lenArg 3)).length = 1 := by decide
  rw [SyncMessage.encode, length_encode_map]
  simp only [SyncMessage.entries, tag, roomField, List.map_cons, List.map_nil, List.sum_cons, List.sum_nil,
    List.length_cons, List.length_nil, Nat.zero_add, Nat.reduceAdd]
  omega

theorem length_le_total {frames : List Bytes} {frame : Bytes} (h : frame ∈ frames) :
    frameCost frame ≤ Batching.total frameCost frames :=
  List.single_le_sum (fun _ _ => Nat.zero_le _) _ (List.mem_map_of_mem h)

theorem length_mul_le_total (frames : List Bytes) :
    frames.length * eventsPerFrameOverhead ≤ Batching.total frameCost frames := by
  induction frames with
  | nil => simp
  | cons frame frames ih =>
    simp only [Batching.total, List.map_cons, List.sum_cons, List.length_cons, frameCost, Nat.add_mul] at ih ⊢
    omega

/-- The encoded items cost at most their estimate. -/
theorem length_encodeItems_le {frames : List Bytes} (h : ∀ frame ∈ frames, frame.length < 2 ^ 32) :
    ((frames.map CborValue.bytes).flatMap encode).length ≤ Batching.total frameCost frames := by
  induction frames with
  | nil => simp
  | cons frame frames ih =>
    have hframe := length_encode_bytes_le (h frame List.mem_cons_self)
    have hrest := ih fun f hf => h f (List.mem_cons_of_mem _ hf)
    simp only [Batching.total, List.map_cons, List.sum_cons, frameCost, eventsPerFrameOverhead, List.flatMap_cons,
      List.length_append] at hrest ⊢
    omega

/-- A batch within the budget encodes within the cap. -/
theorem length_events_le {room : RoomId} {frames : List Bytes} (h : Batching.total frameCost frames ≤ batchBudget) :
    (SyncMessage.events room frames).encode.length ≤ maxFrameBytes := by
  have hbudget : batchBudget = 1048448 := rfl
  have hmax : maxFrameBytes = 1048576 := rfl
  have hcount := length_mul_le_total frames
  rw [show eventsPerFrameOverhead = 5 from rfl] at hcount
  have hsmall : ∀ frame ∈ frames, frame.length < 2 ^ 32 := by
    intro frame hframe
    have hle : frame.length + 5 ≤ _ := length_le_total hframe
    omega
  have hitems := length_encodeItems_le hsmall
  have hcount : lenArg (frames.map CborValue.bytes).length < 2 ^ 32 := by
    rw [List.length_map]
    have hle : lenArg frames.length ≤ frames.length := Nat.min_le_left _ _
    omega
  have hhead := length_writeHead_le 4 hcount
  rw [length_encode_events, bytesArray, encode, encodeItems_eq, List.length_append]
  omega

/-- Events are emitted in messages that are never empty and hold the frames in order; a message of several frames keeps
to the cap, and every message does if each frame does alone. -/
theorem emitEvents_lossless (room : RoomId) (peer : PeerId) (frames : List Bytes) : ∃ batches : List (List Bytes),
    emitEvents room peer frames = (batches.map fun batch => toPeer peer (.events room batch)) ∧
    (∀ batch ∈ batches, batch ≠ []) ∧ batches.flatten = frames ∧
    (∀ batch ∈ batches, 1 < batch.length → (SyncMessage.events room batch).encode.length ≤ maxFrameBytes) ∧
    ((∀ frame ∈ frames, (SyncMessage.events room [frame]).encode.length ≤ maxFrameBytes) →
      ∀ batch ∈ batches, (SyncMessage.events room batch).encode.length ≤ maxFrameBytes) := by
  have hflatten : (batches frames).flatten = frames := Batching.flatten_cut frames []
  have hseveral : ∀ batch ∈ batches frames, 1 < batch.length →
      (SyncMessage.events room batch).encode.length ≤ maxFrameBytes := by
    intro batch hbatch hlong
    rcases Batching.fits_of_mem_cut Batching.fits_nil hbatch with hshort | hfits
    · omega
    · exact length_events_le hfits
  refine ⟨batches frames, emitEvents_eq room peer frames, fun _ => Batching.ne_nil_of_mem_cut, hflatten, hseveral, ?_⟩
  intro halone batch hbatch
  by_cases hlong : 1 < batch.length
  · exact hseveral batch hbatch hlong
  · obtain ⟨frame, rfl⟩ : ∃ frame, batch = [frame] := by
      rw [← List.length_eq_one_iff]
      have hne := List.length_pos_of_ne_nil (Batching.ne_nil_of_mem_cut hbatch)
      omega
    refine halone frame ?_
    rw [← hflatten]
    exact List.mem_flatten.mpr ⟨[frame], hbatch, List.mem_singleton.mpr rfl⟩

end Wire

/-! ### The engine's messages -/

/-- The epochs of a set, at their width on the wire. -/
def wireEpochs (epochs : OrdSet Nat) : OrdSet (Fin (2 ^ 64)) :=
  OrdSet.ofList (epochs.toList.map fun n => ⟨n % 2 ^ 64, Nat.mod_lt n (by decide)⟩)

namespace RoomMessage

variable (bytes : Frame → Bytes)

/-- A message of the engine as it is written, each frame by the bytes it stands for. -/
def toWire (m : RoomMessage) : Wire.SyncMessage :=
  match m.body with
  | .adminTip tip => .adminTip m.roomId (tip.map fun t => (t.1, UInt64.ofNat t.2))
  | .heads heads => .heads m.roomId heads
  | .wantEvents ids => .wantEvents m.roomId ids
  | .wantMembership held => .wantMembership m.roomId held
  | .wantRecentChat window held =>
    .wantRecentChat m.roomId ⟨UInt32.ofNat window.maxCount, window.sinceMs.map UInt64.ofNat⟩ held
  | .events frames => .events m.roomId (frames.map bytes)
  | .terminalEvents frames ids nonce => .terminalEvents m.roomId (frames.map bytes) ids nonce
  | .eventsConfirmed ids nonce => .eventsConfirmed m.roomId ids nonce
  | .notFound ids => .notFound m.roomId ids
  | .proveCapability inviteId capabilitySecret => .proveCapability m.roomId inviteId capabilitySecret
  | .wantKeyHistory haveEpochs => .wantKeyHistory m.roomId (wireEpochs haveEpochs)
  | .keyHistory chunks => .keyHistory m.roomId
      (chunks.map fun c => ⟨c.distributionEventId, UInt64.ofNat c.epoch, c.keyCommitment, c.wrappedKeys⟩)

end RoomMessage

def Outgoing.toWire (bytes : Frame → Bytes) (o : Outgoing) : Wire.Outgoing := ⟨o.peer, o.msg.toWire bytes, o.fanout⟩

namespace SyncEngine

/-- The engine's batches are those of the bytes, when its frames have the lengths of their bytes. -/
theorem batchFrames_bytes {bytes : Frame → Bytes} (room : RoomId) (peer : PeerId) {frames : List Frame}
    (h : ∀ f ∈ frames, (bytes f).length = f.frameLen) (batch : List Frame) (batchCost : Nat) :
    Wire.emitLoop room peer (frames.map bytes) (batch.map bytes) batchCost =
      ((batchFrames frames batch batchCost).map fun batch => toPeer room peer (.events batch)).map
        (Outgoing.toWire bytes) := by
  induction frames generalizing batch batchCost with
  | nil =>
    rw [List.map_nil]
    unfold Wire.emitLoop batchFrames
    rw [List.isEmpty_map]
    split_ifs <;> rfl
  | cons f frames ih =>
    have hlen := h f List.mem_cons_self
    have hrest : ∀ f ∈ frames, (bytes f).length = f.frameLen := fun f hf => h f (List.mem_cons_of_mem _ hf)
    rw [List.map_cons]
    unfold Wire.emitLoop batchFrames
    dsimp only
    rw [hlen, List.isEmpty_map]
    split_ifs
    · rw [List.map_cons, List.map_cons, ← ih hrest]
      rfl
    · rw [← ih hrest, List.map_append]
      rfl

theorem emitEvents_bytes {bytes : Frame → Bytes} (room : RoomId) (peer : PeerId) {frames : List Frame}
    (h : ∀ f ∈ frames, (bytes f).length = f.frameLen) :
    Wire.emitEvents room peer (frames.map bytes) = (emitEvents room peer frames).map (Outgoing.toWire bytes) :=
  batchFrames_bytes room peer h [] 0

end SyncEngine

end IrohRooms
