import IrohRooms.Lib.Framing
import IrohRooms.Net.Queue
import IrohRooms.Sync.Emission
import IrohRooms.Sync.Provenance
import IrohRooms.Sync.Pulls

/-!
# The byte stream of a link

A link carries message bodies as frames: four bytes of length, then the body. The writer drops a body that exceeds the
cap before it writes anything of it, so the stream stays in frames. The reader hands every whole body to the inbound
queue and stops at the first frame that is cut short, declares too much, or finds the queue full. The stream is the list
of the bytes that arrive; a failed read or write is a stream that ends early.
-/

namespace IrohRooms

open Cbor

namespace Stream

def maxFrameBytes : Nat := 1024 * 1024

def prefixLen : Nat := 4

inductive FrameError
  | oversized (declared : Nat)
  | truncated
  deriving DecidableEq, Repr

/-- The bytes of one frame. -/
def writeFrame (body : Bytes) : Except FrameError Bytes :=
  if body.length > u32Max then .error (.oversized u32Max)
  else if body.length > maxFrameBytes then .error (.oversized body.length)
  else .ok (beBytes prefixLen body.length ++ body)

/-- The body of the next frame and the bytes after it; `none` at the end of the stream. -/
def readFrame (stream : Bytes) : Except FrameError (Option (Bytes × Bytes)) :=
  if stream = [] then .ok none
  else if stream.length < prefixLen then .error .truncated
  else
    let len := fromBeBytes (stream.take prefixLen)
    if len > maxFrameBytes then .error (.oversized len)
    else if (stream.drop prefixLen).length < len then .error .truncated
    else .ok (some ((stream.drop prefixLen).take len, (stream.drop prefixLen).drop len))

/-- What the writer puts on the stream for the bodies it takes from the queue. -/
def writerTask : List Bytes → Bytes
  | [] => []
  | body :: bodies =>
    match writeFrame body with
    | .ok framed => framed ++ writerTask bodies
    -- an oversized body is dropped, and the stream kept
    | .error _ => writerTask bodies

end Stream

namespace QueueState

def tryEnqueueInbound (s : QueueState) (peer : PeerId) (bytes : Bytes) : QueueState × Except PushError Unit :=
  s.tryPush peer bytes (classifyInboundBytes bytes)

theorem tryEnqueueInbound_empty (s : QueueState) (peer : PeerId) (bytes : Bytes) :
    (s.tryEnqueueInbound peer bytes).2 = .error .empty ↔ bytes = [] := by
  unfold tryEnqueueInbound tryPush tryPushLedger
  split_ifs with hempty
  · simp [hempty]
  · simp [hempty]
  · dsimp only
    split
    · simp [hempty]
    · simp [hempty]

end QueueState

namespace Stream

/-- Four bytes for lengths up to the cap. -/
def framing : LengthFraming UInt8 where
  width := prefixLen
  cap := maxFrameBytes
  head n := beBytes prefixLen n
  value := fromBeBytes
  width_pos := by decide
  length_head n := length_beBytes prefixLen n
  value_head n hn := by
    have hcap : maxFrameBytes = 1048576 := rfl
    rw [fromBeBytes_beBytes, Nat.mod_eq_of_lt]
    show n < 256 ^ 4
    omega
  head_value h hlen _ := by
    rw [← hlen]
    exact beBytes_fromBeBytes h

theorem writeFrame_eq (body : Bytes) : writeFrame body = if body.length ≤ maxFrameBytes then .ok (framing.frame body)
    else .error (.oversized (min body.length u32Max)) := by
  have hcap : maxFrameBytes = 1048576 := rfl
  have hmax : u32Max = 4294967295 := rfl
  unfold writeFrame
  split_ifs
  · omega
  · rw [Nat.min_eq_right (by omega)]
  · omega
  · rw [Nat.min_eq_left (by omega)]
  · rfl
  · omega

/-- The writer's stream is the frames of the bodies within the cap. -/
theorem writerTask_eq (bodies : List Bytes) :
    writerTask bodies = framing.write (bodies.filter fun body => decide (body.length ≤ maxFrameBytes)) := by
  induction bodies with
  | nil => rfl
  | cons body bodies ih =>
    unfold writerTask
    rw [writeFrame_eq, List.filter_cons]
    by_cases hfits : body.length ≤ maxFrameBytes
    · simp [hfits, ih]
    · simp [hfits, ih]

/-- A turn of the reader, as it reports it. -/
def report : LengthFraming.Turn UInt8 → Except FrameError (Option (Bytes × Bytes))
  | .finished => .ok none
  | .item body rest => .ok (some (body, rest))
  | .truncated => .error .truncated
  | .oversized declared => .error (.oversized declared)

theorem next_eq (stream : Bytes) : framing.next stream =
    if stream = [] then .finished
    else if stream.length < prefixLen then .truncated
    else if fromBeBytes (stream.take prefixLen) > maxFrameBytes then .oversized (fromBeBytes (stream.take prefixLen))
    else if (stream.drop prefixLen).length < fromBeBytes (stream.take prefixLen) then .truncated
    else .item ((stream.drop prefixLen).take (fromBeBytes (stream.take prefixLen)))
      ((stream.drop prefixLen).drop (fromBeBytes (stream.take prefixLen))) := rfl

theorem readFrame_eq (stream : Bytes) : readFrame stream = report (framing.next stream) := by
  rw [next_eq, readFrame]
  dsimp only
  split_ifs <;> rfl

/-- Why a reader stops. -/
inductive ReaderExit
  | eof
  | frame (err : FrameError)
  | saturated
  | closed
  deriving DecidableEq, Repr

theorem next_of_readFrame {stream body rest : Bytes} (h : readFrame stream = .ok (some (body, rest))) :
    framing.next stream = .item body rest := by
  rw [readFrame_eq] at h
  cases hnext : framing.next stream with
  | item b r =>
    rw [hnext] at h
    obtain ⟨rfl, rfl⟩ := Prod.mk.inj (Option.some.inj (Except.ok.inj h))
    rfl
  | finished =>
    rw [hnext] at h
    cases h
  | truncated =>
    rw [hnext] at h
    cases h
  | oversized declared =>
    rw [hnext] at h
    cases h

theorem length_of_readFrame {stream body rest : Bytes} (h : readFrame stream = .ok (some (body, rest))) :
    rest.length < stream.length := framing.length_of_next (next_of_readFrame h)

/-- Where the reader finds no body, the stream ends. -/
theorem readAll_of_stop {stream : Bytes} (h : ∀ body rest, readFrame stream ≠ .ok (some (body, rest))) :
    ∃ ending, framing.readAll stream = ([], ending) ∧ readFrame stream = report ending.turn := by
  have hnone : ∀ body rest, framing.next stream ≠ .item body rest := by
    intro body rest hnext
    apply h body rest
    rw [readFrame_eq, hnext]
    rfl
  obtain ⟨ending, hleaves⟩ := framing.leaves_of_next hnone
  exact ⟨ending, framing.readAll_of_leaves hleaves, by rw [readFrame_eq, framing.next_of_leaves hleaves]⟩

/-- The bodies a reader hands over, and why it stops. The queue is in state `queues i` when the `i`-th body comes: the
other readers and the pump use it in between. -/
def readerTask (peer : PeerId) (queues : Nat → QueueState) (i : Nat) (stream : Bytes) : List Bytes × ReaderExit :=
  match _h : readFrame stream with
  | .ok none => ([], .eof)
  | .error err => ([], .frame err)
  | .ok (some (body, rest)) =>
    match ((queues i).tryEnqueueInbound peer body).2 with
    | .ok () => (body :: (readerTask peer queues (i + 1) rest).1, (readerTask peer queues (i + 1) rest).2)
    | .error .empty => readerTask peer queues (i + 1) rest
    | .error .saturated => ([], .saturated)
    | .error .closed => ([], .closed)
termination_by stream.length
decreasing_by all_goals exact length_of_readFrame _h

/-- The exit at the end of the stream. -/
def exitOf : LengthFraming.Ending → ReaderExit
  | .finished => .eof
  | .truncated => .frame .truncated
  | .oversized declared => .frame (.oversized declared)

/-- The reader stops at the queue or at the end of the stream, and hands over what is not empty until then. -/
theorem readerTask_readAll (peer : PeerId) (queues : Nat → QueueState) (i : Nat) (stream : Bytes) :
    (readerTask peer queues i stream).1 <+: (framing.readAll stream).1.filter (· ≠ []) ∧
      (((readerTask peer queues i stream).2 = .saturated ∨ (readerTask peer queues i stream).2 = .closed) ∨
        readerTask peer queues i stream =
          ((framing.readAll stream).1.filter (· ≠ []), exitOf (framing.readAll stream).2)) := by
  fun_induction readerTask peer queues i stream with
  | case1 i stream h =>
    have hstop : ∀ body rest, readFrame stream ≠ .ok (some (body, rest)) := by simp [h]
    obtain ⟨ending, hall, hreport⟩ := readAll_of_stop hstop
    rw [h] at hreport
    rw [hall]
    cases ending with
    | finished => exact ⟨List.prefix_refl _, Or.inr rfl⟩
    | truncated => cases hreport
    | oversized declared => cases hreport
  | case2 i stream err h =>
    have hstop : ∀ body rest, readFrame stream ≠ .ok (some (body, rest)) := by simp [h]
    obtain ⟨ending, hall, hreport⟩ := readAll_of_stop hstop
    rw [h] at hreport
    rw [hall]
    cases ending with
    | finished => cases hreport
    | truncated =>
      cases hreport
      exact ⟨List.prefix_refl _, Or.inr rfl⟩
    | oversized declared =>
      cases hreport
      exact ⟨List.prefix_refl _, Or.inr rfl⟩
  | case3 i stream body rest h hok ih =>
    have hne : body ≠ [] := by
      intro hnil
      rw [((queues i).tryEnqueueInbound_empty peer body).mpr hnil] at hok
      cases hok
    rw [framing.readAll_of_item (next_of_readFrame h), List.filter_cons_of_pos (by simpa using hne)]
    refine ⟨(List.prefix_cons_inj body).mpr ih.1, ?_⟩
    rcases ih.2 with hstop | hend
    · exact Or.inl hstop
    · right
      rw [hend]
  | case4 i stream body rest h hempty ih =>
    have hnil := ((queues i).tryEnqueueInbound_empty peer body).mp hempty
    rw [framing.readAll_of_item (next_of_readFrame h), List.filter_cons_of_neg (by simpa using hnil)]
    exact ih
  | case5 i stream body rest h hsat => exact ⟨List.nil_prefix, Or.inl (Or.inl rfl)⟩
  | case6 i stream body rest h hclosed => exact ⟨List.nil_prefix, Or.inl (Or.inr rfl)⟩

/-- Whatever bytes a peer sends, the reader hands over bodies that stand in the stream in full and in order, none above
the cap, and stops at the queue or where no further frame is whole. -/
theorem readerTask_exact (peer : PeerId) (queues : Nat → QueueState) (stream : Bytes) :
    ∃ bodies rest ending, stream = framing.write bodies ++ rest ∧ framing.Leaves rest ending ∧
      (∀ body ∈ bodies, body.length ≤ maxFrameBytes) ∧
      (readerTask peer queues 0 stream).1 <+: bodies.filter (· ≠ []) ∧
      (((readerTask peer queues 0 stream).2 = .saturated ∨ (readerTask peer queues 0 stream).2 = .closed) ∨
        (readerTask peer queues 0 stream).1 = bodies.filter (· ≠ []) ∧
          (readerTask peer queues 0 stream).2 = exitOf ending) := by
  obtain ⟨hcap, rest, hstream, hleaves⟩ := framing.readAll_iff.mp (Prod.mk.eta (p := framing.readAll stream)).symm
  obtain ⟨hshort, hexit⟩ := readerTask_readAll peer queues 0 stream
  refine ⟨_, rest, _, hstream, hleaves, hcap, hshort, hexit.imp_right fun hend => ?_⟩
  rw [hend]
  exact ⟨rfl, rfl⟩

/-! ### Messages over a link -/

theorem encode_ne_nil (m : Wire.SyncMessage) : m.encode ≠ [] := by
  have hhead : ∀ major arg, 0 < (writeHead major arg).length := by
    intro major arg
    unfold writeHead
    dsimp only
    split_ifs <;> simp
  intro hnil
  have hlen : m.encode.length = 0 := by rw [hnil, List.length_nil]
  rw [Wire.SyncMessage.encode, length_encode_map] at hlen
  have hpos := hhead 5 (lenArg m.entries.length)
  omega

end Stream

variable {env : Env} {sealing : Sealing} {room : RoomId}

/-- The chunks of a proper message name one recipient each, so they are in order. -/
theorem Proper.sorted {I : EngineInvariant env room} {sending : Sending env room} {o : Outgoing}
    (h : Proper I sending o) (bytes : Frame → Bytes) : (o.msg.toWire bytes).Sorted := by
  obtain ⟨-, hbody⟩ := h
  unfold RoomMessage.toWire
  cases hmsg : o.msg.body with
  | keyHistory chunks =>
    rw [hmsg] at hbody
    intro c hc
    obtain ⟨chunk, hchunk, rfl⟩ := List.mem_map.mp hc
    obtain ⟨wrapped, hwrapped⟩ := hbody chunk hchunk
    show chunk.wrappedKeys.Pairwise _
    rw [hwrapped]
    exact List.pairwise_singleton _ _
  | _ => trivial

namespace Stream

/-- The messages that go over a link: what the calls of an engine send, and what the node adds to them. -/
inductive Travels (sending : Sending env room) (sealing : Sealing) : RoomMessage → Prop
  | sent {occurs : EventId → SignedEvent → Prop} {n : SyncNode env sealing room} {c : Call} {o : Outgoing} :
      Reachable occurs n.engine → (∀ f ∈ c.input.frames, occurs f.eventId f.event) → o ∈ n.sends sending c →
      Travels sending sealing o.msg
  | terminalEvents (frames : List Frame) (ids : List EventId) (nonce : ShortId) :
      Travels sending sealing ⟨room, .terminalEvents frames ids nonce⟩
  | proveCapability (inviteId secret : ShortId) : Travels sending sealing ⟨room, .proveCapability inviteId secret⟩
  | wantKeyHistory (haveEpochs : OrdSet Nat) : Travels sending sealing ⟨room, .wantKeyHistory haveEpochs⟩

theorem Travels.sorted {sending : Sending env room} {msg : RoomMessage} (h : Travels sending sealing msg)
    (bytes : Frame → Bytes) : (msg.toWire bytes).Sorted := by
  cases h with
  | sent hreach hframes ho => exact (SyncNode.sends_occurring hreach hframes _ ho).sorted bytes
  | terminalEvents => trivial
  | proveCapability => trivial
  | wantKeyHistory => trivial

/-- A body within the cap is read back as its message. -/
theorem Travels.decode {sending : Sending env room} {msg : RoomMessage} (h : Travels sending sealing msg)
    (bytes : Frame → Bytes) (hfits : (msg.toWire bytes).encode.length ≤ maxFrameBytes) :
    Wire.SyncMessage.decode (msg.toWire bytes).encode = .ok (msg.toWire bytes) := by
  have hcap : maxFrameBytes ≤ usizeMax := by decide
  exact Wire.SyncMessage.decode_encode (h.sorted bytes) (hfits.trans hcap)

/-- The frames of non-empty bodies, cut anywhere: the reader hands over a part of the bodies from the front, all of them
where the bytes all arrive and the queue takes them, and it never reports a length above the cap. -/
theorem readerTask_cut (peer : PeerId) (queues : Nat → QueueState) {bodies : List Bytes}
    (hcap : ∀ body ∈ bodies, body.length ≤ maxFrameBytes) (hne : ∀ body ∈ bodies, body ≠ []) (k : Nat) :
    (readerTask peer queues 0 ((framing.write bodies).take k)).1 <+: bodies ∧
      (∀ declared, (readerTask peer queues 0 ((framing.write bodies).take k)).2 ≠ .frame (.oversized declared)) ∧
      ((framing.write bodies).length ≤ k →
        ((readerTask peer queues 0 ((framing.write bodies).take k)).2 = .saturated ∨
          (readerTask peer queues 0 ((framing.write bodies).take k)).2 = .closed) ∨
        readerTask peer queues 0 ((framing.write bodies).take k) = (bodies, .eof)) := by
  have hwhole : framing.whole k bodies <+: bodies := framing.whole_prefix k bodies
  have hfilter : ∀ {part : List Bytes}, part <+: bodies → part.filter (· ≠ []) = part := by
    intro part hpart
    refine List.filter_eq_self.mpr fun body hbody => ?_
    simpa using hne body (hpart.subset hbody)
  have hread := framing.readAll_take hcap k
  obtain ⟨hshort, hexit⟩ := readerTask_readAll peer queues 0 ((framing.write bodies).take k)
  rw [hread] at hshort hexit
  rw [hfilter hwhole] at hshort hexit
  refine ⟨hshort.trans hwhole, fun declared => ?_, fun hlong => ?_⟩
  · rcases hexit with (hstop | hstop) | hend
    · simp [hstop]
    · simp [hstop]
    · rw [hend]
      dsimp only
      split_ifs <;> simp [exitOf]
  · refine hexit.imp_right fun hend => ?_
    rw [List.take_of_length_le hlong] at hread
    have hall : framing.readAll (framing.write bodies) = (bodies, .finished) :=
      framing.readAll_iff.mpr ⟨hcap, [], (List.append_nil _).symm, rfl⟩
    obtain ⟨hbodies, hending⟩ := Prod.mk.inj (hall.symm.trans hread)
    rw [hend]
    dsimp only
    rw [← hending, ← hbodies]
    rfl

/-- What arrives over a link is what was written to it: for any messages that travel, any point where the stream breaks
off and any course of the queue, the bodies handed over read back as the messages within the cap, from the first one on
without a gap. When everything arrives and the queue takes it, none is missing. -/
theorem link_delivers {sending : Sending env room} (bytes : Frame → Bytes) (peer : PeerId) (queues : Nat → QueueState)
    {messages : List RoomMessage} (htravels : ∀ msg ∈ messages, Travels sending sealing msg) (k : Nat) :
    let written := writerTask (messages.map fun msg => (msg.toWire bytes).encode)
    let read := readerTask peer queues 0 (written.take k)
    let kept := messages.filter fun msg => decide ((msg.toWire bytes).encode.length ≤ maxFrameBytes)
    (∃ arrived, arrived <+: kept ∧
      read.1.map Wire.SyncMessage.decode = arrived.map (fun msg => .ok (msg.toWire bytes)) ∧
      (written.length ≤ k → (read.2 = .saturated ∨ read.2 = .closed) ∨ arrived = kept ∧ read.2 = .eof)) ∧
    ∀ declared, read.2 ≠ .frame (.oversized declared) := by
  intro written read kept
  have hwritten : written = framing.write (kept.map fun msg => (msg.toWire bytes).encode) := by
    show writerTask _ = _
    rw [writerTask_eq, List.filter_map]
    rfl
  have hkept : ∀ msg ∈ kept, Travels sending sealing msg ∧ (msg.toWire bytes).encode.length ≤ maxFrameBytes := by
    intro msg hmsg
    obtain ⟨hmem, hfits⟩ := List.mem_filter.mp hmsg
    exact ⟨htravels msg hmem, by simpa using hfits⟩
  have hcap : ∀ body ∈ kept.map (fun msg => (msg.toWire bytes).encode), body.length ≤ maxFrameBytes := by
    intro body hbody
    obtain ⟨msg, hmsg, rfl⟩ := List.mem_map.mp hbody
    exact (hkept msg hmsg).2
  have hne : ∀ body ∈ kept.map (fun msg => (msg.toWire bytes).encode), body ≠ [] := by
    intro body hbody
    obtain ⟨msg, -, rfl⟩ := List.mem_map.mp hbody
    exact encode_ne_nil _
  obtain ⟨hshort, hover, hall⟩ := readerTask_cut peer queues hcap hne k
  rw [← hwritten] at hshort hover hall
  refine ⟨⟨kept.take read.1.length, List.take_prefix _ _, ?_, fun hlong => ?_⟩, hover⟩
  · have hread : read.1 = (kept.take read.1.length).map fun msg => (msg.toWire bytes).encode := by
      rw [List.map_take]
      exact List.prefix_iff_eq_take.mp hshort
    rw [hread, List.map_map, ← hread]
    refine List.map_congr_left fun msg hmsg => ?_
    obtain ⟨htravel, hfits⟩ := hkept msg (List.mem_of_mem_take hmsg)
    exact htravel.decode bytes hfits
  · refine (hall hlong).imp_right fun hend => ?_
    have hlen : read.1.length = kept.length := by rw [show read = _ from hend, List.length_map]
    exact ⟨by rw [hlen, List.take_length], by rw [show read = _ from hend]⟩

namespace Toy

/-- A fresh node greets a peer. -/
def greeting : List RoomMessage :=
  ((SyncNode.opened Toy.opened).sends Toy.tightSending (.onConnect (Toy.device 2))).map Outgoing.msg

theorem greeting_travels : ∀ msg ∈ greeting, Travels Toy.tightSending Toy.sealing msg := by
  have hreach : Reachable (fun _ _ => True) (SyncNode.opened Toy.opened).engine :=
    Toy.reachable_run fun _ hp => absurd hp List.not_mem_nil
  intro msg hmsg
  obtain ⟨o, ho, rfl⟩ := List.mem_map.mp hmsg
  exact .sent hreach (fun _ _ => trivial) ho

end Toy

/-- The greeting, broken off after a hundred bytes. -/
theorem link_delivers_greeting : (∀ msg ∈ Toy.greeting, Travels Toy.tightSending Toy.sealing msg) ∧
    ∃ arrived, arrived <+: Toy.greeting.filter (fun msg =>
        decide ((msg.toWire fun _ => []).encode.length ≤ maxFrameBytes)) ∧
      (readerTask (Toy.device 1) (fun _ => .new 100 100) 0
        ((writerTask (Toy.greeting.map fun msg => (msg.toWire fun _ => []).encode)).take 100)).1.map
          Wire.SyncMessage.decode = arrived.map (fun msg => .ok (msg.toWire fun _ => [])) := by
  obtain ⟨⟨arrived, hshort, hread, -⟩, -⟩ :=
    link_delivers (fun _ => []) (Toy.device 1) (fun _ => .new 100 100) Toy.greeting_travels 100
  exact ⟨Toy.greeting_travels, arrived, hshort, hread⟩

end Stream

end IrohRooms
