import IrohRooms.Event.Build
import IrohRooms.Net.Admission
import Mathlib.Data.List.Chain

/-!
# The table of connection states

The state of each device and the events that report its changes. An update computes its event under the lock of the
table and sends it after the lock is released, so the events of concurrent updates may be sent in another order than
they were computed in. What a subscriber receives is a chain as long as no event overtakes an older one of its device.
-/

namespace IrohRooms

inductive PeerConnState
  | connecting | connected | offline | unauthorized
  deriving DecidableEq, Repr

inductive OfflineReason
  | neverDialed | unreachable | transportError | linkDropped | deauthorized
  deriving DecidableEq, Repr

structure PeerEntry where
  state : PeerConnState
  identity : Option IdentityKey
  offlineReason : OfflineReason
  lastChangeMs : Nat
  deriving DecidableEq, Repr

/-- A change of state; the first observation of a device has `fromState = toState`. -/
structure ConnEvent (isPoint : DeviceKey → Bool) where
  device : EndpointId isPoint
  fromState : PeerConnState
  toState : PeerConnState
  tsMs : Nat
  deriving DecidableEq

abbrev PeerTable (isPoint : DeviceKey → Bool) := OrdMap (EndpointId isPoint) PeerEntry

variable {isPoint : DeviceKey → Bool}

namespace PeerTable

variable (t : PeerTable isPoint) (device : EndpointId isPoint)

def stateOf : Option PeerConnState := (OrdMap.get? t device).map PeerEntry.state

/-- Record a state, with the event it is reported by. -/
def setInner (state : PeerConnState) (identity : Option IdentityKey) (reason : Option OfflineReason) (tsMs : Nat) :
    PeerTable isPoint × Option (ConnEvent isPoint) :=
  match OrdMap.get? t device with
  | none =>
    (OrdMap.insert t device ⟨state, identity, reason.getD .neverDialed, tsMs⟩, some ⟨device, state, state, tsMs⟩)
  | some entry =>
    let entry := { entry with identity := identity.orElse fun _ => entry.identity }
    if entry.state = state then
      -- A refined reason is stored without an event.
      match reason with
      | some r =>
        if entry.offlineReason ≠ r then
          (OrdMap.insert t device { entry with offlineReason := r, lastChangeMs := tsMs }, none)
        else (OrdMap.insert t device entry, none)
      | none => (OrdMap.insert t device entry, none)
    else
      (OrdMap.insert t device
        { entry with state := state, offlineReason := reason.getD entry.offlineReason, lastChangeMs := tsMs },
        some ⟨device, entry.state, state, tsMs⟩)

def set (state : PeerConnState) (identity : Option IdentityKey) (tsMs : Nat) :
    PeerTable isPoint × Option (ConnEvent isPoint) :=
  setInner t device state identity none tsMs

def setOffline (reason : OfflineReason) (identity : Option IdentityKey) (tsMs : Nat) :
    PeerTable isPoint × Option (ConnEvent isPoint) :=
  setInner t device .offline identity (some reason) tsMs

variable (state : PeerConnState) (identity : Option IdentityKey) (reason : Option OfflineReason) (tsMs : Nat)

/-- An update stores an entry with the state asked for, and with the reason if one is given. -/
theorem setInner_fst : ∃ entry : PeerEntry,
    (setInner t device state identity reason tsMs).1 = OrdMap.insert t device entry ∧ entry.state = state ∧
    ∀ r, reason = some r → entry.offlineReason = r := by
  unfold setInner
  split
  · exact ⟨_, rfl, rfl, fun r hr => by rw [hr, Option.getD_some]⟩
  · dsimp only
    split_ifs with hsame
    · split
      · rename_i r
        split_ifs with hreason
        · exact ⟨_, rfl, hsame, fun _ hr => Option.some.inj hr⟩
        · refine ⟨_, rfl, hsame, fun r' hr => ?_⟩
          rw [← Option.some.inj hr]
          exact not_not.mp hreason
      · refine ⟨_, rfl, hsame, fun r hr => ?_⟩
        cases hr
    · exact ⟨_, rfl, rfl, fun r hr => by rw [hr, Option.getD_some]⟩

/-- An update concerns its device alone, which is then in the state asked for. -/
theorem stateOf_setInner (d : EndpointId isPoint) :
    stateOf (setInner t device state identity reason tsMs).1 d = if d = device then some state else stateOf t d := by
  obtain ⟨entry, hinsert, hstate, -⟩ := setInner_fst t device state identity reason tsMs
  rw [hinsert, stateOf, OrdMap.get?_insert]
  split_ifs
  · rw [Option.map_some, hstate]
  · rfl

/-- The event of an update: on first sight from the state itself, else from the state before, and none if that is the
same. -/
theorem event_setInner : (setInner t device state identity reason tsMs).2 =
    match stateOf t device with
    | none => some ⟨device, state, state, tsMs⟩
    | some old => if old = state then none else some ⟨device, old, state, tsMs⟩ := by
  unfold setInner stateOf
  cases OrdMap.get? t device with
  | none => rfl
  | some entry =>
    dsimp only [Option.map_some]
    split_ifs
    · split
      · split_ifs <;> rfl
      · rfl
    · rfl

end PeerTable

/-- The events of a device, oldest first: the first one reports what it is to, and each later one starts where the one
before ends. -/
structure ConnChain (events : List (ConnEvent isPoint)) : Prop where
  first : ∀ e, events.head? = some e → e.fromState = e.toState
  linked : events.IsChain fun a b => b.fromState = a.toState

namespace ConnChain

variable {events : List (ConnEvent isPoint)} {e : ConnEvent isPoint}

theorem nil : ConnChain ([] : List (ConnEvent isPoint)) := by
  refine ⟨fun _ h => ?_, List.isChain_nil⟩
  cases h

/-- The state that a chain leads to. -/
def last (events : List (ConnEvent isPoint)) : Option PeerConnState := events.getLast?.map ConnEvent.toState

theorem last_append_singleton : last (events ++ [e]) = some e.toState := by
  rw [last, List.getLast?_append, List.getLast?_singleton]
  rfl

/-- A chain grows by an event that starts where it ends. -/
theorem append_singleton (h : ConnChain events) (he : e.fromState = (last events).getD e.toState) :
    ConnChain (events ++ [e]) := by
  constructor
  · intro e' he'
    cases events with
    | nil =>
      cases he'
      exact he
    | cons e₀ rest => exact h.first e' he'
  · refine List.isChain_append.mpr ⟨h.linked, List.isChain_singleton e, ?_⟩
    intro a ha b hb
    cases hb
    rw [he, last, Option.mem_def.mp ha]
    rfl

theorem of_append {later : List (ConnEvent isPoint)} (h : ConnChain (events ++ later)) : ConnChain events := by
  refine ⟨fun e he => h.first e ?_, h.linked.left_of_append⟩
  rw [List.head?_append, he]
  rfl

end ConnChain

/-- A table whose updates run concurrently, and a subscriber that was there from the start and never lags: the events
that were computed and not sent yet, oldest first, and those that were received. -/
structure Broadcast (isPoint : DeviceKey → Bool) where
  table : PeerTable isPoint
  unsent : List (ConnEvent isPoint)
  received : List (ConnEvent isPoint)

namespace Broadcast

/-- The two halves of an update, each of them atomic. -/
inductive Label (isPoint : DeviceKey → Bool)
  | write (device : EndpointId isPoint) (state : PeerConnState) (identity : Option IdentityKey)
      (reason : Option OfflineReason) (tsMs : Nat)
  | send (i : Nat)

def start : Broadcast isPoint := ⟨OrdMap.empty, [], []⟩

def step (b : Broadcast isPoint) : Label isPoint → Broadcast isPoint
  | .write device state identity reason tsMs =>
    let written := b.table.setInner device state identity reason tsMs
    { b with table := written.1, unsent := b.unsent ++ written.2.toList }
  | .send i =>
    match b.unsent[i]? with
    | some e => { b with unsent := b.unsent.eraseIdx i, received := b.received ++ [e] }
    | none => b

/-- Sending overtakes no older event of the device. -/
def InOrder (b : Broadcast isPoint) : Label isPoint → Prop
  | .write .. => True
  | .send i => ∀ e, b.unsent[i]? = some e → ∀ older ∈ b.unsent.take i, older.device ≠ e.device

/-- The broadcasts that runs lead to whose steps all overtake nothing. -/
inductive Sent : Broadcast isPoint → Prop
  | start : Sent .start
  | step {b : Broadcast isPoint} {label : Label isPoint} : Sent b → b.InOrder label → Sent (b.step label)

/-- The events of a device. -/
def of (device : EndpointId isPoint) (events : List (ConnEvent isPoint)) : List (ConnEvent isPoint) :=
  events.filter fun e => e.device = device

theorem of_append (device : EndpointId isPoint) (events later : List (ConnEvent isPoint)) :
    of device (events ++ later) = of device events ++ of device later := List.filter_append ..

/-- What was written of a device, sent or not, is a chain that leads to the state in the table. -/
structure Coherent (b : Broadcast isPoint) (device : EndpointId isPoint) : Prop where
  chain : ConnChain (of device b.received ++ of device b.unsent)
  last : ConnChain.last (of device b.received ++ of device b.unsent) = b.table.stateOf device

variable {b : Broadcast isPoint} {device : EndpointId isPoint}

theorem coherent_start : (start : Broadcast isPoint).Coherent device := ⟨.nil, rfl⟩

/-- An event that is written starts in the state its device was in. -/
theorem written_event {d : EndpointId isPoint} {state : PeerConnState} {identity : Option IdentityKey}
    {reason : Option OfflineReason} {tsMs : Nat} {e : ConnEvent isPoint}
    (he : (b.table.setInner d state identity reason tsMs).2 = some e) :
    e.device = d ∧ e.toState = state ∧ e.fromState = (b.table.stateOf d).getD e.toState := by
  rw [PeerTable.event_setInner] at he
  cases hold : b.table.stateOf d with
  | none =>
    rw [hold] at he
    cases he
    exact ⟨rfl, rfl, rfl⟩
  | some old =>
    rw [hold] at he
    dsimp only at he
    split_ifs at he
    cases he
    exact ⟨rfl, rfl, rfl⟩

/-- No event is written only if the state was the one asked for. -/
theorem written_none {d : EndpointId isPoint} {state : PeerConnState} {identity : Option IdentityKey}
    {reason : Option OfflineReason} {tsMs : Nat}
    (hnone : (b.table.setInner d state identity reason tsMs).2 = none) : b.table.stateOf d = some state := by
  rw [PeerTable.event_setInner] at hnone
  cases hold : b.table.stateOf d with
  | none =>
    rw [hold] at hnone
    cases hnone
  | some old =>
    rw [hold] at hnone
    dsimp only at hnone
    split_ifs at hnone with hsame
    rw [hsame]

theorem Coherent.write (h : b.Coherent device) (d : EndpointId isPoint) (state : PeerConnState)
    (identity : Option IdentityKey) (reason : Option OfflineReason) (tsMs : Nat) :
    (b.step (.write d state identity reason tsMs)).Coherent device := by
  have hstate := PeerTable.stateOf_setInner b.table d state identity reason tsMs device
  have hsplit : ∀ later, of device b.received ++ of device (b.unsent ++ later) =
      of device b.received ++ of device b.unsent ++ of device later := by
    intro later
    rw [of_append, List.append_assoc]
  simp only [step]
  cases he : (b.table.setInner d state identity reason tsMs).2 with
  | none =>
    have hkept : PeerTable.stateOf (b.table.setInner d state identity reason tsMs).1 device =
        b.table.stateOf device := by
      rw [hstate]
      split_ifs with hd
      · rw [hd, written_none he]
      · rfl
    constructor
    · rw [Option.toList_none, List.append_nil]
      exact h.chain
    · rw [Option.toList_none, List.append_nil, h.last]
      exact hkept.symm
  | some e =>
    obtain ⟨hdevice, hto, hfrom⟩ := written_event he
    by_cases hd : device = d
    · have hone : of device [e] = [e] := List.filter_cons_of_pos (by simpa [hdevice] using hd.symm)
      rw [← hd, ← h.last] at hfrom
      rw [if_pos hd] at hstate
      constructor
      · rw [hsplit, Option.toList_some, hone]
        exact h.chain.append_singleton hfrom
      · rw [hsplit, Option.toList_some, hone, ConnChain.last_append_singleton, hto]
        exact hstate.symm
    · have hnone : of device [e] = [] := List.filter_cons_of_neg (by simpa [hdevice] using Ne.symm hd)
      rw [if_neg hd] at hstate
      constructor
      · rw [hsplit, Option.toList_some, hnone, List.append_nil]
        exact h.chain
      · rw [hsplit, Option.toList_some, hnone, List.append_nil, h.last]
        exact hstate.symm

/-- Sending an event that overtakes none leaves the order of its device. -/
theorem of_send {events : List (ConnEvent isPoint)} {i : Nat} {e : ConnEvent isPoint} (he : events[i]? = some e)
    (horder : ∀ older ∈ events.take i, older.device ≠ e.device) :
    of device [e] ++ of device (events.eraseIdx i) = of device events := by
  have hsplit : events = events.take i ++ [e] ++ events.drop (i + 1) := by
    obtain ⟨hlt, rfl⟩ := List.getElem?_eq_some_iff.mp he
    rw [← List.take_succ_eq_append_getElem hlt, List.take_append_drop]
  have hcommute : of device [e] ++ of device (events.take i) = of device (events.take i) ++ of device [e] := by
    by_cases hd : e.device = device
    · have hfront : of device (events.take i) = [] := by
        refine List.filter_eq_nil_iff.mpr fun older holder => ?_
        simpa [← hd] using horder older holder
      rw [hfront, List.append_nil, List.nil_append]
    · have hnone : of device [e] = [] := List.filter_cons_of_neg (by simpa using hd)
      rw [hnone, List.append_nil, List.nil_append]
  calc of device [e] ++ of device (events.eraseIdx i)
      = of device [e] ++ of device (events.take i) ++ of device (events.drop (i + 1)) := by
        rw [List.eraseIdx_eq_take_drop_succ, of_append, List.append_assoc]
    _ = of device (events.take i ++ [e] ++ events.drop (i + 1)) := by rw [hcommute, of_append, of_append]
    _ = of device events := by rw [← hsplit]

theorem Coherent.send (h : b.Coherent device) {i : Nat} (horder : b.InOrder (.send i)) :
    (b.step (.send i)).Coherent device := by
  cases he : b.unsent[i]? with
  | none => simpa only [step, he] using h
  | some e =>
    have hsame : of device (b.received ++ [e]) ++ of device (b.unsent.eraseIdx i) =
        of device b.received ++ of device b.unsent := by
      rw [of_append, List.append_assoc, of_send he (horder e he)]
    simp only [step, he]
    refine ⟨?_, ?_⟩
    · show ConnChain (of device (b.received ++ [e]) ++ of device (b.unsent.eraseIdx i))
      rw [hsame]
      exact h.chain
    · show ConnChain.last (of device (b.received ++ [e]) ++ of device (b.unsent.eraseIdx i)) = _
      rw [hsame]
      exact h.last

theorem Sent.coherent (h : Sent b) : b.Coherent device := by
  induction h with
  | start => exact coherent_start
  | @step b label _ horder ih =>
    cases label with
    | write d state identity reason tsMs => exact ih.write d state identity reason tsMs
    | send i => exact ih.send horder

/-- In a run in which no event overtakes an older one of its device, what was received of a device is a chain, and it
leads to the state in the table as soon as nothing is left to send. -/
theorem Sent.received_chain (h : Sent b) (device : EndpointId isPoint) :
    ConnChain (of device b.received) ∧
    (of device b.unsent = [] → ConnChain.last (of device b.received) = b.table.stateOf device) := by
  have hcoherent : b.Coherent device := h.coherent
  refine ⟨hcoherent.chain.of_append, fun hnone => ?_⟩
  have hlast := hcoherent.last
  rw [hnone, List.append_nil] at hlast
  exact hlast

end Broadcast

namespace Toy

def somePoint (k : Nat) : EndpointId fun _ => true := ⟨device k, rfl⟩

/-- The manager sees a device for the first time and starts to dial it, while the accept task publishes a link. -/
def raced : List (Broadcast.Label fun _ => true) :=
  [.write (somePoint 2) .connecting none none 1, .write (somePoint 2) .connected (some (identity 2)) none 2]

def racedBy (sends : List Nat) : Broadcast fun _ => true :=
  (raced ++ sends.map Broadcast.Label.send).foldl Broadcast.step .start

end Toy

/-- The two updates are done; the second event was sent first. -/
theorem connEvents_overtaken : (Toy.racedBy [1, 0]).unsent = [] ∧
    ¬ ConnChain (Broadcast.of (Toy.somePoint 2) (Toy.racedBy [1, 0]).received) ∧
    ConnChain.last (Broadcast.of (Toy.somePoint 2) (Toy.racedBy [1, 0]).received) = some .connecting ∧
    (Toy.racedBy [1, 0]).table.stateOf (Toy.somePoint 2) = some .connected := by
  have hhead : ∃ e, (Broadcast.of (Toy.somePoint 2) (Toy.racedBy [1, 0]).received).head? = some e ∧
      e.fromState = .connecting ∧ e.toState = .connected := ⟨⟨Toy.somePoint 2, _, _, 2⟩, by decide, rfl, rfl⟩
  refine ⟨by decide, fun h => ?_, by decide, by decide⟩
  obtain ⟨e, he, hfrom, hto⟩ := hhead
  have hfirst := h.first e he
  rw [hfrom, hto] at hfirst
  cases hfirst

theorem received_chain_raced : ConnChain (Broadcast.of (Toy.somePoint 2) (Toy.racedBy [0, 0]).received) ∧
    (Broadcast.of (Toy.somePoint 2) (Toy.racedBy [0, 0]).received).length = 2 := by
  have hsent : Broadcast.Sent (Toy.racedBy [0, 0]) := by
    have hwritten : Broadcast.Sent (Toy.raced.foldl Broadcast.step .start) :=
      @Broadcast.Sent.step _ _ (.write ..) (@Broadcast.Sent.step _ _ (.write ..) .start trivial) trivial
    refine @Broadcast.Sent.step _ _ (.send 0) (@Broadcast.Sent.step _ _ (.send 0) hwritten ?_) ?_
    · intro _ _ older holder
      cases holder
    · intro _ _ older holder
      cases holder
  exact ⟨(hsent.received_chain _).1, by decide⟩

end IrohRooms
