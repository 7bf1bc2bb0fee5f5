import IrohRooms.Net.Manager
import Mathlib.Data.List.Infix

/-!
# Links and the table of connection states

The tasks that hold the links, the dial loops, the manager and the pump all write the table of connection states, each
under its own condition. The table agrees with the links, in that a device with an activated link is shown as connected
and a device that is shown as connected has a queue, for as long as the three writes that ask for nothing are made where
they do no harm: the start of a dial loop, the upgrade of a provisional device, and the teardown of a link beside which
an older one still stands.
-/

namespace IrohRooms

variable {isPoint : DeviceKey → Bool}

namespace Shared

/-- The device and the identity of a peer that has become Active. -/
def upgraded (snapshot : MembershipSnapshot) (peer : PeerId) : Option (EndpointId isPoint × IdentityKey) :=
  (snapshot.identityOfDevice peer).bind fun identity =>
    if snapshot.isActive identity then (EndpointId.fromBytes isPoint peer).map fun device => (device, identity)
    else none

/-- Lift the restriction of a peer that has become Active, and record its identity. -/
def maybeUpgradeProvisional (s : Shared isPoint) (snapshot : MembershipSnapshot) (peer : PeerId) (tsMs : Nat) :
    Shared isPoint :=
  match upgraded snapshot peer with
  | some (device, identity) =>
    { s with
      links := s.links.clearProvisional device
      table := (s.table.set device .connected (some identity) tsMs).1 }
  | none => s

/-- What the links and the table say of a device. -/
structure Shown where
  generation : Option Nat
  queued : Bool
  state : Option PeerConnState

def shown (s : Shared isPoint) (d : EndpointId isPoint) : Shown :=
  ⟨s.links.generations.get? d, s.links.outbound.contains d, s.table.stateOf d⟩

def Held.shown (h : Held) : Shown := ⟨h.generation, h.queue.isSome, h.entry.map PeerEntry.state⟩

section Shown

variable {s : Shared isPoint} {device d : EndpointId isPoint}

theorem shown_eq : s.shown d = (s.held d).shown := rfl

theorem shown_install (owed : OrdMap (EndpointId isPoint) TerminalConfirmation) (provisional : Bool)
    (connection : Connection) :
    shown { s with
      links := { s.links with terminalConfirmations := owed }.install device provisional
      connections := s.connections.insert device connection } d =
    if d = device then ⟨some (s.links.nextGeneration device), true, (s.shown device).state⟩ else s.shown d := by
  rw [shown_eq, held_install]
  split_ifs <;> rfl

theorem shown_teardownIfCurrent {generation : Nat} (h : (s.shown device).generation = some generation)
    (ended : LinkTeardown) (tsMs : Nat) : ∃ state, state ≠ .connected ∧
    ∀ d, (s.teardownIfCurrent device generation ended tsMs).1.shown d =
      if d = device then ⟨some generation, false, some state⟩ else s.shown d := by
  obtain ⟨entry, hstate, hdropped⟩ := teardownIfCurrent_of_eq h ended tsMs
  refine ⟨entry.state, ?_, fun d => ?_⟩
  · rcases hstate with hstate | hstate
    · rw [hstate]
      decide
    · rw [hstate]
      decide
  · rw [hdropped, shown_eq, held_dropped]
    split_ifs
    · exact congrArg (fun g => (⟨g, false, some entry.state⟩ : Shown)) h
    · rfl

theorem shown_teardownReconciledLink (stillAdmitted membershipRemoved : Bool) (tsMs : Nat) :
    (s.teardownReconciledLink device stillAdmitted membershipRemoved tsMs).shown d =
      if d = device then ⟨some (s.links.nextGeneration device), false, some .offline⟩ else s.shown d := by
  obtain ⟨entry, hstate, -, hheld⟩ := held_teardownReconciledLink s device d stillAdmitted membershipRemoved tsMs
  rw [shown_eq, hheld]
  split_ifs
  · rw [← hstate]
    rfl
  · rfl

/-- A table write concerns its device alone. -/
theorem shown_set (state : PeerConnState) (identity : Option IdentityKey) (reason : Option OfflineReason) (tsMs : Nat) :
    shown { s with table := (s.table.setInner device state identity reason tsMs).1 } d =
      if d = device then { s.shown device with state := some state } else s.shown d := by
  unfold shown
  rw [PeerTable.stateOf_setInner]
  split_ifs with hd
  · rw [hd]
  · rfl

/-- An activation either does nothing or publishes a link that carries the current stamp. -/
theorem shown_activateLinkIfCurrent (generation : Nat) (decision : AdmissionDecision) (allow : Bool) (tsMs : Nat) :
    s.activateLinkIfCurrent device generation decision allow tsMs = (s, .stale) ∨
    (s.activateLinkIfCurrent device generation decision allow tsMs).2 ≠ .stale ∧
      (s.shown device).generation = some generation ∧
      ∀ d, (s.activateLinkIfCurrent device generation decision allow tsMs).1.shown d =
        if d = device then { s.shown device with state := some .connected } else s.shown d := by
  by_cases hcurrent : s.links.generations.get? device = some generation
  · have hnot : ¬ s.links.generations.get? device ≠ some generation := not_not.mpr hcurrent
    unfold activateLinkIfCurrent Links.activateLinkIfCurrent
    rw [if_neg hnot]
    cases decision with
    | admitted identity => exact .inr ⟨by simp, hcurrent, fun d => shown_set .connected (some identity) none tsMs⟩
    | admitProvisional =>
      cases allow with
      | true => exact .inr ⟨by simp, hcurrent, fun d => shown_set .connected none none tsMs⟩
      | false => exact .inl rfl
    | reject cause => exact .inl rfl
  · unfold activateLinkIfCurrent Links.activateLinkIfCurrent
    rw [if_pos hcurrent]
    exact .inl rfl

theorem shown_maybeUpgradeProvisional {snapshot : MembershipSnapshot} {peer : PeerId} {identity : IdentityKey}
    (h : upgraded snapshot peer = some (device, identity)) (tsMs : Nat) :
    (s.maybeUpgradeProvisional snapshot peer tsMs).shown d =
      if d = device then { s.shown device with state := some .connected } else s.shown d := by
  unfold maybeUpgradeProvisional
  rw [h]
  exact shown_set .connected (some identity) none tsMs

theorem maybeUpgradeProvisional_none {snapshot : MembershipSnapshot} {peer : PeerId}
    (h : (upgraded snapshot peer : Option (EndpointId isPoint × IdentityKey)) = none) (tsMs : Nat) :
    s.maybeUpgradeProvisional snapshot peer tsMs = s := by
  unfold maybeUpgradeProvisional
  rw [h]

end Shown

end Shared

/-- The shared state with the links of each device, by stamp: those whose task has not torn them down, and those that
were activated and have been neither torn down nor invalidated since. -/
structure Lifecycle (isPoint : DeviceKey → Bool) where
  shared : Shared isPoint
  running : List (EndpointId isPoint × Nat)
  standing : List (EndpointId isPoint × Nat)

namespace Lifecycle

inductive Label (isPoint : DeviceKey → Bool)
  | register (device : EndpointId isPoint) (connection : Connection) (overdue : Bool) (decision : AdmissionDecision)
      (allowProvisional : Bool)
  | activate (device : EndpointId isPoint) (generation : Nat) (decision : AdmissionDecision) (allowProvisional : Bool)
      (tsMs : Nat)
  | teardown (device : EndpointId isPoint) (generation : Nat) (ended : LinkTeardown) (tsMs : Nat)
  | setConnectingIfNoLink (device : EndpointId isPoint) (tsMs : Nat)
  | setOfflineIfNoLink (device : EndpointId isPoint) (reason : OfflineReason) (tsMs : Nat)
  | reconcileStop (device : EndpointId isPoint) (stillAdmitted membershipRemoved : Bool) (tsMs : Nat)
  | reconcileStart (device : EndpointId isPoint) (tsMs : Nat)
  | upgrade (snapshot : MembershipSnapshot) (peer : PeerId) (tsMs : Nat)

def start : Lifecycle isPoint := ⟨.start, [], []⟩

/-- One atomic step; a link is activated and torn down by the task that registered it. -/
def step (w : Lifecycle isPoint) : Label isPoint → Lifecycle isPoint
  | .register device connection overdue decision allowProvisional =>
    let registered := w.shared.registerEstablishedLink device connection overdue decision allowProvisional
    { w with
      shared := registered.1
      running := (Shared.LinkRegistration.stamp registered.2).toList.map (fun g => (device, g)) ++ w.running }
  | .activate device generation decision allowProvisional tsMs =>
    if (device, generation) ∈ w.running then
      let activated := w.shared.activateLinkIfCurrent device generation decision allowProvisional tsMs
      { w with
        shared := activated.1
        standing := if activated.2 = .stale then w.standing else (device, generation) :: w.standing }
    else w
  | .teardown device generation ended tsMs =>
    if (device, generation) ∈ w.running then
      { shared := (w.shared.teardownIfCurrent device generation ended tsMs).1
        running := w.running.filter fun link => link ≠ (device, generation)
        standing := w.standing.filter fun link => link ≠ (device, generation) }
    else w
  | .setConnectingIfNoLink device tsMs => { w with shared := (w.shared.setConnectingIfNoLink device tsMs).1 }
  | .setOfflineIfNoLink device reason tsMs => { w with shared := (w.shared.setOfflineIfNoLink device reason tsMs).1 }
  | .reconcileStop device stillAdmitted membershipRemoved tsMs =>
    { w with
      shared := w.shared.teardownReconciledLink device stillAdmitted membershipRemoved tsMs
      standing := w.standing.filter fun link => link.1 ≠ device }
  | .reconcileStart device tsMs => { w with shared := w.shared.setConnecting device tsMs }
  | .upgrade snapshot peer tsMs => { w with shared := w.shared.maybeUpgradeProvisional snapshot peer tsMs }

def run (w : Lifecycle isPoint) (labels : List (Label isPoint)) : Lifecycle isPoint := labels.foldl step w

variable (w : Lifecycle isPoint)

/-- The device is shown as connected if it has an activated link, and only if it has a queue. -/
def ConsistentAt (d : EndpointId isPoint) : Prop :=
  (∀ g, (d, g) ∈ w.standing → w.shared.table.stateOf d = some .connected) ∧
  (w.shared.table.stateOf d = some .connected → w.shared.links.outbound.contains d = true)

def Consistent : Prop := ∀ d, w.ConsistentAt d

/-- The step does not write the table against the links: a loop is not started for a device with an activated link, a
device is not upgraded without a queue, and a link is not torn down beside another activated one. -/
def Guarded : Label isPoint → Prop
  | .teardown device generation _ _ => (device, generation) ∈ w.running →
    w.shared.links.generations.get? device = some generation → ∀ g, (device, g) ∈ w.standing → g = generation
  | .reconcileStart device _ => ∀ g, (device, g) ∉ w.standing
  | .upgrade snapshot peer _ => ∀ device identity, Shared.upgraded snapshot peer = some (device, identity) →
    w.shared.links.outbound.contains device = true
  | _ => True

/-- No stamp is at its last number. -/
def Roomy : Prop := ∀ d, w.shared.generation d + 1 < 2 ^ 64

/-- The stamp of a link whose task runs is not above the current one, and a link with the current stamp has its
queue. -/
structure Traced : Prop where
  bounded : ∀ d g, (d, g) ∈ w.running → g ≤ w.shared.generation d
  queued : ∀ d g, (d, g) ∈ w.running → (w.shared.shown d).generation = some g → (w.shared.shown d).queued = true

variable {w} {w' : Lifecycle isPoint} {device d : EndpointId isPoint} {label : Label isPoint}

theorem traced_start : (start : Lifecycle isPoint).Traced := ⟨by simp [start], by simp [start]⟩

theorem generation_eq : w.shared.generation d = (w.shared.shown d).generation.getD 0 := rfl

/-- A step concerns one device, so only its links have to be looked at. -/
theorem Traced.at (h : w.Traced) {x : Shared.Shown}
    (hshown : ∀ d, w'.shared.shown d = if d = device then x else w.shared.shown d)
    (hrunning : ∀ d g, d ≠ device → (d, g) ∈ w'.running → (d, g) ∈ w.running)
    (hbounded : ∀ g, (device, g) ∈ w'.running → g ≤ x.generation.getD 0)
    (hqueued : ∀ g, (device, g) ∈ w'.running → x.generation = some g → x.queued = true) : w'.Traced := by
  refine ⟨fun d g hlink => ?_, fun d g hlink => ?_⟩
  · rw [generation_eq, hshown]
    split_ifs with hd
    · rw [hd] at hlink
      exact hbounded g hlink
    · exact h.bounded d g (hrunning d g hd hlink)
  · rw [hshown]
    split_ifs with hd
    · rw [hd] at hlink
      exact hqueued g hlink
    · exact h.queued d g (hrunning d g hd hlink)

/-- A write of the table alone. -/
theorem Traced.shows (h : w.Traced) (hrunning : w'.running = w.running) {state : PeerConnState}
    (hshown : ∀ d, w'.shared.shown d =
      if d = device then { w.shared.shown device with state := some state } else w.shared.shown d) : w'.Traced := by
  refine h.at hshown (fun d g _ hlink => ?_) (fun g hlink => ?_) fun g hlink => ?_
  · rwa [hrunning] at hlink
  · rw [hrunning] at hlink
    exact h.bounded device g hlink
  · rw [hrunning] at hlink
    exact h.queued device g hlink

theorem nextGeneration_roomy (hroomy : w.Roomy) (d : EndpointId isPoint) :
    w.shared.links.nextGeneration d = w.shared.generation d + 1 := Nat.mod_eq_of_lt (hroomy d)

theorem Traced.register (h : w.Traced) (hroomy : w.Roomy) (connection : Connection) (overdue : Bool)
    (decision : AdmissionDecision) (allow : Bool) :
    (w.step (.register device connection overdue decision allow)).Traced := by
  simp only [Lifecycle.step]
  obtain ⟨owed, cause, hrejected⟩ | ⟨owed, provisional, registration, hstamp, hregistered⟩ :=
    Shared.registerEstablishedLink_cases connection overdue decision allow
  · rw [hrejected]
    exact ⟨h.bounded, h.queued⟩
  · rw [hregistered, hstamp]
    refine h.at (fun d => Shared.shown_install owed provisional connection) (fun d g hd hlink => ?_) (fun g hlink => ?_)
      fun g _ _ => rfl
    · simpa [hd] using hlink
    · have hnext := nextGeneration_roomy hroomy device
      have hlink' : g = w.shared.links.nextGeneration device ∨ (device, g) ∈ w.running := by simpa using hlink
      rcases hlink' with rfl | hold
      · exact Nat.le_refl _
      · have hle := h.bounded device g hold
        show g ≤ w.shared.links.nextGeneration device
        omega

theorem Traced.teardown (h : w.Traced) (generation : Nat) (ended : LinkTeardown) (tsMs : Nat) :
    (w.step (.teardown device generation ended tsMs)).Traced := by
  simp only [Lifecycle.step]
  by_cases hrunning : (device, generation) ∈ w.running
  · rw [if_pos hrunning]
    by_cases hcurrent : (w.shared.shown device).generation = some generation
    · obtain ⟨state, -, hshown⟩ := Shared.shown_teardownIfCurrent hcurrent ended tsMs
      refine h.at hshown (fun d g _ hlink => (List.mem_filter.mp hlink).1) (fun g hlink => ?_) fun g hlink hg => ?_
      · have hle := h.bounded device g (List.mem_filter.mp hlink).1
        rw [generation_eq, hcurrent] at hle
        exact hle
      · rw [Option.some.inj hg] at hlink
        simp at hlink
    · rw [Shared.teardownIfCurrent_of_ne hcurrent]
      exact ⟨fun d g hlink => h.bounded d g (List.mem_filter.mp hlink).1,
        fun d g hlink => h.queued d g (List.mem_filter.mp hlink).1⟩
  · rw [if_neg hrunning]
    exact h

theorem Traced.reconcileStop (h : w.Traced) (hroomy : w.Roomy) (stillAdmitted membershipRemoved : Bool) (tsMs : Nat) :
    (w.step (.reconcileStop device stillAdmitted membershipRemoved tsMs)).Traced := by
  have hnext := nextGeneration_roomy hroomy device
  refine h.at (fun d => Shared.shown_teardownReconciledLink stillAdmitted membershipRemoved tsMs)
    (fun d g _ hlink => hlink) (fun g hlink => ?_) fun g hlink hcurrent => ?_
  · have hle := h.bounded device g hlink
    show g ≤ w.shared.links.nextGeneration device
    omega
  · have hle := h.bounded device g hlink
    have hg : w.shared.links.nextGeneration device = g := Option.some.inj hcurrent
    omega

theorem Traced.step (h : w.Traced) (hroomy : w.Roomy) (label : Label isPoint) : (w.step label).Traced := by
  cases label with
  | register device connection overdue decision allow => exact h.register hroomy connection overdue decision allow
  | activate device generation decision allow tsMs =>
    simp only [Lifecycle.step]
    by_cases hrunning : (device, generation) ∈ w.running
    · rw [if_pos hrunning]
      rcases Shared.shown_activateLinkIfCurrent generation decision allow tsMs with hstale | ⟨-, -, hshown⟩
      · rw [hstale]
        exact ⟨h.bounded, h.queued⟩
      · exact h.shows rfl hshown
    · rw [if_neg hrunning]
      exact h
  | teardown device generation ended tsMs => exact h.teardown generation ended tsMs
  | setConnectingIfNoLink device tsMs =>
    simp only [Lifecycle.step, Shared.setConnectingIfNoLink]
    split_ifs
    · exact h
    · exact h.shows rfl fun d => Shared.shown_set .connecting none none tsMs
  | setOfflineIfNoLink device reason tsMs =>
    simp only [Lifecycle.step, Shared.setOfflineIfNoLink]
    split_ifs
    · exact h
    · exact h.shows rfl fun d => Shared.shown_set .offline none (some reason) tsMs
  | reconcileStop device stillAdmitted membershipRemoved tsMs =>
    exact h.reconcileStop hroomy stillAdmitted membershipRemoved tsMs
  | reconcileStart device tsMs => exact h.shows rfl fun d => Shared.shown_set .connecting none none tsMs
  | upgrade snapshot peer tsMs =>
    simp only [Lifecycle.step]
    cases hupgraded : (Shared.upgraded snapshot peer : Option (EndpointId isPoint × IdentityKey)) with
    | none =>
      rw [Shared.maybeUpgradeProvisional_none hupgraded]
      exact h
    | some target => exact h.shows rfl fun d => Shared.shown_maybeUpgradeProvisional hupgraded tsMs

/-- After a step on one device, the table agrees with the links if it does so for that device. -/
theorem Consistent.iff_at (h : w.Consistent) {x : Shared.Shown}
    (hshown : ∀ d, w'.shared.shown d = if d = device then x else w.shared.shown d)
    (hstanding : ∀ d g, d ≠ device → (d, g) ∈ w'.standing → (d, g) ∈ w.standing) :
    w'.Consistent ↔
      (∀ g, (device, g) ∈ w'.standing → x.state = some .connected) ∧ (x.state = some .connected → x.queued = true) := by
  have hdevice : w'.shared.shown device = x := by rw [hshown, if_pos rfl]
  constructor
  · intro h'
    rw [← hdevice]
    exact h' device
  · intro hat d
    by_cases hd : d = device
    · rw [← hdevice] at hat
      rw [hd]
      exact hat
    · have hsame : w'.shared.shown d = w.shared.shown d := by rw [hshown, if_neg hd]
      have hold : (∀ g, (d, g) ∈ w'.standing → (w.shared.shown d).state = some .connected) ∧
          ((w.shared.shown d).state = some .connected → (w.shared.shown d).queued = true) :=
        ⟨fun g hlink => (h d).1 g (hstanding d g hd hlink), (h d).2⟩
      rw [← hsame] at hold
      exact hold

theorem Consistent.register (h : w.Consistent) (connection : Connection) (overdue : Bool) (decision : AdmissionDecision)
    (allow : Bool) : (w.step (.register device connection overdue decision allow)).Consistent := by
  simp only [Lifecycle.step]
  obtain ⟨owed, cause, hrejected⟩ | ⟨owed, provisional, registration, hstamp, hregistered⟩ :=
    Shared.registerEstablishedLink_cases connection overdue decision allow
  · rw [hrejected]
    exact h
  · rw [hregistered]
    refine Iff.mpr (h.iff_at (fun d => Shared.shown_install owed provisional connection) fun _ _ _ hlink => hlink) ?_
    exact ⟨(h device).1, fun _ => rfl⟩

/-- A task that publishes its link finds its queue. -/
theorem Consistent.activate (h : w.Consistent) (htraced : w.Traced) (generation : Nat) (decision : AdmissionDecision)
    (allow : Bool) (tsMs : Nat) : (w.step (.activate device generation decision allow tsMs)).Consistent := by
  simp only [Lifecycle.step]
  by_cases hrunning : (device, generation) ∈ w.running
  · rw [if_pos hrunning]
    rcases Shared.shown_activateLinkIfCurrent generation decision allow tsMs with hstale | ⟨hup, hcurrent, hshown⟩
    · rw [hstale]
      exact h
    · rw [if_neg hup]
      refine (h.iff_at hshown fun d g hd hlink => ?_).mpr ?_
      · simpa [hd] using hlink
      · exact ⟨fun _ _ => rfl, fun _ => htraced.queued device generation hrunning hcurrent⟩
  · rw [if_neg hrunning]
    exact h

theorem Consistent.teardown_iff (h : w.Consistent) (generation : Nat) (ended : LinkTeardown) (tsMs : Nat) :
    (w.step (.teardown device generation ended tsMs)).Consistent ↔
      w.Guarded (.teardown device generation ended tsMs) := by
  simp only [Lifecycle.step, Guarded]
  by_cases hrunning : (device, generation) ∈ w.running
  · rw [if_pos hrunning]
    by_cases hcurrent : (w.shared.shown device).generation = some generation
    · obtain ⟨state, hstate, hshown⟩ := Shared.shown_teardownIfCurrent hcurrent ended tsMs
      refine (h.iff_at hshown fun d g _ hlink => (List.mem_filter.mp hlink).1).trans ?_
      constructor
      · intro hat _ _ g hlink
        by_contra hg
        have hother : (device, g) ∈ w.standing.filter fun link => link ≠ (device, generation) :=
          List.mem_filter.mpr ⟨hlink, by simpa using hg⟩
        exact hstate (Option.some.inj (hat.1 g hother))
      · intro hguarded
        refine ⟨fun g hlink => ?_, fun hconnected => absurd (Option.some.inj hconnected) hstate⟩
        obtain ⟨hlink, hother⟩ := List.mem_filter.mp hlink
        rw [hguarded hrunning hcurrent g hlink] at hother
        simp at hother
    · rw [Shared.teardownIfCurrent_of_ne hcurrent]
      refine iff_of_true (fun d => ⟨fun g hlink => (h d).1 g (List.mem_filter.mp hlink).1, (h d).2⟩) ?_
      intro _ hcurrent'
      exact absurd hcurrent' hcurrent
  · rw [if_neg hrunning]
    exact iff_of_true h fun hrunning' => absurd hrunning' hrunning

/-- A device without a queue has no activated link, so its state may be changed to another than connected. -/
theorem Consistent.unlinked (h : w.Consistent) (hunlinked : ¬ w.shared.links.outbound.contains device = true)
    (hstanding : w'.standing = w.standing) {state : PeerConnState} (hstate : state ≠ .connected)
    (hshown : ∀ d, w'.shared.shown d =
      if d = device then { w.shared.shown device with state := some state } else w.shared.shown d) : w'.Consistent := by
  refine (h.iff_at hshown fun d g _ hlink => by rwa [hstanding] at hlink).mpr ?_
  refine ⟨fun g hlink => ?_, fun hconnected => ?_⟩
  · rw [hstanding] at hlink
    exact absurd ((h device).2 ((h device).1 g hlink)) hunlinked
  · exact absurd (Option.some.inj hconnected) hstate

/-- A step keeps the table in agreement with the links exactly if it is guarded. -/
theorem Consistent.step_iff (h : w.Consistent) (htraced : w.Traced) (label : Label isPoint) :
    (w.step label).Consistent ↔ w.Guarded label := by
  cases label with
  | register device connection overdue decision allow =>
    exact iff_of_true (h.register connection overdue decision allow) trivial
  | activate device generation decision allow tsMs =>
    exact iff_of_true (h.activate htraced generation decision allow tsMs) trivial
  | teardown device generation ended tsMs => exact h.teardown_iff generation ended tsMs
  | setConnectingIfNoLink device tsMs =>
    refine iff_of_true ?_ trivial
    simp only [Lifecycle.step, Shared.setConnectingIfNoLink]
    split_ifs with hlinked
    · exact h
    · exact h.unlinked hlinked rfl (by decide) fun d => Shared.shown_set .connecting none none tsMs
  | setOfflineIfNoLink device reason tsMs =>
    refine iff_of_true ?_ trivial
    simp only [Lifecycle.step, Shared.setOfflineIfNoLink]
    split_ifs with hlinked
    · exact h
    · exact h.unlinked hlinked rfl (by decide) fun d => Shared.shown_set .offline none (some reason) tsMs
  | reconcileStop device stillAdmitted membershipRemoved tsMs =>
    refine iff_of_true ?_ trivial
    refine (h.iff_at (fun d => Shared.shown_teardownReconciledLink stillAdmitted membershipRemoved tsMs)
      fun d g _ hlink => (List.mem_filter.mp hlink).1).mpr ⟨fun g hlink => ?_, fun hconnected => ?_⟩
    · have hdevice := (List.mem_filter.mp hlink).2
      simp at hdevice
    · cases hconnected
  | reconcileStart device tsMs =>
    refine Iff.trans (h.iff_at (fun d => Shared.shown_set .connecting none none tsMs) fun _ _ _ hlink => hlink) ?_
    constructor
    · intro hat g hlink
      cases hat.1 g hlink
    · intro hguarded
      exact ⟨fun g hlink => absurd hlink (hguarded g), fun hconnected => by cases hconnected⟩
  | upgrade snapshot peer tsMs =>
    simp only [Lifecycle.step, Guarded]
    cases hupgraded : (Shared.upgraded snapshot peer : Option (EndpointId isPoint × IdentityKey)) with
    | none =>
      rw [Shared.maybeUpgradeProvisional_none hupgraded]
      exact iff_of_true h fun device identity hsome => by cases hsome
    | some target =>
      refine Iff.trans (h.iff_at (fun d => Shared.shown_maybeUpgradeProvisional hupgraded tsMs)
        fun _ _ _ hlink => hlink) ?_
      constructor
      · intro hat device identity hsome
        cases hsome
        exact hat.2 rfl
      · intro hguarded
        exact ⟨fun _ _ => rfl, fun _ => hguarded target.1 target.2 rfl⟩

theorem roomy_of_entries (h : ∀ e ∈ w.shared.links.generations.entries, e.2 + 1 < 2 ^ 64) : w.Roomy := by
  intro d
  unfold Shared.generation
  cases hd : w.shared.links.generations.get? d with
  | none => decide
  | some g => exact h (d, g) (OrdMap.mem_entries.mpr hd)

theorem run_append_singleton (w : Lifecycle isPoint) (pre : List (Label isPoint)) (label : Label isPoint) :
    w.run (pre ++ [label]) = (w.run pre).step label := List.foldl_append

variable {labels : List (Label isPoint)}

theorem traced_run (hroomy : ∀ pre post, labels = pre ++ post → ((start : Lifecycle isPoint).run pre).Roomy)
    {pre post : List (Label isPoint)} (hlabels : labels = pre ++ post) :
    ((start : Lifecycle isPoint).run pre).Traced := by
  induction pre using List.reverseRecOn generalizing post with
  | nil => exact traced_start
  | append_singleton pre label ih =>
    rw [List.append_assoc] at hlabels
    rw [run_append_singleton]
    exact (ih hlabels).step (hroomy pre _ hlabels) label

theorem consistent_start : (start : Lifecycle isPoint).Consistent := by
  refine fun d => ⟨fun g hlink => ?_, fun hconnected => ?_⟩
  · cases hlink
  · cases hconnected

/-- In a run in which no stamp comes round, the table agrees with the links in every state exactly if every step is
guarded. -/
theorem consistent_iff_guarded (labels : List (Label isPoint))
    (hroomy : ∀ pre post, labels = pre ++ post → ((start : Lifecycle isPoint).run pre).Roomy) :
    (∀ pre post, labels = pre ++ post → ((start : Lifecycle isPoint).run pre).Consistent) ↔
      ∀ pre label post, labels = pre ++ label :: post → ((start : Lifecycle isPoint).run pre).Guarded label := by
  constructor
  · intro hconsistent pre label post hlabels
    have hafter : labels = pre ++ [label] ++ post := by rw [hlabels, List.append_assoc, List.singleton_append]
    refine ((hconsistent pre _ hlabels).step_iff (traced_run hroomy hlabels) label).mp ?_
    rw [← run_append_singleton]
    exact hconsistent _ _ hafter
  · intro hguarded pre
    induction pre using List.reverseRecOn with
    | nil => exact fun _ _ => consistent_start
    | append_singleton pre label ih =>
      intro post hlabels
      rw [List.append_assoc, List.singleton_append] at hlabels
      rw [run_append_singleton]
      exact ((ih _ hlabels).step_iff (traced_run hroomy hlabels) label).mpr (hguarded pre label post hlabels)

end Lifecycle

namespace PeerManager

variable (m : PeerManager isPoint) (overlay : Bool) (authorize : EndpointId isPoint → AdmissionDecision)
  (snapshot : MembershipSnapshot) (enforce : Bool) (tsMs : Nat)

/-- The steps of a reconcile. -/
def reconcileSteps : List (Lifecycle.Label isPoint) :=
  (m.toStop overlay authorize snapshot enforce).toList.map (fun d =>
    .reconcileStop d (d ∈ m.admittedLinks authorize snapshot enforce)
      (enforce && !decide (d ∈ desiredDevices snapshot m.selfDevice)) tsMs) ++
  ((m.desiredLinks overlay authorize snapshot enforce).toList.filter fun d => d ∉ m.dials).map fun d =>
    .reconcileStart d tsMs

variable {m overlay authorize snapshot enforce tsMs} {w : Lifecycle isPoint}

theorem shared_run_stops (enforce : Bool) (tsMs : Nat) (admitted membershipLinks : OrdSet (EndpointId isPoint))
    (l : List (EndpointId isPoint)) (w : Lifecycle isPoint) (m : PeerManager isPoint) (hshared : w.shared = m.shared) :
    (w.run (l.map fun d => .reconcileStop d (d ∈ admitted) (enforce && !decide (d ∈ membershipLinks)) tsMs)).shared =
      (l.foldl (stopDial enforce tsMs admitted membershipLinks) m).shared := by
  induction l generalizing w m with
  | nil => exact hshared
  | cons device l ih =>
    refine ih _ _ ?_
    rw [Lifecycle.step, hshared]
    rfl

theorem shared_run_starts (tsMs : Nat) (l : List (EndpointId isPoint)) (hl : l.Nodup) (w : Lifecycle isPoint)
    (m : PeerManager isPoint) (hshared : w.shared = m.shared) :
    (w.run ((l.filter fun d => d ∉ m.dials).map fun d => .reconcileStart d tsMs)).shared =
      (l.foldl (startDial tsMs) m).shared := by
  induction l generalizing w m with
  | nil => exact hshared
  | cons device l ih =>
    obtain ⟨hfresh, hrest⟩ := List.nodup_cons.mp hl
    by_cases hrunning : device ∈ m.dials
    · have hsame : startDial tsMs m device = m := if_pos hrunning
      rw [List.filter_cons_of_neg (by simpa using hrunning), List.foldl_cons, hsame]
      exact ih hrest w m hshared
    · have hstarted : startDial tsMs m device =
          { m with dials := m.dials.add device, shared := m.shared.setConnecting device tsMs } := if_neg hrunning
      have hlater : (l.filter fun d => d ∉ m.dials) = l.filter fun d => d ∉ m.dials.add device := by
        refine List.filter_congr fun d hd => ?_
        have hne : d ≠ device := fun h => hfresh (h ▸ hd)
        simp [hne]
      rw [List.filter_cons_of_pos (by simpa using hrunning), List.foldl_cons, hstarted, hlater]
      refine ih hrest (w.step (.reconcileStart device tsMs))
        { m with dials := m.dials.add device, shared := m.shared.setConnecting device tsMs } ?_
      rw [Lifecycle.step, hshared]

/-- A reconcile is a run of its steps. -/
theorem shared_reconcileInner (hshared : w.shared = m.shared) :
    (w.run (m.reconcileSteps overlay authorize snapshot enforce tsMs)).shared =
      (m.reconcileInner overlay authorize snapshot enforce tsMs).shared := by
  have hstops := shared_run_stops enforce tsMs (m.admittedLinks authorize snapshot enforce)
    (desiredDevices snapshot m.selfDevice) (m.toStop overlay authorize snapshot enforce).toList w
    (m.recordAdmitted overlay authorize snapshot enforce) hshared
  obtain ⟨stopped, left, hfold, hleft, -, -⟩ := foldl_stopDial enforce tsMs
    (m.admittedLinks authorize snapshot enforce) (desiredDevices snapshot m.selfDevice)
    (m.toStop overlay authorize snapshot enforce).toList (OrdMap.keys_nodup _)
    (m.recordAdmitted overlay authorize snapshot enforce)
  have hstarts := shared_run_starts tsMs (m.desiredLinks overlay authorize snapshot enforce).toList
    (OrdMap.keys_nodup _) _ _ hstops
  -- A desired device is not stopped, so it has a loop after the stops if it had one before.
  have hmissing : ((m.desiredLinks overlay authorize snapshot enforce).toList.filter fun d => d ∉ left) =
      (m.desiredLinks overlay authorize snapshot enforce).toList.filter fun d => d ∉ m.dials := by
    refine List.filter_congr fun d hd => ?_
    have hstays := desiredLinks_not_mem_toStop (OrdSet.mem_toList.mp hd)
    rw [← OrdSet.mem_toList] at hstays
    simp [hleft, hstays, recordAdmitted]
  rw [hfold] at hstarts
  rw [reconcileSteps, Lifecycle.run, List.foldl_append, ← hmissing, reconcileInner, hfold]
  exact hstarts

end PeerManager

namespace Toy

/-- Device 2 has joined; the node itself is device 1. -/
def joinedPair : MembershipSnapshot :=
  ⟨room, some (identity 1), (OrdMap.empty.insert (identity 1) (activeMember 1)).insert (identity 2) (activeMember 2),
    (OrdMap.empty.insert (device 1) (identity 1)).insert (device 2) (identity 2)⟩

/-- Link `g` of device 2 comes up. -/
def comesUp (g : Nat) (decision : AdmissionDecision) : List (Lifecycle.Label fun _ => true) :=
  [.register (somePoint 2) g false decision true, .activate (somePoint 2) g decision true g]

def idleManager : PeerManager fun _ => true := ⟨.start, somePoint 1, .empty, .empty, .empty⟩

/-- The joiner connects to the node, its join is accepted, and the manager brings the loops in line. -/
def joins : List (Lifecycle.Label fun _ => true) :=
  comesUp 1 .admitProvisional ++ [.upgrade joinedPair (device 2) 2] ++
    idleManager.reconcileSteps false (fun _ => .admitted (identity 2)) joinedPair true 3

/-- The link of the joiner goes down before its join is handled. -/
def joinsLate : List (Lifecycle.Label fun _ => true) :=
  comesUp 1 .admitProvisional ++ [.teardown (somePoint 2) 1 (.offline .linkDropped) 2, .upgrade joinedPair (device 2) 3]

/-- The second of two links goes down. -/
def losesSecond : List (Lifecycle.Label fun _ => true) :=
  comesUp 1 (.admitted (identity 2)) ++ comesUp 2 (.admitted (identity 2)) ++
    [.teardown (somePoint 2) 2 (.offline .linkDropped) 3]

end Toy

/-- After a join the device is shown as connecting, over a live link; after a late one it is shown as connected, with no
link at all; and after the loss of the second of two links it is shown as offline, with the first still up. -/
theorem table_disagrees : ¬ (Lifecycle.start.run Toy.joins).Consistent ∧
    ¬ (Lifecycle.start.run Toy.joinsLate).Consistent ∧ ¬ (Lifecycle.start.run Toy.losesSecond).Consistent := by
  refine ⟨fun h => ?_, fun h => ?_, fun h => ?_⟩
  · have hstate := (h (Toy.somePoint 2)).1 1 (by decide)
    exact absurd hstate (by decide)
  · have hqueue := (h (Toy.somePoint 2)).2 (by decide)
    exact absurd hqueue (by decide)
  · have hstate := (h (Toy.somePoint 2)).1 1 (by decide)
    exact absurd hstate (by decide)

theorem consistent_iff_guarded_comesUp :
    (Lifecycle.start.run (Toy.comesUp 1 (.admitted (Toy.identity 2)))).Consistent ∧
    (Lifecycle.start.run (Toy.comesUp 1 (.admitted (Toy.identity 2)))).standing = [(Toy.somePoint 2, 1)] := by
  have h : ∀ pre post, Toy.comesUp 1 (.admitted (Toy.identity 2)) = pre ++ post →
      (Lifecycle.start.run pre).Consistent := by
    refine (Lifecycle.consistent_iff_guarded _ fun pre post hlabels => ?_).mpr fun pre label post hlabels => ?_
    · have hroomy : ∀ pre ∈ (Toy.comesUp 1 (.admitted (Toy.identity 2))).inits,
          ∀ e ∈ (Lifecycle.start.run pre).shared.links.generations.entries, e.2 + 1 < 2 ^ 64 := by decide
      exact Lifecycle.roomy_of_entries (hroomy pre ((List.mem_inits _ _).mpr ⟨post, hlabels.symm⟩))
    · have hlabel : label ∈ Toy.comesUp 1 (.admitted (Toy.identity 2)) := by
        rw [hlabels]
        simp
      rcases List.mem_cons.mp hlabel with rfl | hlabel
      · trivial
      · rw [List.mem_singleton.mp hlabel]
        trivial
  exact ⟨h _ [] (List.append_nil _).symm, by decide⟩

end IrohRooms
