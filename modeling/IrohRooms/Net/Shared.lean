import IrohRooms.Net.Links
import IrohRooms.Net.PeerTable

/-!
# The shared link state

The link tables, the connection handles and the table of connection states, which the connection tasks, the dial loops
and the manager change, and the critical sections they do it in. Each registration of a link stamps its device with a
new generation, and a teardown acts only if it carries the current stamp, so a link that another one has replaced
cannot disturb its successor, as long as the 64-bit stamp of its device has not come round.
-/

namespace IrohRooms

variable {isPoint : DeviceKey → Bool}

/-- A handle of a live connection. -/
abbrev Connection := Nat

/-- How a link ended. -/
inductive LinkTeardown
  | offline (reason : OfflineReason)
  | unauthorized
  deriving DecidableEq, Repr

structure Shared (isPoint : DeviceKey → Bool) where
  links : Links isPoint
  connections : OrdMap (EndpointId isPoint) Connection
  table : PeerTable isPoint

namespace Shared

def start : Shared isPoint := ⟨.empty, .empty, .empty⟩

variable (s : Shared isPoint) (device : EndpointId isPoint)

def registerEstablishedLink (connection : Connection) (overdue : Bool) (decision : AdmissionDecision)
    (allowProvisional : Bool) : Shared isPoint × LinkRegistration :=
  let registered := s.links.registerEstablishedLink device overdue decision allowProvisional
  match registered.2 with
  | .rejected _ => ({ s with links := registered.1 }, registered.2)
  | _ => ({ s with links := registered.1, connections := s.connections.insert device connection }, registered.2)

def activateLinkIfCurrent (generation : Nat) (decision : AdmissionDecision) (allowProvisional : Bool) (tsMs : Nat) :
    Shared isPoint × LinkActivation :=
  let activated := s.links.activateLinkIfCurrent device generation decision allowProvisional
  match activated.2 with
  | .stale => (s, .stale)
  | _ =>
    let identity := match decision with
      | .admitted identity => some identity
      | _ => none
    ({ s with links := activated.1, table := (s.table.set device .connected identity tsMs).1 }, activated.2)

/-- Drop the queue and the handle. -/
def unregister : Shared isPoint :=
  { s with links := s.links.unregister device, connections := s.connections.erase device }

def invalidateLink : Shared isPoint := { s with links := s.links.invalidateLink device }

def teardownIfCurrent (generation : Nat) (ended : LinkTeardown) (tsMs : Nat) : Shared isPoint × Bool :=
  if s.links.generations.get? device ≠ some generation then (s, false)
  else
    let dropped := { s with links := s.links.clearProvisional device }.unregister device
    match ended with
    | .offline reason => ({ dropped with table := (s.table.setOffline device reason none tsMs).1 }, true)
    | .unauthorized => ({ dropped with table := (s.table.set device .unauthorized none tsMs).1 }, true)

def setConnectingIfNoLink (tsMs : Nat) : Shared isPoint × Bool :=
  if s.links.outbound.contains device then (s, false)
  else ({ s with table := (s.table.set device .connecting none tsMs).1 }, true)

def setOfflineIfNoLink (reason : OfflineReason) (tsMs : Nat) : Shared isPoint × Bool :=
  if s.links.outbound.contains device then (s, false)
  else ({ s with table := (s.table.setOffline device reason none tsMs).1 }, true)

/-- The manager shows a device it starts to dial, whatever its state. -/
def setConnecting (tsMs : Nat) : Shared isPoint := { s with table := (s.table.set device .connecting none tsMs).1 }

/-- Drop the queue and the handle of a removed device; its connection is closed once it has sent its receipt. -/
def beginTerminalTeardown : Shared isPoint := s.unregister device

/-- The teardown of the manager, for any link the device may have. -/
def teardownReconciledLink (stillAdmitted membershipRemoved : Bool) (tsMs : Nat) : Shared isPoint :=
  let invalidated := s.invalidateLink device
  if stillAdmitted then
    { invalidated.unregister device with table := (s.table.setOffline device .linkDropped none tsMs).1 }
  else if membershipRemoved then
    { invalidated.beginTerminalTeardown device with table := (s.table.setOffline device .deauthorized none tsMs).1 }
  else { invalidated.unregister device with table := (s.table.setOffline device .deauthorized none tsMs).1 }

/-! ### Stamps -/

/-- What happens to links. -/
inductive LinkLabel (isPoint : DeviceKey → Bool)
  | register (device : EndpointId isPoint) (connection : Connection) (overdue : Bool) (decision : AdmissionDecision)
      (allowProvisional : Bool)
  | teardown (device : EndpointId isPoint) (generation : Nat) (ended : LinkTeardown) (tsMs : Nat)
  | invalidate (device : EndpointId isPoint)

def LinkLabel.registers : LinkLabel isPoint → Bool
  | .register .. => true
  | _ => false

def linkStep : LinkLabel isPoint → Shared isPoint
  | .register device connection overdue decision allowProvisional =>
    (s.registerEstablishedLink device connection overdue decision allowProvisional).1
  | .teardown device generation ended tsMs => (s.teardownIfCurrent device generation ended tsMs).1
  | .invalidate device => s.invalidateLink device

def LinkRegistration.stamp : LinkRegistration → Option Nat
  | .admitted generation | .provisional generation => some generation
  | .rejected _ => none

/-- The stamp a step gives to a new link of the device. -/
def stampOf : LinkLabel isPoint → Option Nat
  | .register d connection overdue decision allowProvisional =>
    if d = device then
      LinkRegistration.stamp (s.registerEstablishedLink d connection overdue decision allowProvisional).2
    else none
  | _ => none

/-- The step moves the stamp of the device. -/
def moves (label : LinkLabel isPoint) : Bool :=
  match label with
  | .invalidate d => d = device
  | label => (s.stampOf device label).isSome

/-- The stamps given to links of the device in a run. -/
def stamps : Shared isPoint → List (LinkLabel isPoint) → List Nat
  | _, [] => []
  | s, label :: labels => (s.stampOf device label).toList ++ stamps (s.linkStep label) labels

/-- How often a run moves the stamp of the device. -/
def moveCount : Shared isPoint → List (LinkLabel isPoint) → Nat
  | _, [] => 0
  | s, label :: labels => (if s.moves device label then 1 else 0) + moveCount (s.linkStep label) labels

/-- The number of the device's current stamp, `0` before the first one. -/
def generation : Nat := (s.links.generations.get? device).getD 0

/-- All that is kept of a device. -/
structure Held where
  generation : Option Nat
  queue : Option (List RoomMessage)
  connection : Option Connection
  provisional : Bool
  proven : Bool
  entry : Option PeerEntry

/-- What the manager leaves of a device it stops. -/
def Held.stopped (h : Held) (entry : PeerEntry) : Held :=
  { h with
    generation := some ((h.generation.getD 0 + 1) % 2 ^ 64)
    queue := none
    connection := none
    entry := some entry }

def held : Held where
  generation := s.links.generations.get? device
  queue := s.links.outbound.get? device
  connection := s.connections.get? device
  provisional := s.links.isProvisional device
  proven := s.links.isCapabilityProven device
  entry := OrdMap.get? s.table device

def linkRun (labels : List (LinkLabel isPoint)) : Shared isPoint := labels.foldl linkStep s

variable {s device} {d : EndpointId isPoint} {label : LinkLabel isPoint}

theorem held_generation : (s.held device).generation.getD 0 = s.generation device := rfl

/-- A registration either changes nothing but the receipt it owes, or stamps the link and puts it in place. -/
theorem registerEstablishedLink_cases (connection : Connection) (overdue : Bool) (decision : AdmissionDecision)
    (allow : Bool) :
    (∃ owed cause, s.registerEstablishedLink device connection overdue decision allow =
      ({ s with links := { s.links with terminalConfirmations := owed } }, .rejected cause)) ∨
    (∃ owed provisional registration,
      LinkRegistration.stamp registration = some (s.links.nextGeneration device) ∧
      s.registerEstablishedLink device connection overdue decision allow =
        ({ s with
          links := { s.links with terminalConfirmations := owed }.install device provisional
          connections := s.connections.insert device connection }, registration)) := by
  unfold registerEstablishedLink Links.registerEstablishedLink
  by_cases howed : (s.links.terminalConfirmations.contains device && !overdue) = true
  · rw [if_pos howed]
    exact .inl ⟨_, _, rfl⟩
  · rw [if_neg howed]
    cases decision with
    | admitted identity => exact .inr ⟨_, false, .admitted _, rfl, rfl⟩
    | admitProvisional =>
      cases allow with
      | true => exact .inr ⟨_, true, .provisional _, rfl, rfl⟩
      | false => exact .inl ⟨_, _, rfl⟩
    | reject cause => exact .inl ⟨_, _, rfl⟩

/-- A link that is put in place concerns its device alone. -/
theorem held_install (owed : OrdMap (EndpointId isPoint) TerminalConfirmation) (provisional : Bool)
    (connection : Connection) :
    held { s with
      links := { s.links with terminalConfirmations := owed }.install device provisional
      connections := s.connections.insert device connection } d =
    if d = device then
      { s.held device with
        generation := some (s.links.nextGeneration device)
        queue := some []
        connection := some connection
        provisional := provisional }
    else s.held d := by
  by_cases hd : d = device
  · rw [if_pos hd, hd]
    have hmark : ({ s.links with terminalConfirmations := owed }.install device provisional).isProvisional device =
        provisional := by
      cases provisional with
      | true => simp [Links.isProvisional, Links.install]
      | false => simp [Links.isProvisional, Links.install, OrdSet.mem_erase]
    simp only [held, hmark]
    simp [Links.install, Links.isCapabilityProven, Links.nextGeneration]
  · rw [if_neg hd]
    have hmark : ({ s.links with terminalConfirmations := owed }.install device provisional).isProvisional d =
        s.links.isProvisional d := by
      cases provisional with
      | true => simp [Links.isProvisional, Links.install, hd]
      | false => simp [Links.isProvisional, Links.install, OrdSet.mem_erase, hd]
    simp only [held, hmark]
    simp [Links.install, Links.isCapabilityProven, OrdMap.get?_insert_of_ne, hd]

theorem held_invalidateLink : (s.invalidateLink device).held d =
    if d = device then { s.held device with generation := some (s.links.nextGeneration device) } else s.held d := by
  unfold held invalidateLink Links.invalidateLink
  split_ifs with hd
  · rw [hd, OrdMap.get?_insert_self]
    rfl
  · rw [OrdMap.get?_insert_of_ne _ _ hd]
    rfl

/-- A table entry concerns its device alone. -/
theorem held_tabled (s : Shared isPoint) (device d : EndpointId isPoint) (entry : PeerEntry) :
    held { s with table := OrdMap.insert s.table device entry } d =
      if d = device then { s.held device with entry := some entry } else s.held d := by
  unfold held
  split_ifs with hd
  · rw [hd, OrdMap.get?_insert_self]
  · rw [OrdMap.get?_insert_of_ne _ _ hd]

theorem held_setConnecting (s : Shared isPoint) (device d : EndpointId isPoint) (tsMs : Nat) : ∃ entry : PeerEntry,
    entry.state = .connecting ∧
    (s.setConnecting device tsMs).held d =
      if d = device then { s.held device with entry := some entry } else s.held d := by
  obtain ⟨entry, hinsert, hstate, -⟩ := PeerTable.setInner_fst s.table device .connecting none none tsMs
  refine ⟨entry, hstate, ?_⟩
  rw [← held_tabled, ← hinsert]
  rfl

/-- A teardown without the current stamp is none. -/
theorem teardownIfCurrent_of_ne {generation : Nat} (h : (s.held device).generation ≠ some generation)
    (ended : LinkTeardown) (tsMs : Nat) : s.teardownIfCurrent device generation ended tsMs = (s, false) := if_pos h

/-- A teardown with the current stamp drops all but the stamp. -/
theorem teardownIfCurrent_of_eq {generation : Nat} (h : (s.held device).generation = some generation)
    (ended : LinkTeardown) (tsMs : Nat) : ∃ entry : PeerEntry,
    (entry.state = .offline ∨ entry.state = .unauthorized) ∧
    s.teardownIfCurrent device generation ended tsMs =
      ({ { s with links := s.links.clearProvisional device }.unregister device with
          table := OrdMap.insert s.table device entry }, true) := by
  have hcurrent : ¬ s.links.generations.get? device ≠ some generation := not_not.mpr h
  unfold teardownIfCurrent
  rw [if_neg hcurrent]
  cases ended with
  | offline reason =>
    obtain ⟨entry, hinsert, hstate, -⟩ := PeerTable.setInner_fst s.table device .offline none (some reason) tsMs
    refine ⟨entry, .inl hstate, ?_⟩
    rw [← hinsert]
    rfl
  | unauthorized =>
    obtain ⟨entry, hinsert, hstate, -⟩ := PeerTable.setInner_fst s.table device .unauthorized none none tsMs
    refine ⟨entry, .inr hstate, ?_⟩
    rw [← hinsert]
    rfl

/-- What a teardown drops concerns its device alone. -/
theorem held_dropped (entry : PeerEntry) :
    held { { s with links := s.links.clearProvisional device }.unregister device with
      table := OrdMap.insert s.table device entry } d =
    if d = device then ⟨(s.held device).generation, none, none, false, false, some entry⟩ else s.held d := by
  by_cases hd : d = device
  · rw [if_pos hd, hd]
    simp [held, unregister, Links.unregister, Links.clearProvisional, Links.isProvisional, Links.isCapabilityProven,
      OrdMap.get?_erase, OrdSet.mem_erase]
  · rw [if_neg hd]
    simp [held, unregister, Links.unregister, Links.clearProvisional, Links.isProvisional, Links.isCapabilityProven,
      OrdMap.get?_erase, OrdMap.get?_insert_of_ne, OrdSet.mem_erase, hd]

/-- The teardown of the manager concerns its device alone, and drops its queue and its handle whatever its stamp. -/
theorem held_teardownReconciledLink (s : Shared isPoint) (device d : EndpointId isPoint)
    (stillAdmitted membershipRemoved : Bool) (tsMs : Nat) : ∃ entry : PeerEntry,
    entry.state = .offline ∧ entry.offlineReason = (if stillAdmitted then .linkDropped else .deauthorized) ∧
    (s.teardownReconciledLink device stillAdmitted membershipRemoved tsMs).held d =
      if d = device then (s.held device).stopped entry else s.held d := by
  obtain ⟨entry, hinsert, hstate, hreason⟩ := PeerTable.setInner_fst s.table device .offline none
    (some (if stillAdmitted then .linkDropped else .deauthorized)) tsMs
  refine ⟨entry, hstate, hreason _ rfl, ?_⟩
  have hshared : s.teardownReconciledLink device stillAdmitted membershipRemoved tsMs =
      { (s.invalidateLink device).unregister device with table := OrdMap.insert s.table device entry } := by
    unfold teardownReconciledLink
    rw [← hinsert]
    cases stillAdmitted with
    | true => rfl
    | false => cases membershipRemoved <;> rfl
  rw [hshared]
  unfold held invalidateLink Links.invalidateLink unregister Links.unregister
  split_ifs with hd
  · rw [hd, OrdMap.get?_insert_self, OrdMap.get?_insert_self, OrdMap.get?_erase, OrdMap.get?_erase, if_pos rfl,
      if_pos rfl]
    rfl
  · rw [OrdMap.get?_insert_of_ne _ _ hd, OrdMap.get?_insert_of_ne _ _ hd, OrdMap.get?_erase, OrdMap.get?_erase,
      if_neg hd, if_neg hd]
    rfl

/-- A step that neither moves the stamp of the device nor tears down its current link leaves all that is kept of it. -/
theorem held_linkStep (hstays : s.moves d label = false)
    (hteardown : ∀ g ended tsMs, label = .teardown d g ended tsMs → (s.held d).generation ≠ some g) :
    (s.linkStep label).held d = s.held d := by
  cases label with
  | register device connection overdue decision allow =>
    simp only [linkStep]
    obtain ⟨owed, cause, h⟩ | ⟨owed, provisional, registration, hstamp, h⟩ :=
      registerEstablishedLink_cases connection overdue decision allow
    · rw [h]
      rfl
    · rw [h, held_install, if_neg]
      rintro rfl
      simp [moves, stampOf, h, hstamp] at hstays
  | teardown device g ended tsMs =>
    simp only [linkStep]
    by_cases hcurrent : (s.held device).generation = some g
    · obtain ⟨entry, -, h⟩ := teardownIfCurrent_of_eq hcurrent ended tsMs
      rw [h, held_dropped, if_neg]
      rintro rfl
      exact hteardown g ended tsMs rfl hcurrent
    · rw [teardownIfCurrent_of_ne hcurrent]
  | invalidate device =>
    simp only [linkStep]
    rw [held_invalidateLink, if_neg]
    rintro rfl
    simp [moves] at hstays

/-- The stamp of a new link is the next one, and the link is put in place with an empty queue. -/
theorem stampOf_eq_some {g : Nat} (h : s.stampOf d label = some g) :
    g = s.links.nextGeneration d ∧ ∃ connection provisional, (s.linkStep label).held d =
      { s.held d with
        generation := some g
        queue := some []
        connection := some connection
        provisional := provisional } := by
  cases label with
  | register device connection overdue decision allow =>
    simp only [stampOf, linkStep] at h ⊢
    split_ifs at h with hd
    obtain ⟨owed, cause, hregister⟩ | ⟨owed, provisional, registration, hstamp, hregister⟩ :=
      registerEstablishedLink_cases connection overdue decision allow
    · rw [hregister] at h
      cases h
    · rw [hregister, hstamp] at h
      cases h
      refine ⟨by rw [hd], connection, provisional, ?_⟩
      rw [hregister, held_install, if_pos hd.symm, hd]
  | teardown => cases h
  | invalidate => cases h

theorem generation_linkStep (s : Shared isPoint) (d : EndpointId isPoint) (label : LinkLabel isPoint) :
    (s.linkStep label).generation d = if s.moves d label then (s.generation d + 1) % 2 ^ 64 else s.generation d := by
  by_cases hmoves : s.moves d label = true
  · rw [if_pos hmoves]
    cases hstamp : s.stampOf d label with
    | some g =>
      obtain ⟨rfl, connection, provisional, hheld⟩ := stampOf_eq_some hstamp
      rw [← held_generation, hheld]
      rfl
    | none =>
      cases label with
      | register => simp [moves, hstamp] at hmoves
      | teardown => simp [moves, hstamp] at hmoves
      | invalidate device =>
        have hd : device = d := by simpa [moves] using hmoves
        rw [← held_generation, linkStep, held_invalidateLink, if_pos hd.symm, hd]
        rfl
  · rw [if_neg hmoves]
    by_cases hteardown : ∃ g ended tsMs, label = .teardown d g ended tsMs ∧ (s.held d).generation = some g
    · obtain ⟨g, ended, tsMs, rfl, hcurrent⟩ := hteardown
      obtain ⟨entry, -, h⟩ := teardownIfCurrent_of_eq hcurrent ended tsMs
      rw [← held_generation, linkStep, h, held_dropped, if_pos rfl]
      rfl
    · have hheld : (s.linkStep label).held d = s.held d := held_linkStep (by simpa using hmoves)
        fun g ended tsMs hlabel hcurrent => hteardown ⟨g, ended, tsMs, hlabel, hcurrent⟩
      rw [← held_generation, hheld, held_generation]

variable {labels : List (LinkLabel isPoint)}

theorem linkRun_cons (s : Shared isPoint) (label : LinkLabel isPoint) (labels : List (LinkLabel isPoint)) :
    s.linkRun (label :: labels) = (s.linkStep label).linkRun labels := rfl

theorem linkRun_append (s : Shared isPoint) (labels more : List (LinkLabel isPoint)) :
    s.linkRun (labels ++ more) = (s.linkRun labels).linkRun more := List.foldl_append

theorem moveCount_append (s : Shared isPoint) (labels more : List (LinkLabel isPoint)) :
    moveCount d s (labels ++ more) = moveCount d s labels + moveCount d (s.linkRun labels) more := by
  induction labels generalizing s with
  | nil => exact (Nat.zero_add _).symm
  | cons label labels ih =>
    rw [List.cons_append, moveCount, moveCount, ih, Nat.add_assoc]
    rfl

/-- A stamp that does not come round in a run is moved up by each step that moves it. -/
theorem generation_linkStep_few (hfew : s.generation d + s.moveCount d (label :: labels) < 2 ^ 64) :
    (s.linkStep label).generation d = s.generation d + (if s.moves d label then 1 else 0) ∧
    (s.linkStep label).generation d + (s.linkStep label).moveCount d labels < 2 ^ 64 := by
  have hstep := generation_linkStep s d label
  rw [moveCount] at hfew
  split_ifs at hstep hfew ⊢ with hmoves
  · rw [Nat.mod_eq_of_lt (by omega)] at hstep
    omega
  · omega

/-- As long as the stamp of a device does not come round, its number is how often it was moved. -/
theorem generation_linkRun (s : Shared isPoint) (hfew : s.generation d + s.moveCount d labels < 2 ^ 64) :
    (s.linkRun labels).generation d = s.generation d + s.moveCount d labels := by
  induction labels generalizing s with
  | nil => rfl
  | cons label labels ih =>
    obtain ⟨hstep, hrest⟩ := generation_linkStep_few hfew
    have hrun := ih (s.linkStep label) hrest
    rw [moveCount, ← Nat.add_assoc, ← hstep, ← hrun]
    rfl

theorem stampOf_few {g : Nat} (hfew : s.generation d + s.moveCount d (label :: labels) < 2 ^ 64)
    (h : s.stampOf d label = some g) : g = s.generation d + 1 ∧ (s.linkStep label).generation d = g := by
  obtain ⟨hg, connection, provisional, hheld⟩ := stampOf_eq_some h
  have hgeneration : (s.linkStep label).generation d = g := by
    rw [← held_generation, hheld]
    rfl
  have hmoves : s.moves d label = true := by
    cases label with
    | register => simp [moves, h]
    | teardown => cases h
    | invalidate => cases h
  have hstep := (generation_linkStep_few hfew).1
  rw [if_pos hmoves, hgeneration] at hstep
  exact ⟨hstep, hgeneration⟩

/-- The stamps given in a run lie above the one it starts from, and not above the one it leads to. -/
theorem mem_stamps {g : Nat} (s : Shared isPoint) (hfew : s.generation d + s.moveCount d labels < 2 ^ 64)
    (hg : g ∈ s.stamps d labels) : s.generation d < g ∧ g ≤ s.generation d + s.moveCount d labels := by
  induction labels generalizing s with
  | nil => cases hg
  | cons label labels ih =>
    obtain ⟨hstep, hrest⟩ := generation_linkStep_few hfew
    rw [stamps, List.mem_append, Option.mem_toList] at hg
    rw [moveCount]
    rcases hg with hg | hg
    · have hfirst := stampOf_few hfew hg
      omega
    · have hlater := ih (s.linkStep label) hrest hg
      omega

theorem stamps_pairwise (s : Shared isPoint) (hfew : s.generation d + s.moveCount d labels < 2 ^ 64) :
    (s.stamps d labels).Pairwise (· < ·) := by
  induction labels generalizing s with
  | nil => exact List.Pairwise.nil
  | cons label labels ih =>
    obtain ⟨hstep, hrest⟩ := generation_linkStep_few hfew
    rw [stamps]
    cases hstamp : s.stampOf d label with
    | none => exact ih (s.linkStep label) hrest
    | some g =>
      refine List.pairwise_cons.mpr ⟨fun later hlater => ?_, ih (s.linkStep label) hrest⟩
      have hfirst := stampOf_few hfew hstamp
      have habove := mem_stamps (s.linkStep label) hrest hlater
      omega

/-- A run that gives no stamp, invalidates nothing and does not tear the current link down leaves all that is kept of
the device. -/
theorem held_linkRun {g : Nat} (s : Shared isPoint) (hcurrent : (s.held d).generation = some g)
    (hinvalidate : .invalidate d ∉ labels) (hteardown : ∀ ended tsMs, .teardown d g ended tsMs ∉ labels)
    (hnewest : s.stamps d labels = []) : (s.linkRun labels).held d = s.held d := by
  induction labels generalizing s with
  | nil => rfl
  | cons label labels ih =>
    rw [stamps, List.append_eq_nil_iff] at hnewest
    have hstays : s.moves d label = false := by
      cases label with
      | register => simpa [moves] using hnewest.1
      | teardown => rfl
      | invalidate device =>
        refine decide_eq_false fun hd => hinvalidate ?_
        rw [hd]
        exact List.mem_cons_self
    have hheld : (s.linkStep label).held d = s.held d := by
      refine held_linkStep hstays fun g' ended tsMs hlabel hg' => hteardown ended tsMs ?_
      rw [hcurrent, Option.some.injEq] at hg'
      rw [hg', hlabel]
      exact List.mem_cons_self
    have hrest := ih (s.linkStep label) (by rw [hheld, hcurrent]) (fun h => hinvalidate (List.mem_cons_of_mem _ h))
      (fun ended tsMs h => hteardown ended tsMs (List.mem_cons_of_mem _ h)) hnewest.2
    rw [← hheld]
    exact hrest

theorem stamps_append (s : Shared isPoint) (labels more : List (LinkLabel isPoint)) :
    s.stamps d (labels ++ more) = s.stamps d labels ++ (s.linkRun labels).stamps d more := by
  induction labels generalizing s with
  | nil => rfl
  | cons label labels ih =>
    rw [List.cons_append, stamps, stamps, ih, List.append_assoc]
    rfl

/-- Invalidations give no stamp and move the current one, modulo `2 ^ 64`. -/
theorem linkRun_invalidations {g : Nat} (hcurrent : s.links.generations.get? d = some g) (hg : g < 2 ^ 64) (n : Nat) :
    s.stamps d (List.replicate n (.invalidate d)) = [] ∧
    s.linkRun (List.replicate n (.invalidate d)) =
      { s with links := { s.links with generations := s.links.generations.insert d ((g + n) % 2 ^ 64) } } := by
  induction n with
  | zero =>
    refine ⟨rfl, ?_⟩
    rw [Nat.add_zero, Nat.mod_eq_of_lt hg, OrdMap.insert_of_get? hcurrent]
    rfl
  | succ n ih =>
    rw [List.replicate_succ', stamps_append, ih.1]
    refine ⟨rfl, ?_⟩
    have hnext : (((g + n) % 2 ^ 64) + 1) % 2 ^ 64 = (g + (n + 1)) % 2 ^ 64 := by omega
    have htwice : ∀ x y : Nat, (s.links.generations.insert d x).insert d y = s.links.generations.insert d y := by
      intro x y
      refine OrdMap.ext_get? fun k => ?_
      rw [OrdMap.get?_insert, OrdMap.get?_insert, OrdMap.get?_insert]
      split_ifs <;> rfl
    rw [linkRun_append, ih.2]
    simp only [linkRun, List.foldl_cons, List.foldl_nil, linkStep, invalidateLink, Links.invalidateLink,
      Links.nextGeneration, OrdMap.get?_insert_self, Option.getD_some, hnext, htwice]

/-- As long as the stamp of a device does not come round: no stamp is given twice, and each new one is above all that
the device had before; after any part of a run a teardown with an older stamp than the newest one does nothing; and from
its registration on the newest link keeps all it has until it is torn down or invalidated. -/
theorem superseded_harmless (s : Shared isPoint) (device : EndpointId isPoint) (labels : List (LinkLabel isPoint))
    (hfew : s.generation device + s.moveCount device labels < 2 ^ 64) :
    (s.stamps device labels).Nodup ∧
    ∀ pre post, labels = pre ++ post →
      (∀ g ∈ (s.linkRun pre).stamps device post, (s.linkRun pre).generation device < g) ∧
      (∀ newest ∈ s.stamps device pre, ∀ g < newest, ∀ ended tsMs,
        (s.linkRun pre).teardownIfCurrent device g ended tsMs = (s.linkRun pre, false)) ∧
      ∀ label rest g, post = label :: rest → (s.linkRun pre).stampOf device label = some g →
        ((s.linkRun pre).linkStep label).stamps device rest = [] →
        .invalidate device ∉ rest → (∀ ended tsMs, .teardown device g ended tsMs ∉ rest) →
        (((s.linkRun pre).linkStep label).held device).queue = some [] ∧
        (s.linkRun labels).held device = ((s.linkRun pre).linkStep label).held device := by
  refine ⟨(stamps_pairwise s hfew).imp fun h => h.ne, ?_⟩
  rintro pre post rfl
  rw [moveCount_append] at hfew
  have hreached : (s.linkRun pre).generation device = s.generation device + s.moveCount device pre :=
    generation_linkRun s (by omega)
  refine ⟨fun g hg => (mem_stamps (s.linkRun pre) (by omega) hg).1, ?_, ?_⟩
  · intro newest hnewest g hg ended tsMs
    have hbound := mem_stamps s (by omega) hnewest
    refine teardownIfCurrent_of_ne (fun hcurrent => ?_) ended tsMs
    have hgeneration := @held_generation _ (s.linkRun pre) device
    rw [hcurrent, Option.getD_some] at hgeneration
    omega
  · rintro label rest g rfl hstamp hnewest hinvalidate hteardown
    obtain ⟨-, connection, provisional, hheld⟩ := stampOf_eq_some hstamp
    have hkept := held_linkRun ((s.linkRun pre).linkStep label) (by rw [hheld]) hinvalidate hteardown hnewest
    refine ⟨by rw [hheld], ?_⟩
    rw [← hkept, linkRun_append]
    rfl

end Shared

namespace Toy

/-- A link of device 2 that is admitted. -/
def admittedLink (connection : Connection) : Shared.LinkLabel fun _ => true :=
  .register (somePoint 2) connection false (.admitted (identity 2)) false

/-- The device connects again before its first link is torn down. -/
def reconnected : List (Shared.LinkLabel fun _ => true) := [admittedLink 1, admittedLink 2]

end Toy

theorem superseded_harmless_reconnected :
    (Shared.start.stamps (Toy.somePoint 2) Toy.reconnected).Nodup ∧
    (Shared.start.linkRun Toy.reconnected).teardownIfCurrent (Toy.somePoint 2) 1 .unauthorized 0 =
      (Shared.start.linkRun Toy.reconnected, false) := by
  have h := Shared.superseded_harmless .start (Toy.somePoint 2) Toy.reconnected (by decide)
  refine ⟨h.1, ?_⟩
  exact (h.2 Toy.reconnected [] rfl).2.1 2 (by decide) 1 (by decide) .unauthorized 0

namespace Toy

/-- Between the two links the device is invalidated until its stamp has come round. -/
def comeRound : List (Shared.LinkLabel fun _ => true) :=
  admittedLink 1 :: (List.replicate (2 ^ 64 - 1) (.invalidate (somePoint 2)) ++ [admittedLink 2])

/-- The state after the first link, with its stamp replaced. -/
def linkedAt (g : Nat) : Shared fun _ => true :=
  let linked := Shared.start.linkStep (admittedLink 1)
  { linked with links := { linked.links with generations := linked.links.generations.insert (somePoint 2) g } }

end Toy

/-- Two links are registered, both with stamp 1, so the teardown of the first drops the queue of the second. -/
theorem stamps_reused : Toy.comeRound.countP Shared.LinkLabel.registers = 2 ∧
    Shared.start.stamps (Toy.somePoint 2) Toy.comeRound = [1, 1] ∧
    ((Shared.start.linkRun Toy.comeRound).held (Toy.somePoint 2)).queue = some [] ∧
    ((Shared.start.linkRun Toy.comeRound).teardownIfCurrent (Toy.somePoint 2) 1 (.offline .linkDropped) 0).2 = true ∧
    (((Shared.start.linkRun Toy.comeRound).teardownIfCurrent (Toy.somePoint 2) 1 (.offline .linkDropped) 0).1.held
      (Toy.somePoint 2)).queue = none := by
  have hwrap : (1 + (2 ^ 64 - 1)) % 2 ^ 64 = 0 := by decide
  obtain ⟨hnone, hzero⟩ := Shared.linkRun_invalidations (s := Shared.start.linkStep (Toy.admittedLink 1))
    (d := Toy.somePoint 2) (g := 1) (by decide) (by decide) (2 ^ 64 - 1)
  rw [hwrap] at hzero
  have hrun : Shared.start.linkRun Toy.comeRound = (Toy.linkedAt 0).linkStep (Toy.admittedLink 2) := by
    rw [Toy.comeRound, Shared.linkRun_cons, Shared.linkRun_append, hzero]
    rfl
  have hstamps : Shared.start.stamps (Toy.somePoint 2) Toy.comeRound = [1, 1] := by
    rw [Toy.comeRound, Shared.stamps, Shared.stamps_append, hnone, hzero]
    decide
  rw [hrun]
  refine ⟨?_, hstamps, rfl, by decide, rfl⟩
  rw [Toy.comeRound, List.countP_cons, List.countP_append, List.countP_replicate]
  rfl

end IrohRooms
