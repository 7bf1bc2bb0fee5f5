import IrohRooms.Event.Build
import IrohRooms.Membership.Invariant

/-!
# Convergence of the fold

Two runs over the same set of events end with the same classification of every id and the same snapshot: their
results solve one classification problem, which has one solution. The same argument on a causally closed part of
the events shows that a log holding exactly the accepted events refolds to itself, provided no event was
classified on top of a rejected parent.
-/

namespace IrohRooms

namespace RoomMembership

variable {env : Env} {room : RoomId} {m m' : RoomMembership env room}

/-- What is known of an id: untracked, pending, or decided (advisory flags dropped). -/
def classification (m : RoomMembership env room) (id : EventId) : Option (Option (Except RejectReason Unit)) :=
  (m.nodes.get? id).map fun n => n.verdict.outcome

/-! ### The events a run tracks -/

theorem cascade_event? (fuel : Nat) (work : List EventId) (hwf : WF m) :
    (cascade fuel m work).event? = m.event? := by
  refine (cascade_induction (P := fun m' => m'.event? = m.event?) (fun hcl _ h => ?_) fuel work hwf rfl).2
  rw [← h]
  exact funext hcl.event?_eq

theorem ingest_event? (hwf : WF m) (v : ValidatedEvent env room) (j : EventId) :
    (m.ingest v).event? j = (m.event? j).or (if j = v.eventId then some v.event else none) := by
  unfold RoomMembership.ingest
  split_ifs with hknown hj hj
  · obtain ⟨n, hn⟩ := Option.isSome_iff_exists.mp (show (m.nodes.get? v.eventId).isSome from hknown)
    simp [event?, hj, hn]
  · simp
  · have hnew : m.nodes.get? v.eventId = none := by simpa [OrdMap.contains] using hknown
    rw [cascade_event? _ _ (track_wf hnew hwf), event?, track_get?, if_pos hj, hj]
    simp [event?, hnew]
  · have hnew : m.nodes.get? v.eventId = none := by simpa [OrdMap.contains] using hknown
    rw [cascade_event? _ _ (track_wf hnew hwf), event?, track_get?, if_neg hj]
    simp [event?]

/-- A run tracks the first event of each id. -/
theorem fromEvents_event? (events : List (ValidatedEvent env room)) (j : EventId) :
    (fromEvents events).event? j = (events.find? fun v => v.eventId == j).map fun v => v.event := by
  have hrun : ∀ (events : List (ValidatedEvent env room)) (m : RoomMembership env room), Settled m →
      (events.foldl RoomMembership.ingest m).event? j =
        (m.event? j).or ((events.find? fun v => v.eventId == j).map fun v => v.event) := by
    intro events
    induction events with
    | nil => simp
    | cons v events ih =>
      intro m h
      rw [List.foldl_cons, ih _ (h.ingest v), ingest_event? h.wf, List.find?_cons]
      by_cases hj : v.eventId = j
      · cases m.event? j <;> simp [hj]
      · have hj' : ¬ j = v.eventId := fun heq => hj heq.symm
        have hbeq : (v.eventId == j) = false := beq_eq_false_iff_ne.mpr hj
        simp [hbeq, hj']
  have hnew : (new : RoomMembership env room).event? j = none := by simp [event?, new]
  rw [fromEvents, hrun events new settled_new, hnew, Option.none_or]

/-- When ids determine events, a run tracks exactly the events of its list. -/
theorem fromEvents_event?_iff {events : List (ValidatedEvent env room)}
    (hdet : ∀ v ∈ events, ∀ w ∈ events, v.eventId = w.eventId → v.event = w.event) {j : EventId} {e : SignedEvent} :
    (fromEvents events).event? j = some e ↔ ∃ v ∈ events, v.eventId = j ∧ v.event = e := by
  rw [fromEvents_event?]
  constructor
  · intro h
    obtain ⟨v, hv, rfl⟩ := Option.map_eq_some_iff.mp h
    have hid := List.find?_some hv
    exact ⟨v, List.mem_of_find?_eq_some hv, by simpa using hid, rfl⟩
  · rintro ⟨v, hv, hid, rfl⟩
    cases hf : events.find? fun v => v.eventId == j with
    | none => exact absurd hid (by simpa using List.find?_eq_none.mp hf v hv)
    | some w =>
      have hw : w.eventId = j := by simpa using List.find?_some hf
      simp [hdet w (List.mem_of_find?_eq_some hf) v hv (hw.trans hid.symm)]

theorem fromEvents_event?_congr {events events' : List (ValidatedEvent env room)} (hset : ∀ v, v ∈ events ↔ v ∈ events')
    (hdet : ∀ v ∈ events, ∀ w ∈ events, v.eventId = w.eventId → v.event = w.event) :
    (fromEvents events).event? = (fromEvents events').event? := by
  have hdet' : ∀ v ∈ events', ∀ w ∈ events', v.eventId = w.eventId → v.event = w.event :=
    fun v hv w hw => hdet v ((hset v).mpr hv) w ((hset w).mpr hw)
  funext j
  refine Option.ext fun e => ?_
  rw [fromEvents_event?_iff hdet, fromEvents_event?_iff hdet']
  simp only [hset]

/-! ### One solution -/

/-- Settled states over the same events have the same results. -/
theorem Settled.result_unique (h : Settled m) (h' : Settled m') (hevents : m.event? = m'.event?) :
    m.result = m'.result := by
  have hdeps : m'.deps = m.deps := by
    funext j
    rw [deps, deps, hevents]
  have hsol' : Staged.Solution m.deps (rule env room m.event?) m'.result := by
    rw [← hdeps, hevents]
    exact h'.solution
  refine h.solution.unique hsol' fun id hready hbelow => ?_
  have hid := h.solution.eq_rule hready
  have hne : m.result id ≠ none := by simp [hid]
  obtain ⟨e, he⟩ := event?_of_result hne
  have hlook : ∀ a, Staged.Below m.deps a id → lookOf m.event? m.result a = lookOf m.event? m'.result a := by
    intro a ha
    rw [lookOf, lookOf, hbelow a ha]
  refine rule_congr he he (fun p hp => ?_) fun a ha => ?_
  · exact hlook p (Staged.Below.of_dep (dep_iff.mpr ⟨e, he, hp⟩))
  · exact hlook a ((h.wf.mem_memo_iff hid).mp ha).1

theorem classification_eq (id : EventId) :
    m.classification id = (m.event? id).map fun _ => (m.result id).map Prod.fst := by
  cases hn : m.nodes.get? id with
  | none => simp [classification, event?, hn]
  | some n => simp [classification, event?, result, hn, Function.comp_def]

/-- The accepted entries of a well-formed state are determined by its events and results. -/
theorem WF.entries_eq (h : WF m) (h' : WF m') (hevents : m.event? = m'.event?) (hresults : m.result = m'.result) :
    m.entries = m'.entries := by
  have hentry : ∀ (m : RoomMembership env room), m.entries =
      (m.nodes.mapValues fun n => (n.event.event, n.isAccepted, n.membershipAncestors)).entries.map
        fun e => ⟨e.1, e.2.1, e.2.2.1, e.2.2.2⟩ := by
    intro m
    simp [entries, OrdMap.mapValues, Node.entry]
  rw [hentry, hentry]
  congr 2
  refine OrdMap.ext_get? fun id => ?_
  have hlook := h.entryOf_eq id
  rw [hevents, hresults, ← h'.entryOf_eq id] at hlook
  rw [OrdMap.get?_mapValues, OrdMap.get?_mapValues]
  simp only [entryOf] at hlook
  cases hn : m.nodes.get? id <;> cases hn' : m'.nodes.get? id <;> simp_all [Node.entry]

/-- Ingesting the same set of events in any order, with any repetitions, gives the same classification and
the same snapshot. -/
theorem fromEvents_converges (events events' : List (ValidatedEvent env room))
    (hset : ∀ v, v ∈ events ↔ v ∈ events')
    (hdet : ∀ v ∈ events, ∀ w ∈ events, v.eventId = w.eventId → v.event = w.event) :
    (∀ id, (fromEvents events).classification id = (fromEvents events').classification id) ∧
      (fromEvents events).snapshot = (fromEvents events').snapshot := by
  have hevents := fromEvents_event?_congr hset hdet
  have hs := settled_fromEvents events
  have hs' := settled_fromEvents events'
  have hresults := hs.result_unique hs' hevents
  refine ⟨fun id => ?_, ?_⟩
  · rw [classification_eq, classification_eq, hevents, hresults]
  · rw [snapshot, snapshot, hs.wf.entries_eq hs'.wf hevents hresults]

theorem Toy.log_determined {events : List (Nat × SignedEvent)}
    (hids : (events.map fun p => (Bytes32.ofNat p.1 : EventId)).Nodup) :
    ∀ v ∈ Toy.log events, ∀ w ∈ Toy.log events, v.eventId = w.eventId → v.event = w.event := by
  intro v hv w hw heq
  obtain ⟨p, hp, hpv⟩ := List.mem_map.mp (Toy.mem_log hv)
  obtain ⟨q, hq, hqw⟩ := List.mem_map.mp (Toy.mem_log hw)
  rw [Prod.mk.injEq] at hpv hqw
  have hpq : p = q := List.inj_on_of_nodup_map hids hp hq (hpv.1.trans (heq.trans hqw.1.symm))
  rw [← hpv.2, ← hqw.2, hpq]

/-- An invite delivered before, after and between copies of its genesis. -/
theorem fromEvents_converges_reordered :
    let events := Toy.log [(10, Toy.genesis), (11, Toy.invite 2 7 .member none [10])]
    let events' := Toy.log [(11, Toy.invite 2 7 .member none [10]), (10, Toy.genesis),
      (11, Toy.invite 2 7 .member none [10])]
    (∀ id, (fromEvents events).classification id = (fromEvents events').classification id) ∧
      (fromEvents events).snapshot = (fromEvents events').snapshot := by
  refine fromEvents_converges _ _ (fun v => ?_) (Toy.log_determined (by decide))
  refine Toy.mem_log_congr fun p => ?_
  generalize (10, Toy.genesis) = g
  generalize (11, Toy.invite 2 7 .member none [10]) = i
  simp only [List.mem_cons, List.not_mem_nil, or_false]
  tauto

/-! ### Causal closure

Readiness asks only that parents are classified, so an event may be accepted on top of a rejected parent. When
that never happens the accepted set is closed under parents and refolds to itself. -/

/-- No event was classified on top of a rejected parent. -/
def NoRejectedParent (m : RoomMembership env room) : Prop :=
  ∀ {id e}, m.result id ≠ none → m.event? id = some e → ∀ p ∈ e.prevEvents, ∀ reason s,
    m.result p ≠ some (.error reason, s)

theorem Settled.parent_accepted (h : Settled m) (hclean : NoRejectedParent m) {id p : EventId} {e : SignedEvent}
    (hacc : m.isAccepted id = true) (he : m.event? id = some e) (hp : p ∈ e.prevEvents) :
    m.isAccepted p = true := by
  obtain ⟨s, hs⟩ := isAccepted_iff.mp hacc
  have hne : m.result id ≠ none := by simp [hs]
  have hpc := h.wf.parents hne he p hp
  have hnot := hclean hne he p hp
  rcases hr : m.result p with _ | ⟨reason | ⟨⟩, s'⟩
  · exact absurd hr hpc
  · exact absurd hr (hnot reason s')
  · exact isAccepted_iff.mpr ⟨s', hr⟩

theorem Settled.ancestor_accepted (h : Settled m) (hclean : NoRejectedParent m) {a id : EventId}
    (hb : Staged.Below m.deps a id) (hacc : m.isAccepted id = true) : m.isAccepted a = true := by
  induction hb with
  | single hd =>
    obtain ⟨e, he, hp⟩ := dep_iff.mp hd
    exact h.parent_accepted hclean hacc he hp
  | tail _ hd ih =>
    obtain ⟨e, he, hp⟩ := dep_iff.mp hd
    exact ih (h.parent_accepted hclean hacc he hp)

/-- A state over exactly the accepted events of another classifies them as the other does. -/
theorem Settled.refold_result (h : Settled m) (h' : Settled m') (hclean : NoRejectedParent m)
    (hlog : ∀ id e, m'.event? id = some e ↔ m.isAccepted id = true ∧ m.event? id = some e) {a : EventId}
    (ha : m.isAccepted a = true) : m'.event? a = m.event? a ∧ m'.result a = m.result a := by
  have hevent : ∀ {a}, m.isAccepted a = true → m'.event? a = m.event? a := by
    intro a ha
    obtain ⟨s, hs⟩ := isAccepted_iff.mp ha
    obtain ⟨e, he⟩ := event?_of_result (m := m) (show m.result a ≠ none by simp [hs])
    rw [he, (hlog a e).mpr ⟨ha, he⟩]
  have hdeps : ∀ {a}, m.isAccepted a = true → m'.deps a = m.deps a := by
    intro a ha
    rw [deps, deps, hevent ha]
  have hclosed : ∀ {i d}, m.isAccepted i = true → Staged.Dep m.deps d i → m.isAccepted d = true :=
    fun hi hd => h.ancestor_accepted hclean (Staged.Below.of_dep hd) hi
  refine ⟨hevent ha, ?_⟩
  obtain ⟨s, hs⟩ := isAccepted_iff.mp ha
  refine h.solution.restrict_eq h'.solution hdeps hclosed (fun {i} hi hbelow => ?_) ha
    (h.wf.ready (by simp [hs]))
  obtain ⟨si, hsi⟩ := isAccepted_iff.mp hi
  obtain ⟨e, he⟩ := event?_of_result (m := m) (show m.result i ≠ none by simp [hsi])
  have hlook : ∀ b, Staged.Below m.deps b i →
      lookOf m.event? m.result b = lookOf m'.event? m'.result b := by
    intro b hb
    rw [lookOf, lookOf, hbelow b hb, hevent (h.ancestor_accepted hclean hb hi)]
  refine rule_congr he ((hevent hi).trans he) (fun p hp => ?_) fun b hb => ?_
  · exact hlook p (Staged.Below.of_dep (dep_iff.mpr ⟨e, he, hp⟩))
  · rw [← h.wf.rule hsi] at hb
    exact hlook b ((h.wf.mem_memo_iff hsi).mp hb).1

/-- A state over exactly the accepted events of another accepts exactly those. -/
theorem Settled.refold (h : Settled m) (h' : Settled m') (hclean : NoRejectedParent m)
    (hlog : ∀ id e, m'.event? id = some e ↔ m.isAccepted id = true ∧ m.event? id = some e) (id : EventId) :
    m'.isAccepted id = m.isAccepted id := by
  by_cases hacc : m.isAccepted id = true
  · obtain ⟨s, hs⟩ := isAccepted_iff.mp hacc
    rw [hacc, isAccepted_iff]
    exact ⟨s, (h.refold_result h' hclean hlog hacc).2.trans hs⟩
  · rw [Bool.not_eq_true] at hacc
    rw [hacc, Bool.eq_false_iff]
    intro hacc'
    obtain ⟨s, hs⟩ := isAccepted_iff.mp hacc'
    obtain ⟨e, he⟩ := event?_of_result (m := m') (show m'.result id ≠ none by simp [hs])
    rw [((hlog id e).mp he).1] at hacc
    cases hacc

/-- In every run that classifies no event on top of a rejected parent, the accepted set is closed under parents
and ancestors, and every log of exactly the accepted events refolds to the same accepted set. -/
theorem accepted_closed_of_noRejectedParent (events : List (ValidatedEvent env room))
    (hclean : NoRejectedParent (fromEvents events)) :
    (∀ id e, (fromEvents events).isAccepted id = true → (fromEvents events).event? id = some e →
      ∀ p ∈ e.prevEvents, (fromEvents events).isAccepted p = true) ∧
    (∀ a id, Staged.Below (fromEvents events).deps a id → (fromEvents events).isAccepted id = true →
      (fromEvents events).isAccepted a = true) ∧
    ∀ log : List (ValidatedEvent env room),
      (∀ id e, (fromEvents log).event? id = some e ↔
        (fromEvents events).isAccepted id = true ∧ (fromEvents events).event? id = some e) →
      ∀ id, (fromEvents log).isAccepted id = (fromEvents events).isAccepted id := by
  have h := settled_fromEvents events
  refine ⟨fun id e hacc he p hp => ?_, fun a id hb hacc => ?_, fun log hlog id => ?_⟩
  · exact h.parent_accepted hclean hacc he hp
  · exact h.ancestor_accepted hclean hb hacc
  · exact h.refold (settled_fromEvents log) hclean hlog id

theorem noRejectedParent_of_all
    (h : ∀ n ∈ m.nodes.values, (n.verdict.outcome.all fun o => o.isOk) = true) : NoRejectedParent m := by
  intro id e _ _ p _ reason s hr
  have hne : m.result p ≠ none := by simp [hr]
  obtain ⟨n, hn⟩ := node_of_result hne
  have hn' := h n (OrdMap.mem_values.mpr ⟨p, hn⟩)
  rw [result_of_node hn] at hr
  obtain ⟨o, ho, heq⟩ := Option.map_eq_some_iff.mp hr
  obtain ⟨rfl, -⟩ := Prod.mk.inj heq
  simp [ho, Except.isOk, Except.toBool] at hn'

/-- A genesis and an invite, refolded in the other order. -/
theorem accepted_closed_invite :
    let run := fromEvents (Toy.log [(10, Toy.genesis), (11, Toy.invite 2 7 .member none [10])])
    run.isAccepted (Bytes32.ofNat 11) = true ∧
      ∀ id e, run.isAccepted id = true → run.event? id = some e → ∀ p ∈ e.prevEvents, run.isAccepted p = true := by
  intro run
  obtain ⟨haccepted, hall⟩ : run.isAccepted (Bytes32.ofNat 11) = true ∧
      ∀ n ∈ run.nodes.values, (n.verdict.outcome.all fun o => o.isOk) = true := by decide +kernel
  exact ⟨haccepted, (accepted_closed_of_noRejectedParent _ (noRejectedParent_of_all hall)).1⟩

/-- A stranger's message is rejected, and the admin's message on top of it is accepted. -/
theorem accepted_on_rejected_parent : ¬ ∀ (env : Env) (room : RoomId) (events : List (ValidatedEvent env room)),
    (∀ id e, (fromEvents events).isAccepted id = true → (fromEvents events).event? id = some e →
      ∀ p ∈ e.prevEvents, (fromEvents events).isAccepted p = true) := by
  intro hclosed
  let log := Toy.log [(10, Toy.genesis), (11, Toy.message 2 "junk" [10]), (12, Toy.message 1 "hello" [11])]
  obtain ⟨haccepted, hevent, hrejected⟩ : (fromEvents log).isAccepted (Bytes32.ofNat 12) = true ∧
      (fromEvents log).event? (Bytes32.ofNat 12) = some (Toy.message 1 "hello" [11]) ∧
      (fromEvents log).isAccepted (Bytes32.ofNat 11) = false := by decide +kernel
  have hparent := hclosed toyEnv Toy.room log (Bytes32.ofNat 12) _ haccepted hevent (Bytes32.ofNat 11) (by decide)
  rw [hrejected] at hparent
  cases hparent

end RoomMembership

end IrohRooms
