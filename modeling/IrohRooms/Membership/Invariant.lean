import IrohRooms.Lib.Staged
import IrohRooms.Membership.Graph
import Mathlib.Algebra.Order.BigOperators.Group.List
import Mathlib.Algebra.Order.Group.Nat

/-!
# Invariants of the causal graph

Every state reached by ingesting events is well formed (`WF`): a classified event has classified parents, is
ready in the sense of `Staged.Ready`, and its result (acceptance or reason, with the memoised ancestors) is the
`rule` applied to the current results. The cascade moreover leaves no pending event whose parents are all
classified. Hence the results are a `Staged.Solution`.
-/

namespace IrohRooms

variable {env : Env} {room : RoomId}

/-- What the gate decided, advisory flags dropped; `none` while pending. -/
def Verdict.outcome : Verdict → Option (Except RejectReason Unit)
  | pending => none
  | accepted _ => some (.ok ())
  | rejected reason => some (.error reason)

/-- The decision on an event together with its memoised membership ancestors. -/
abbrev Result := Except RejectReason Unit × OrdSet EventId

namespace Result

def accepted : Option Result → Bool
  | some (.ok (), _) => true
  | _ => false

def memo : Option Result → OrdSet EventId
  | some (_, ids) => ids
  | none => OrdMap.empty

end Result

/-- The entry of an event under given results. -/
def lookOf (events : EventId → Option SignedEvent) (st : EventId → Option Result) (id : EventId) : Option Entry :=
  (events id).map fun e => ⟨id, e, Result.accepted (st id), Result.memo (st id)⟩

/-- The result of an event under the results of its ancestors. -/
def rule (env : Env) (room : RoomId) (events : EventId → Option SignedEvent) (st : EventId → Option Result)
    (id : EventId) : Result :=
  match events id with
  | none => (.error .notAMember, OrdMap.empty)
  | some e =>
    let memo := RoomMembership.parentMemo (lookOf events st) e.prevEvents
    (gate env room e (memo.toList.filterMap (lookOf events st)), memo)

theorem mem_memoStep {look : EventId → Option Entry} {acc : OrdSet EventId} {parent a : EventId} :
    a ∈ RoomMembership.memoStep look acc parent ↔ a ∈ acc ∨ ∃ e, look parent = some e ∧
      ((affectsMembership e.event.content = true ∧ a = parent) ∨ a ∈ e.membershipAncestors) := by
  unfold RoomMembership.memoStep
  cases hp : look parent with
  | none => simp
  | some e =>
    by_cases haff : affectsMembership e.event.content = true
    · simp only [haff, if_true, OrdSet.mem_extend, OrdSet.mem_add, OrdSet.mem_toList, Option.some.injEq,
        exists_eq_left', true_and]
      rw [or_comm (a := a = parent), or_assoc]
    · simp [haff]

/-- The parents' ancestors, and the parents that affect membership. -/
theorem mem_parentMemo {look : EventId → Option Entry} {parents : List EventId} {a : EventId} :
    a ∈ RoomMembership.parentMemo look parents ↔ ∃ p ∈ parents, ∃ e, look p = some e ∧
      ((affectsMembership e.event.content = true ∧ a = p) ∨ a ∈ e.membershipAncestors) := by
  have hfold : ∀ acc : OrdSet EventId, a ∈ parents.foldl (RoomMembership.memoStep look) acc ↔
      a ∈ acc ∨ ∃ p ∈ parents, ∃ e, look p = some e ∧
        ((affectsMembership e.event.content = true ∧ a = p) ∨ a ∈ e.membershipAncestors) := by
    induction parents with
    | nil => simp
    | cons p parents ih =>
      intro acc
      rw [List.foldl_cons, ih, mem_memoStep, or_assoc]
      simp only [List.mem_cons, exists_eq_or_imp]
  rw [RoomMembership.parentMemo, hfold]
  simp

theorem parentMemo_congr {look look' : EventId → Option Entry} {parents : List EventId}
    (h : ∀ p ∈ parents, look p = look' p) :
    RoomMembership.parentMemo look parents = RoomMembership.parentMemo look' parents := by
  refine OrdSet.ext_mem fun a => ?_
  rw [mem_parentMemo, mem_parentMemo]
  constructor
  · rintro ⟨p, hp, e, he, hor⟩
    exact ⟨p, hp, e, (h p hp) ▸ he, hor⟩
  · rintro ⟨p, hp, e, he, hor⟩
    exact ⟨p, hp, e, (h p hp).symm ▸ he, hor⟩

/-- A result depends on the event, the entries of its parents and the entries of its memoised ancestors. -/
theorem rule_congr {events events' : EventId → Option SignedEvent} {st st' : EventId → Option Result}
    {id : EventId} {e : SignedEvent} (he : events id = some e) (he' : events' id = some e)
    (hparents : ∀ p ∈ e.prevEvents, lookOf events st p = lookOf events' st' p)
    (hmemo : ∀ a ∈ (rule env room events st id).2, lookOf events st a = lookOf events' st' a) :
    rule env room events st id = rule env room events' st' id := by
  have heq := parentMemo_congr hparents
  simp only [rule, he, he'] at hmemo ⊢
  rw [← heq]
  congr 2
  exact List.filterMap_congr fun a ha => hmemo a (OrdSet.mem_toList.mp ha)

namespace RoomMembership

variable (m : RoomMembership env room)

def event? (id : EventId) : Option SignedEvent := (m.nodes.get? id).map fun n => n.event.event

/-- The parents of a tracked event. -/
def deps (id : EventId) : Option (List EventId) := (m.event? id).map SignedEvent.prevEvents

def result (id : EventId) : Option Result :=
  (m.nodes.get? id).bind fun n => n.verdict.outcome.map fun o => (o, n.membershipAncestors)

/-- The invariant of every reachable state. -/
structure WF (m : RoomMembership env room) : Prop where
  keyed : ∀ {id n}, m.nodes.get? id = some n → n.event.eventId = id
  fresh : ∀ {id n}, m.nodes.get? id = some n → n.verdict = .pending → n.membershipAncestors = OrdMap.empty
  edge : ∀ {id n p}, m.nodes.get? id = some n → p ∈ n.event.event.prevEvents →
    ∃ kids, m.children.get? p = some kids ∧ id ∈ kids
  parents : ∀ {id e}, m.result id ≠ none → m.event? id = some e → ∀ p ∈ e.prevEvents, m.result p ≠ none
  ready : ∀ {id}, m.result id ≠ none → Staged.Ready m.deps id
  rule : ∀ {id r}, m.result id = some r → r = IrohRooms.rule env room m.event? m.result id

/-- Every pending event whose parents are all classified is on the stack. -/
def Saturated (work : List EventId) : Prop :=
  ∀ id n, m.nodes.get? id = some n → n.verdict = .pending →
    (∀ p ∈ n.event.event.prevEvents, m.result p ≠ none) → id ∈ work

variable {m}

theorem result_of_node {id : EventId} {n : Node env room} (h : m.nodes.get? id = some n) :
    m.result id = n.verdict.outcome.map fun o => (o, n.membershipAncestors) := by
  simp [result, h]

theorem result_eq_none_iff {id : EventId} {n : Node env room} (h : m.nodes.get? id = some n) :
    m.result id = none ↔ n.verdict = .pending := by
  rw [result_of_node h]
  cases n.verdict <;> simp [Verdict.outcome]

theorem node_of_result {id : EventId} (h : m.result id ≠ none) : ∃ n, m.nodes.get? id = some n := by
  cases hn : m.nodes.get? id with
  | none => simp [result, hn] at h
  | some n => exact ⟨n, rfl⟩

theorem isClassified_iff {id : EventId} : m.isClassified id = true ↔ m.result id ≠ none := by
  cases hn : m.nodes.get? id with
  | none => simp [isClassified, result, hn]
  | some n =>
    rw [ne_eq, result_eq_none_iff hn]
    simp [isClassified, hn, Node.isPending]

theorem accepted_eq {id : EventId} {n : Node env room} (h : m.nodes.get? id = some n) :
    n.isAccepted = Result.accepted (m.result id) := by
  rw [result_of_node h]
  cases hv : n.verdict <;> simp [Node.isAccepted, hv, Verdict.outcome, Result.accepted]

theorem isAccepted_iff {id : EventId} : m.isAccepted id = true ↔ ∃ s, m.result id = some (.ok (), s) := by
  cases hn : m.nodes.get? id with
  | none => simp [isAccepted, result, hn]
  | some n =>
    have hacc := accepted_eq hn
    simp only [isAccepted, hn, hacc]
    rcases hr : m.result id with _ | ⟨⟨r⟩ | ⟨⟩, s⟩ <;> simp [Result.accepted]

/-- Entries are determined by events and results. -/
theorem WF.entryOf_eq (h : WF m) (id : EventId) : m.entryOf id = lookOf m.event? m.result id := by
  cases hn : m.nodes.get? id with
  | none => simp [entryOf, lookOf, event?, hn]
  | some n =>
    have hmemo : n.membershipAncestors = Result.memo (m.result id) := by
      by_cases hp : n.verdict = .pending
      · rw [(result_eq_none_iff hn).mpr hp, h.fresh hn hp]
        rfl
      · rw [result_of_node hn]
        cases hv : n.verdict <;> simp_all [Verdict.outcome, Result.memo]
    simp only [entryOf, hn, Option.map_some, lookOf, event?, Node.entry]
    rw [accepted_eq hn, ← hmemo]

theorem WF.resolve_eq (h : WF m) (ids : OrdSet EventId) :
    m.resolve ids = ids.toList.filterMap (lookOf m.event? m.result) :=
  List.filterMap_congr fun a _ => h.entryOf_eq a

/-! ### The memo -/

theorem event?_of_result {id : EventId} (h : m.result id ≠ none) : ∃ e, m.event? id = some e := by
  obtain ⟨n, hn⟩ := node_of_result h
  exact ⟨n.event.event, by simp [event?, hn]⟩

theorem dep_iff {a id : EventId} : Staged.Dep m.deps a id ↔ ∃ e, m.event? id = some e ∧ a ∈ e.prevEvents := by
  simp only [Staged.Dep, deps, Option.map_eq_some_iff]
  constructor
  · rintro ⟨ds, ⟨e, he, rfl⟩, ha⟩
    exact ⟨e, he, ha⟩
  · rintro ⟨e, he, ha⟩
    exact ⟨_, ⟨e, he, rfl⟩, ha⟩

theorem WF.classified_of_below (h : WF m) {a id : EventId} (hb : Staged.Below m.deps a id)
    (hid : m.result id ≠ none) : m.result a ≠ none := by
  induction hb with
  | single hd =>
    obtain ⟨e, he, ha⟩ := dep_iff.mp hd
    exact h.parents hid he a ha
  | tail _ hd ih =>
    obtain ⟨e, he, hb⟩ := dep_iff.mp hd
    exact ih (h.parents hid he _ hb)

/-- The memo of a classified event holds exactly the membership events strictly below it. -/
theorem WF.mem_memo_iff (h : WF m) {id : EventId} {r : Result} (hr : m.result id = some r) {a : EventId} :
    a ∈ r.2 ↔ Staged.Below m.deps a id ∧ ∃ e, m.event? a = some e ∧ affectsMembership e.content = true := by
  have hready : Staged.Ready m.deps id := h.ready (by simp [hr])
  -- strong induction along the ready order: the memos of the parents are exact already
  refine Staged.Ready.strongInduction (P := fun id => ∀ r, m.result id = some r → ∀ a, a ∈ r.2 ↔
      Staged.Below m.deps a id ∧ ∃ e, m.event? a = some e ∧ affectsMembership e.content = true)
    (fun id _ ih r hr a => ?_) hready r hr a
  have hid : m.result id ≠ none := by simp [hr]
  obtain ⟨e, he⟩ := event?_of_result hid
  rw [h.rule hr]
  simp only [IrohRooms.rule, he, mem_parentMemo]
  have hparent : ∀ p ∈ e.prevEvents, ∃ rp ep, m.result p = some rp ∧ m.event? p = some ep ∧
      lookOf m.event? m.result p = some ⟨p, ep, Result.accepted (some rp), rp.2⟩ := by
    intro p hp
    have hpc := h.parents hid he p hp
    obtain ⟨ep, hep⟩ := event?_of_result hpc
    obtain ⟨rp, hrp⟩ := Option.ne_none_iff_exists'.mp hpc
    exact ⟨rp, ep, hrp, hep, by simp [lookOf, hep, hrp, Result.memo]⟩
  constructor
  · rintro ⟨p, hp, ent, hent, hor⟩
    obtain ⟨rp, ep, hrp, hep, hlook⟩ := hparent p hp
    have hdep : Staged.Below m.deps p id := Staged.Below.of_dep (dep_iff.mpr ⟨e, he, hp⟩)
    rw [hlook, Option.some.injEq] at hent
    subst hent
    rcases hor with ⟨haff, rfl⟩ | hmem
    · exact ⟨hdep, ep, hep, haff⟩
    · obtain ⟨hb, haff⟩ := (ih p hdep rp hrp a).mp hmem
      exact ⟨hb.trans hdep, haff⟩
  · rintro ⟨hb, ea, hea, haff⟩
    obtain ⟨p, hd, hor⟩ := hb.cases
    obtain ⟨e', he', hp⟩ := dep_iff.mp hd
    rw [he, Option.some.injEq] at he'
    subst he'
    obtain ⟨rp, ep, hrp, hep, hlook⟩ := hparent p hp
    refine ⟨p, hp, _, hlook, ?_⟩
    rcases hor with rfl | hb'
    · rw [hep, Option.some.injEq] at hea
      subst hea
      exact Or.inl ⟨haff, rfl⟩
    · exact Or.inr ((ih p (Staged.Below.of_dep hd) rp hrp a).mpr ⟨hb', ea, hea, haff⟩)

theorem WF.memo_classified (h : WF m) {id : EventId} {r : Result} (hr : m.result id = some r) {a : EventId}
    (ha : a ∈ r.2) : m.result a ≠ none :=
  h.classified_of_below ((h.mem_memo_iff hr).mp ha).1 (by simp [hr])

/-- Whatever classified parents hand down is classified. -/
theorem WF.parentMemo_classified (h : WF m) {parents : List EventId} (hp : ∀ p ∈ parents, m.result p ≠ none)
    {a : EventId} (ha : a ∈ parentMemo (lookOf m.event? m.result) parents) : m.result a ≠ none := by
  obtain ⟨p, hmem, e, he, hor⟩ := mem_parentMemo.mp ha
  have hpc := hp p hmem
  rcases hor with ⟨-, rfl⟩ | hin
  · exact hpc
  · obtain ⟨rp, hrp⟩ := Option.ne_none_iff_exists'.mp hpc
    obtain ⟨ep, hep⟩ := event?_of_result hpc
    simp only [lookOf, hep, hrp, Option.map_some, Option.some.injEq, Result.memo] at he
    subst he
    exact h.memo_classified hrp hin

/-! ### Ancestors as entries -/

theorem entryOf_eq_some {id : EventId} {ent : Entry} (h : m.entryOf id = some ent) :
    ent.id = id ∧ m.event? id = some ent.event ∧ ent.accepted = m.isAccepted id := by
  obtain ⟨n, hn, rfl⟩ := Option.map_eq_some_iff.mp h
  simp [Node.entry, event?, isAccepted, hn]

theorem entryOf_of_event {id : EventId} {e : SignedEvent} (h : m.event? id = some e) :
    ∃ ent, m.entryOf id = some ent ∧ ent.event = e := by
  obtain ⟨n, hn, rfl⟩ := Option.map_eq_some_iff.mp h
  exact ⟨n.entry id, by simp [entryOf, hn], rfl⟩

theorem mem_entries {ent : Entry} : ent ∈ m.entries ↔ m.entryOf ent.id = some ent := by
  simp only [entries, List.mem_map, Prod.exists, OrdMap.mem_entries, entryOf, Option.map_eq_some_iff]
  constructor
  · rintro ⟨id, n, hn, rfl⟩
    exact ⟨n, hn, rfl⟩
  · rintro ⟨n, hn, hent⟩
    exact ⟨ent.id, n, hn, hent⟩

theorem exists_entry_of_event {id : EventId} {e : SignedEvent} (h : m.event? id = some e) :
    ∃ ent ∈ m.entries, ent.id = id ∧ ent.event = e := by
  obtain ⟨ent, hent, heq⟩ := entryOf_of_event h
  have hid := (entryOf_eq_some hent).1
  exact ⟨ent, mem_entries.mpr (hid ▸ hent), hid, heq⟩

theorem WF.mem_entry_memo (h : WF m) {id : EventId} {ent : Entry} (hent : m.entryOf id = some ent)
    (hid : m.result id ≠ none) {a : EventId} : a ∈ ent.membershipAncestors ↔
      Staged.Below m.deps a id ∧ ∃ e, m.event? a = some e ∧ affectsMembership e.content = true := by
  obtain ⟨r, hr⟩ := Option.ne_none_iff_exists'.mp hid
  obtain ⟨e, he⟩ := event?_of_result hid
  rw [h.entryOf_eq, lookOf, he, hr, Option.map_some, Option.some.injEq] at hent
  rw [← hent]
  exact h.mem_memo_iff hr

theorem mem_resolve {ids : OrdSet EventId} {ent : Entry} :
    ent ∈ m.resolve ids ↔ ent.id ∈ ids ∧ m.entryOf ent.id = some ent := by
  simp only [resolve, List.mem_filterMap, OrdSet.mem_toList]
  constructor
  · rintro ⟨a, ha, hent⟩
    obtain ⟨hid, -⟩ := entryOf_eq_some hent
    rw [hid]
    exact ⟨ha, hent⟩
  · rintro ⟨ha, hent⟩
    exact ⟨ent.id, ha, hent⟩

/-- The gate of a classified event sees the entries of the membership events strictly below it. -/
theorem WF.mem_ancestors (h : WF m) {id : EventId} {n : Node env room} (hn : m.nodes.get? id = some n)
    (hid : m.result id ≠ none) {ent : Entry} : ent ∈ m.resolve n.membershipAncestors ↔
      Staged.Below m.deps ent.id id ∧ m.entryOf ent.id = some ent ∧ affectsMembership ent.event.content = true := by
  have hent : m.entryOf id = some (n.entry id) := by simp [entryOf, hn]
  rw [mem_resolve, show n.membershipAncestors = (n.entry id).membershipAncestors from rfl,
    h.mem_entry_memo hent hid]
  constructor
  · rintro ⟨⟨hb, e, he, haff⟩, hsome⟩
    rw [(entryOf_eq_some hsome).2.1, Option.some.injEq] at he
    exact ⟨hb, hsome, he ▸ haff⟩
  · rintro ⟨hb, hsome, haff⟩
    exact ⟨⟨hb, ent.event, (entryOf_eq_some hsome).2.1, haff⟩, hsome⟩

/-- The verdict of a classified event is the gate's, on its memoised ancestors. -/
theorem WF.outcome_eq_gate (h : WF m) {id : EventId} {n : Node env room} {o : Except RejectReason Unit}
    (hn : m.nodes.get? id = some n) (ho : n.verdict.outcome = some o) :
    o = gate env room n.event.event (m.resolve n.membershipAncestors) := by
  have hr : m.result id = some (o, n.membershipAncestors) := by rw [result_of_node hn, ho]; rfl
  have hrule := h.rule hr
  have hevent : m.event? id = some n.event.event := by simp [event?, hn]
  simp only [IrohRooms.rule, hevent, Prod.mk.injEq] at hrule
  obtain ⟨hgate, hmemo⟩ := hrule
  rw [hgate, h.resolve_eq, hmemo]

theorem WF.isAccepted_iff_gate (h : WF m) {id : EventId} {n : Node env room} (hn : m.nodes.get? id = some n)
    (hid : m.result id ≠ none) :
    m.isAccepted id = true ↔ gate env room n.event.event (m.resolve n.membershipAncestors) = .ok () := by
  obtain ⟨o, ho⟩ : ∃ o, n.verdict.outcome = some o := by
    rw [result_of_node hn] at hid
    cases hv : n.verdict.outcome with
    | none => simp [hv] at hid
    | some o => exact ⟨o, rfl⟩
  rw [← h.outcome_eq_gate hn ho]
  have hacc : m.isAccepted id = n.isAccepted := by simp [isAccepted, hn]
  rw [hacc]
  cases hv : n.verdict with
  | pending => simp [hv, Verdict.outcome] at ho
  | accepted flags =>
    rw [hv, Verdict.outcome, Option.some.injEq] at ho
    simp [Node.isAccepted, hv, ← ho]
  | rejected reason =>
    rw [hv, Verdict.outcome, Option.some.injEq] at ho
    simp [Node.isAccepted, hv, ← ho]

theorem result_ne_none_of_accepted {id : EventId} (h : m.isAccepted id = true) : m.result id ≠ none := by
  obtain ⟨s, hs⟩ := isAccepted_iff.mp h
  simp [hs]

/-! ### One classification -/

/-- Everything a transition of `tryClassify` does. -/
structure Classifies (m m' : RoomMembership env room) (id : EventId) : Prop where
  children : m'.children = m.children
  step : ∃ n v, m.nodes.get? id = some n ∧ n.verdict = .pending ∧
    (∀ p ∈ n.event.event.prevEvents, m.result p ≠ none) ∧
    v.outcome = some (gate env room n.event.event
      ((m.setNode id { n with membershipAncestors := parentMemo m.entryOf n.event.event.prevEvents }).resolve
        (parentMemo m.entryOf n.event.event.prevEvents))) ∧
    ∀ j, m'.nodes.get? j = if j = id
      then some ⟨n.event, v, parentMemo m.entryOf n.event.event.prevEvents⟩ else m.nodes.get? j

theorem gateVerdict_outcome {id : EventId} {n : Node env room} (h : m.nodes.get? id = some n)
    (ids : OrdSet EventId) :
    (m.gateVerdict id ids).outcome = some (gate env room n.event.event (m.resolve ids)) := by
  simp only [gateVerdict, h]
  cases hg : gate env room n.event.event (m.resolve ids) <;> rfl

@[simp] theorem recordSenderHead_nodes (m : RoomMembership env room) (id : EventId) :
    (m.recordSenderHead id).nodes = m.nodes := by
  unfold recordSenderHead
  split <;> rfl

@[simp] theorem recordSenderHead_children (m : RoomMembership env room) (id : EventId) :
    (m.recordSenderHead id).children = m.children := by
  unfold recordSenderHead
  split <;> rfl

theorem tryClassify_some {m' : RoomMembership env room} {id : EventId} (h : m.tryClassify id = some m') :
    Classifies m m' id := by
  unfold tryClassify at h
  cases hn : m.nodes.get? id with
  | none => simp [hn] at h
  | some n =>
    simp only [hn] at h
    by_cases hpend : n.isPending = true
    · by_cases hpar : (n.event.event.prevEvents.any fun parent => !m.isClassified parent) = true
      · simp [hpend, hpar] at h
      · have hready : ∀ p ∈ n.event.event.prevEvents, m.result p ≠ none := by
          intro p hp
          refine isClassified_iff.mp ?_
          have hall := List.any_eq_false.mp (Bool.eq_false_iff.mpr hpar) p hp
          simpa using hall
        simp only [hpend, Bool.not_true, Bool.false_eq_true, if_false, hpar] at h
        set memo := parentMemo m.entryOf n.event.event.prevEvents with hmemo
        set memoised := m.setNode id { n with membershipAncestors := memo } with hmemoised
        have hnode : memoised.nodes.get? id = some { n with membershipAncestors := memo } := by
          simp [hmemoised, setNode]
        have hout := gateVerdict_outcome hnode memo
        have hget : ∀ v : Verdict, ∀ j, (memoised.setNode id ⟨n.event, v, memo⟩).nodes.get? j =
            if j = id then some ⟨n.event, v, memo⟩ else m.nodes.get? j := by
          intro v j
          simp only [hmemoised, setNode, OrdMap.get?_insert]
          split_ifs <;> rfl
        have hpending : n.verdict = .pending := by simpa [Node.isPending] using hpend
        cases hv : memoised.gateVerdict id memo with
        | pending => simp [hv, Verdict.outcome] at hout
        | accepted flags =>
          rw [hv] at h hout
          simp only [Option.some.injEq] at h
          subst h
          refine ⟨?_, n, .accepted flags, hn, hpending, hready, hout, fun j => ?_⟩
          · split_ifs <;> simp [bumpGeneration, setNode, hmemoised]
          · rw [← hget]
            split_ifs <;> simp [bumpGeneration]
        | rejected reason =>
          rw [hv] at h hout
          simp only [Option.some.injEq] at h
          subst h
          exact ⟨rfl, n, .rejected reason, hn, hpending, hready, hout, hget _⟩
    · simp [hpend] at h

theorem tryClassify_none {id : EventId} {n : Node env room} (h : m.tryClassify id = none)
    (hn : m.nodes.get? id = some n) (hpend : n.verdict = .pending) :
    ∃ p ∈ n.event.event.prevEvents, m.result p = none := by
  by_contra hall
  push Not at hall
  have hpar : (n.event.event.prevEvents.any fun parent => !m.isClassified parent) = false := by
    refine List.any_eq_false.mpr fun p hp => ?_
    simp [isClassified_iff.mpr (hall p hp)]
  unfold tryClassify at h
  simp only [hn, Node.isPending, hpend, hpar] at h
  revert h
  simp only [beq_self_eq_true, Bool.not_true, Bool.false_eq_true, if_false]
  split <;> simp

namespace Classifies

variable {m' : RoomMembership env room} {id : EventId}

theorem result_ne (h : Classifies m m' id) {j : EventId} (hj : j ≠ id) : m'.result j = m.result j := by
  obtain ⟨n, v, -, -, -, -, hget⟩ := h.step
  rw [result, result, hget j, if_neg hj]

theorem event?_eq (h : Classifies m m' id) (j : EventId) : m'.event? j = m.event? j := by
  obtain ⟨n, v, hn, -, -, -, hget⟩ := h.step
  rw [event?, event?, hget j]
  split_ifs with hj
  · rw [hj, hn]
    rfl
  · rfl

theorem deps_eq (h : Classifies m m' id) : m'.deps = m.deps := by
  funext j
  rw [deps, deps, h.event?_eq]

theorem result_before (h : Classifies m m' id) : m.result id = none := by
  obtain ⟨n, v, hn, hpend, -⟩ := h.step
  exact (result_eq_none_iff hn).mpr hpend

theorem result_of_classified (h : Classifies m m' id) {j : EventId} (hj : m.result j ≠ none) :
    m'.result j = m.result j :=
  h.result_ne fun heq => hj (heq ▸ h.result_before)

theorem look_of_classified (h : Classifies m m' id) {j : EventId} (hj : m.result j ≠ none) :
    lookOf m'.event? m'.result j = lookOf m.event? m.result j := by
  rw [lookOf, lookOf, h.event?_eq, h.result_of_classified hj]

/-- In a well-formed state the new result is the rule's value. -/
theorem result_eq_rule (h : Classifies m m' id) (hwf : WF m) :
    m'.result id = some (IrohRooms.rule env room m.event? m.result id) := by
  obtain ⟨n, v, hn, hpend, hready, hout, hget⟩ := h.step
  have hevent : m.event? id = some n.event.event := by simp [event?, hn]
  have hlook : m.entryOf = lookOf m.event? m.result := funext hwf.entryOf_eq
  set memo := parentMemo m.entryOf n.event.event.prevEvents with hmemo
  -- the event itself is pending, hence not in its own memo
  have hself : id ∉ memo := fun hmem =>
    hwf.parentMemo_classified hready (hlook ▸ hmem) ((result_eq_none_iff hn).mpr hpend)
  have hresolve : (m.setNode id { n with membershipAncestors := memo }).resolve memo =
      memo.toList.filterMap (lookOf m.event? m.result) := by
    refine List.filterMap_congr fun a ha => ?_
    have hne : a ≠ id := fun heq => hself (heq ▸ OrdSet.mem_toList.mp ha)
    rw [← hlook]
    simp [entryOf, setNode, OrdMap.get?_insert_of_ne _ _ hne]
  have hresult : m'.result id = v.outcome.map fun o => (o, memo) :=
    result_of_node (by rw [hget id, if_pos rfl])
  rw [hresult, hout, hresolve]
  simp only [Option.map_some, IrohRooms.rule, hevent, ← hlook, ← hmemo]

theorem wf (h : Classifies m m' id) (hwf : WF m) : WF m' := by
  obtain ⟨n, v, hn, hpend, hready, hout, hget⟩ := h.step
  have hsome : m'.result id ≠ none := by simp [h.result_eq_rule hwf]
  have hstable : ∀ {j r}, j ≠ id → m'.result j = some r →
      r = IrohRooms.rule env room m'.event? m'.result j := by
    intro j r hj hr
    rw [h.result_ne hj] at hr
    have hjc : m.result j ≠ none := by simp [hr]
    obtain ⟨e, he⟩ := event?_of_result hjc
    have heq := hwf.rule hr
    rw [heq]
    refine rule_congr he ((h.event?_eq j).trans he) (fun p hp => ?_) fun a ha => ?_
    · exact (h.look_of_classified (hwf.parents hjc he p hp)).symm
    · exact (h.look_of_classified (hwf.memo_classified hr (heq ▸ ha))).symm
  refine ⟨fun {j} n' hn' => ?_, fun {j} n' hn' hp' => ?_, fun {j} n' p hn' hp' => ?_,
    fun {j} e hj he p hp => ?_, fun {j} hj => ?_, fun {j} r hr => ?_⟩
  · rw [hget j] at hn'
    split_ifs at hn' with hj
    · obtain rfl := (Option.some.inj hn').symm
      show n.event.eventId = j
      rw [hj]
      exact hwf.keyed hn
    · exact hwf.keyed hn'
  · rw [hget j] at hn'
    split_ifs at hn' with hj
    · obtain rfl := (Option.some.inj hn').symm
      simp only at hp'
      simp [hp', Verdict.outcome] at hout
    · exact hwf.fresh hn' hp'
  · rw [h.children]
    rw [hget j] at hn'
    split_ifs at hn' with hj
    · obtain rfl := (Option.some.inj hn').symm
      exact hj ▸ hwf.edge hn hp'
    · exact hwf.edge hn' hp'
  · rw [h.event?_eq] at he
    by_cases hjid : j = id
    · have hne : n.event.event = e := by simpa [event?, hjid, hn] using he
      have hpc := hready p (hne ▸ hp)
      rwa [h.result_of_classified hpc]
    · rw [h.result_ne hjid] at hj
      have hpc := hwf.parents hj he p hp
      rwa [h.result_of_classified hpc]
  · rw [h.deps_eq]
    by_cases hjid : j = id
    · rw [hjid]
      have hdeps : m.deps id = some n.event.event.prevEvents := by simp [deps, event?, hn]
      exact Staged.Ready.intro hdeps fun d hd => hwf.ready (hready d hd)
    · rw [h.result_ne hjid] at hj
      exact hwf.ready hj
  · by_cases hjid : j = id
    · subst hjid
      have hrule := h.result_eq_rule hwf
      have hr' := hrule.symm.trans hr
      rw [← Option.some.inj hr']
      have hevent : m.event? j = some n.event.event := by simp [event?, hn]
      refine rule_congr hevent ((h.event?_eq j).trans hevent) (fun p hp => ?_) fun a ha => ?_
      · exact (h.look_of_classified (hready p hp)).symm
      · simp only [IrohRooms.rule, hevent] at ha
        exact (h.look_of_classified (hwf.parentMemo_classified hready ha)).symm
    · exact hstable hjid hr

end Classifies

/-! ### Tracking a new event -/

section Track

variable {v : ValidatedEvent env room} (hnew : m.nodes.get? v.eventId = none)

theorem track_get? (j : EventId) : (m.track v).nodes.get? j =
    if j = v.eventId then some ⟨v, .pending, OrdMap.empty⟩ else m.nodes.get? j := by
  rw [track, OrdMap.get?_insert]

theorem foldl_addChild_old {id p : EventId} {parents kids : List EventId} {children : OrdMap EventId (List EventId)}
    {j : EventId} (h : children.get? p = some kids) (hj : j ∈ kids) :
    ∃ kids', (parents.foldl (fun ch parent => addChild ch id parent) children).get? p = some kids' ∧ j ∈ kids' := by
  induction parents generalizing children kids with
  | nil => exact ⟨kids, h, hj⟩
  | cons q parents ih =>
    rw [List.foldl_cons]
    by_cases hpq : p = q
    · have hget : (addChild children id q).get? p = some (kids ++ [id]) := by
        rw [addChild, OrdMap.get?_insert, if_pos hpq, ← hpq, h]
        rfl
      exact ih hget (List.mem_append_left _ hj)
    · have hget : (addChild children id q).get? p = some kids := by
        rw [addChild, OrdMap.get?_insert, if_neg hpq, h]
      exact ih hget hj

theorem foldl_addChild_new {id p : EventId} {parents : List EventId} {children : OrdMap EventId (List EventId)}
    (hp : p ∈ parents) :
    ∃ kids, (parents.foldl (fun ch parent => addChild ch id parent) children).get? p = some kids ∧ id ∈ kids := by
  induction parents generalizing children with
  | nil => simp at hp
  | cons q parents ih =>
    rw [List.foldl_cons]
    rcases List.mem_cons.mp hp with rfl | hmem
    · exact foldl_addChild_old (OrdMap.get?_insert_self _ _ _) (by simp)
    · exact ih hmem

include hnew

theorem track_result (j : EventId) : (m.track v).result j = m.result j := by
  rw [result, track_get?]
  split_ifs with hj
  · simp [result, hj, hnew, Verdict.outcome]
  · rfl

theorem track_event? {j : EventId} {e : SignedEvent} (he : m.event? j = some e) :
    (m.track v).event? j = some e := by
  rw [event?, track_get?]
  split_ifs with hj
  · simp [event?, hj, hnew] at he
  · exact he

theorem track_look {j : EventId} (hj : m.result j ≠ none) :
    lookOf (m.track v).event? (m.track v).result j = lookOf m.event? m.result j := by
  obtain ⟨e, he⟩ := event?_of_result hj
  rw [lookOf, lookOf, track_result hnew, track_event? hnew he, he]

theorem track_wf (hwf : WF m) : WF (m.track v) := by
  refine ⟨fun {j} n hn => ?_, fun {j} n hn hp => ?_, fun {j} n p hn hp => ?_,
    fun {j} e hj he p hp => ?_, fun {j} hj => ?_, fun {j} r hr => ?_⟩
  · rw [track_get?] at hn
    split_ifs at hn with hj
    · obtain rfl := (Option.some.inj hn).symm
      exact hj.symm
    · exact hwf.keyed hn
  · rw [track_get?] at hn
    split_ifs at hn with hj
    · obtain rfl := (Option.some.inj hn).symm
      rfl
    · exact hwf.fresh hn hp
  · rw [track_get?] at hn
    split_ifs at hn with hj
    · obtain rfl := (Option.some.inj hn).symm
      exact hj ▸ foldl_addChild_new hp
    · obtain ⟨kids, hkids, hmem⟩ := hwf.edge hn hp
      exact foldl_addChild_old hkids hmem
  · rw [track_result hnew] at hj ⊢
    obtain ⟨e', he'⟩ := event?_of_result hj
    rw [track_event? hnew he', Option.some.injEq] at he
    exact hwf.parents hj he' p (he ▸ hp)
  · rw [track_result hnew] at hj
    refine (hwf.ready hj).mono fun {i ds} hds => ?_
    obtain ⟨e, he, rfl⟩ := Option.map_eq_some_iff.mp hds
    rw [deps, track_event? hnew he]
    rfl
  · rw [track_result hnew] at hr
    have hj : m.result j ≠ none := by simp [hr]
    obtain ⟨e, he⟩ := event?_of_result hj
    have heq := hwf.rule hr
    rw [heq]
    refine rule_congr he (track_event? hnew he) (fun p hp => ?_) fun a ha => ?_
    · exact (track_look hnew (hwf.parents hj he p hp)).symm
    · exact (track_look hnew (hwf.memo_classified hr (heq ▸ ha))).symm

theorem track_saturated (hsat : Saturated m []) : Saturated (m.track v) [v.eventId] := by
  intro j n hn hp hpar
  rw [track_get?] at hn
  split_ifs at hn with hj
  · exact List.mem_singleton.mpr hj
  · refine absurd (hsat j n hn hp fun p hmem => ?_) List.not_mem_nil
    rw [← track_result hnew]
    exact hpar p hmem

end Track

/-! ### The cascade -/

/-- The stack, plus the reverse edges that may still be pushed. -/
def potential (m : RoomMembership env room) (work : List EventId) : Nat :=
  work.length + (m.children.entries.map fun e => if m.isClassified e.1 then 0 else e.2.length).sum

theorem isClassified_eq_of_result {m' : RoomMembership env room} {j : EventId} (h : m'.result j = m.result j) :
    m'.isClassified j = m.isClassified j := by
  rw [Bool.eq_iff_iff, isClassified_iff, isClassified_iff, h]

/-- A classification pays for the pushed children with the edges it retires. -/
theorem Classifies.potential {m' : RoomMembership env room} {id : EventId} (h : Classifies m m' id) (hwf : WF m)
    (work : List EventId) :
    m'.potential (((m'.children.get? id).getD []).reverse ++ work) + 1 = m.potential (id :: work) := by
  have hafter : m'.isClassified id = true := isClassified_iff.mpr (by simp [h.result_eq_rule hwf])
  have hbefore : m.isClassified id = false :=
    Bool.eq_false_iff.mpr fun hc => isClassified_iff.mp hc h.result_before
  have hoff : ∀ e : EventId × List EventId, e.1 ≠ id →
      (if m'.isClassified e.1 then 0 else e.2.length) = if m.isClassified e.1 then 0 else e.2.length := by
    intro e he
    rw [isClassified_eq_of_result (h.result_ne he)]
  simp only [RoomMembership.potential, h.children, List.length_append, List.length_reverse, List.length_cons]
  cases hk : m.children.get? id with
  | none =>
    have hsame : (m.children.entries.map fun e => if m'.isClassified e.1 then 0 else e.2.length) =
        m.children.entries.map fun e => if m.isClassified e.1 then 0 else e.2.length := by
      refine List.map_congr_left fun e he => hoff e fun heq => ?_
      have hsome := OrdMap.mem_entries.mp (show (e.1, e.2) ∈ m.children.entries from he)
      rw [heq, hk] at hsome
      cases hsome
    rw [hsame]
    simp only [Option.getD_none, List.length_nil]
    omega
  | some kids =>
    have hsum := OrdMap.sum_entries_drop m.children hk
      (f := fun e => if m.isClassified e.1 then 0 else e.2.length) (by simp [hafter]) hoff
    simp only [hbefore, Bool.false_eq_true, if_false] at hsum
    simp only [Option.getD_some]
    omega

/-- Classification wakes the children of the classified event and nothing else. -/
theorem Classifies.saturated {m' : RoomMembership env room} {id : EventId} {work : List EventId}
    (h : Classifies m m' id) (hwf : WF m) (hsat : Saturated m (id :: work)) :
    Saturated m' (((m'.children.get? id).getD []).reverse ++ work) := by
  intro j n hn hp hpar
  have hjid : j ≠ id := by
    rintro rfl
    have hnone := (result_eq_none_iff hn).mpr hp
    simp [h.result_eq_rule hwf] at hnone
  have hn' : m.nodes.get? j = some n := by
    obtain ⟨_, _, _, _, _, _, hget⟩ := h.step
    rwa [hget j, if_neg hjid] at hn
  by_cases hall : ∀ p ∈ n.event.event.prevEvents, m.result p ≠ none
  · have hmem := hsat j n hn' hp hall
    exact List.mem_append_right _ ((List.mem_cons.mp hmem).resolve_left hjid)
  · push Not at hall
    obtain ⟨p, hpmem, hpnone⟩ := hall
    have hpid : p = id := by
      by_contra hne
      exact hpar p hpmem ((h.result_ne hne).trans hpnone)
    obtain ⟨kids, hkids, hjk⟩ := hwf.edge hn' hpmem
    rw [h.children, ← hpid, hkids]
    simpa using Or.inl hjk

theorem saturated_of_none {id : EventId} {work : List EventId} (h : m.tryClassify id = none)
    (hsat : Saturated m (id :: work)) : Saturated m work := by
  intro j n hn hp hpar
  refine (List.mem_cons.mp (hsat j n hn hp hpar)).resolve_left ?_
  rintro rfl
  obtain ⟨p, hpmem, hpnone⟩ := tryClassify_none h hn hp
  exact hpar p hpmem hpnone

/-- A property kept by every classification is kept by a cascade. -/
theorem cascade_induction {P : RoomMembership env room → Prop}
    (hstep : ∀ {m m' id}, Classifies m m' id → WF m → P m → P m') (fuel : Nat) :
    ∀ {m : RoomMembership env room} (work : List EventId), WF m → P m →
      WF (cascade fuel m work) ∧ P (cascade fuel m work) := by
  induction fuel with
  | zero => exact fun work hwf hP => ⟨hwf, hP⟩
  | succ fuel ih =>
    intro m work hwf hP
    cases work with
    | nil => exact ⟨hwf, hP⟩
    | cons current work =>
      cases hc : m.tryClassify current with
      | none =>
        simp only [cascade, hc]
        exact ih work hwf hP
      | some m' =>
        have hcl := tryClassify_some hc
        simp only [cascade, hc]
        exact ih _ (hcl.wf hwf) (hstep hcl hwf hP)

/-- With enough fuel the cascade empties its stack. -/
theorem cascade_saturated (fuel : Nat) : ∀ {m : RoomMembership env room} (work : List EventId), WF m →
    Saturated m work → m.potential work ≤ fuel → Saturated (cascade fuel m work) [] := by
  induction fuel with
  | zero =>
    intro m work hwf hsat hle
    have hnil : work = [] := List.eq_nil_of_length_eq_zero (by unfold potential at hle; omega)
    rw [hnil] at hsat ⊢
    exact hsat
  | succ fuel ih =>
    intro m work hwf hsat hle
    cases work with
    | nil => exact hsat
    | cons current work =>
      cases hc : m.tryClassify current with
      | none =>
        simp only [cascade, hc]
        refine ih work hwf (saturated_of_none hc hsat) ?_
        simp only [potential, List.length_cons] at hle ⊢
        omega
      | some m' =>
        have hcl := tryClassify_some hc
        have hpot := hcl.potential hwf work
        simp only [cascade, hc]
        refine ih _ (hcl.wf hwf) (hcl.saturated hwf hsat) ?_
        omega

theorem potential_le_cascadeFuel (m : RoomMembership env room) (id : EventId) :
    m.potential [id] ≤ m.cascadeFuel := by
  have hle : (m.children.entries.map fun e => if m.isClassified e.1 then 0 else e.2.length).sum ≤
      (m.children.entries.map fun e => e.2.length).sum := by
    refine List.sum_le_sum fun e _ => ?_
    split_ifs <;> omega
  simp only [potential, cascadeFuel, OrdMap.values, List.map_map, List.length_singleton]
  exact Nat.add_le_add_left hle 1

/-! ### Whole runs -/

/-- Well formed, and no ready event is left pending. -/
structure Settled (m : RoomMembership env room) : Prop where
  wf : WF m
  saturated : Saturated m []

theorem settled_new : Settled (new : RoomMembership env room) := by
  have hget : ∀ id, (new : RoomMembership env room).nodes.get? id = none := fun id => OrdMap.get?_empty id
  have hresult : ∀ id, (new : RoomMembership env room).result id = none := fun id => by simp [result, hget]
  refine ⟨⟨fun hn => ?_, fun hn => ?_, fun hn => ?_, fun hr => ?_, fun hr => ?_, fun hr => ?_⟩, fun id n hn => ?_⟩
  · simp [hget] at hn
  · simp [hget] at hn
  · simp [hget] at hn
  · exact absurd (hresult _) hr
  · exact absurd (hresult _) hr
  · simp [hresult] at hr
  · simp [hget] at hn

theorem Settled.ingest (h : Settled m) (v : ValidatedEvent env room) : Settled (m.ingest v) := by
  unfold RoomMembership.ingest
  split_ifs with hknown
  · exact h
  · have hnew : m.nodes.get? v.eventId = none := by simpa [OrdMap.contains] using hknown
    have hwf := track_wf hnew h.wf
    exact ⟨(cascade_induction (P := fun _ => True) (fun _ _ _ => trivial) _ _ hwf trivial).1,
      cascade_saturated _ _ hwf (track_saturated hnew h.saturated) (potential_le_cascadeFuel _ _)⟩

/-- Every run of ingests ends settled. -/
theorem settled_fromEvents (events : List (ValidatedEvent env room)) : Settled (fromEvents events) := by
  have hrun : ∀ (events : List (ValidatedEvent env room)) (m : RoomMembership env room), Settled m →
      Settled (events.foldl RoomMembership.ingest m) := by
    intro events
    induction events with
    | nil => exact fun m h => h
    | cons v events ih => exact fun m h => ih _ (h.ingest v)
  exact hrun events new settled_new

/-- The results of a settled state solve the classification problem of its events. -/
theorem Settled.solution (h : Settled m) :
    Staged.Solution m.deps (IrohRooms.rule env room m.event?) m.result where
  ready hr := h.wf.ready (by simp [hr])
  rule hr := h.wf.rule hr
  saturated {id ds} hds hall := by
    intro hnone
    obtain ⟨e, he, rfl⟩ := Option.map_eq_some_iff.mp hds
    obtain ⟨n, hn, rfl⟩ := Option.map_eq_some_iff.mp he
    exact List.not_mem_nil (h.saturated id n hn ((result_eq_none_iff hn).mp hnone) hall)

end RoomMembership

end IrohRooms
