import IrohRooms.Event.Build
import IrohRooms.Lib.Search
import IrohRooms.Membership.Invariant

/-!
# Reachable states and sender heads

`Reachable` collects every state the fold engine passes through, those inside a cascade included. In all of them the
recorded heads of a sender are its accepted events that no accepted event of the sender descends from. The argument is
one step: a newly classified event has no classified descendant, so it is maximal, and it retires exactly the heads it
descends from. Since every accepted event lies at or below a head, looking at the heads alone decides whether the sender
has an accepted event that the new one does not descend from.
-/

namespace IrohRooms

variable {env : Env} {room : RoomId}

/-- What validation of the event returns, at some local time. -/
def Validated (v : ValidatedEvent env room) : Prop :=
  ∃ nowMs, validate env ⟨room, nowMs⟩ v.eventId v.event = .ok v

theorem equivocation_not_mem_skewFlags (nowMs : Option Nat) (createdAt : Nat) :
    Flag.equivocation ∉ skewFlags nowMs createdAt := by
  unfold skewFlags
  cases nowMs with
  | none => simp
  | some now =>
    dsimp only
    split_ifs <;> simp

theorem Validated.flags {v : ValidatedEvent env room} (h : Validated v) : Flag.equivocation ∉ v.flags := by
  obtain ⟨nowMs, hval⟩ := h
  unfold validate at hval
  split_ifs at hval with hschema htyped
  split at hval
  · cases hval
  · rename_i hchecked
    have hflags : skewFlags nowMs v.event.createdAt = v.flags := congrArg ValidatedEvent.flags (Except.ok.inj hval)
    rw [← hflags]
    exact equivocation_not_mem_skewFlags _ _

theorem Toy.validated_of_mem_log {events : List (Nat × SignedEvent)} {v : ValidatedEvent toyEnv Toy.room}
    (h : v ∈ Toy.log events) : Validated v := by
  obtain ⟨p, -, hv⟩ := List.mem_filterMap.mp h
  cases hval : validate toyEnv ⟨Toy.room, none⟩ (Bytes32.ofNat p.1) p.2 with
  | error reason => simp [hval, Except.toOption] at hv
  | ok w =>
    simp only [hval, Except.toOption, Option.some.injEq] at hv
    obtain ⟨hid, hevent⟩ := validate_ok hval
    refine ⟨none, ?_⟩
    rw [← hv, hid, hevent]
    exact hval

namespace RoomMembership

variable (m : RoomMembership env room)

/-- The recorded heads of a sender. -/
def headsOf (sender : IdentityKey) : OrdSet EventId := (m.senderHeads.get? sender).getD OrdMap.empty

/-- An accepted event of the sender. -/
def AuthoredBy (sender : IdentityKey) (id : EventId) : Prop :=
  m.isAccepted id = true ∧ ∃ e, m.event? id = some e ∧ e.senderId = sender

/-- The event is classified with the equivocation flag. -/
def Flagged (id : EventId) : Prop :=
  ∃ n flags, m.nodes.get? id = some n ∧ n.verdict = .accepted flags ∧ Flag.equivocation ∈ flags

variable {m}

/-! ### Structural ancestors -/

theorem mem_prevOf {a id : EventId} : a ∈ m.prevOf id ↔ Staged.Dep m.deps a id := by
  rw [dep_iff]
  cases hn : m.nodes.get? id with
  | none => simp [prevOf, event?, hn]
  | some n => simp [prevOf, event?, hn]

theorem structuralSearch_eq (ancestor : EventId) (fuel : Nat) (stack : List EventId) (seen : OrdSet EventId) :
    m.structuralSearch ancestor fuel stack seen = Search.search m.prevOf ancestor fuel stack seen := by
  induction fuel generalizing stack seen with
  | zero => rfl
  | succ fuel ih =>
    cases stack with
    | nil => rfl
    | cons current stack => simp only [structuralSearch, Search.search, ih]

theorem reaches_prevOf {a d : EventId} : Search.Reaches m.prevOf d a ↔ a = d ∨ Staged.Below m.deps a d := by
  constructor
  · intro hreach
    induction hreach with
    | refl => exact Or.inl rfl
    | tail _ hedge ih =>
      rw [mem_prevOf] at hedge
      have hdep := Staged.Below.of_dep hedge
      rcases ih with rfl | hbelow
      · exact Or.inr hdep
      · exact Or.inr (hdep.trans hbelow)
  · rintro (rfl | hbelow)
    · exact Relation.ReflTransGen.refl
    · induction hbelow using Relation.TransGen.head_induction_on with
      | single hd =>
        rw [← mem_prevOf] at hd
        exact Relation.ReflTransGen.single hd
      | head hd _ ih =>
        rw [← mem_prevOf] at hd
        exact Relation.ReflTransGen.tail ih hd

theorem sum_prevOf : (m.nodes.keys.map fun id => (m.prevOf id).length).sum =
    (m.nodes.values.map fun n => n.event.event.prevEvents.length).sum := by
  simp only [OrdMap.keys, OrdMap.values, List.map_map]
  congr 1
  refine List.map_congr_left fun entry hentry => ?_
  have hget : m.nodes.get? entry.1 = some entry.2 := OrdMap.mem_entries.mp hentry
  simp [prevOf, hget]

/-- The search through parents finds exactly the ancestors. -/
theorem isStructuralAncestor_iff {a id : EventId} :
    m.isStructuralAncestor a id = true ↔ Staged.Below m.deps a id := by
  have hsupply : ∀ x, m.prevOf x ≠ [] → x ∈ m.nodes.keys := by
    intro x hx
    cases hn : m.nodes.get? x with
    | none => simp [prevOf, hn] at hx
    | some n => exact OrdMap.mem_keys.mpr (by simp [hn])
  rw [isStructuralAncestor, structuralSearch_eq, Search.search_iff hsupply]
  · simp only [List.mem_reverse, mem_prevOf, reaches_prevOf]
    constructor
    · rintro ⟨s, hs, hreach⟩
      have hdep := Staged.Below.of_dep hs
      rcases hreach with rfl | hbelow
      · exact hdep
      · exact hbelow.trans hdep
    · intro hbelow
      exact hbelow.cases
  · rw [List.length_reverse, sum_prevOf]
    omega

theorem isEquivocation_iff {id : EventId} {sender : IdentityKey} :
    m.isEquivocation id sender = true ↔ ∃ head ∈ m.headsOf sender, ¬ Staged.Below m.deps head id := by
  unfold isEquivocation headsOf
  cases hs : m.senderHeads.get? sender with
  | none => simp
  | some heads =>
    simp only [List.any_eq_true, OrdSet.mem_toList, Option.getD_some, Bool.not_eq_true', Bool.eq_false_iff, ne_eq,
      isStructuralAncestor_iff]

theorem mem_headsOf_record {id : EventId} {n : Node env room} (hn : m.nodes.get? id = some n) (sender : IdentityKey)
    (j : EventId) : j ∈ (m.recordSenderHead id).headsOf sender ↔
      (sender = n.event.event.senderId ∧ (j = id ∨ (j ∈ m.headsOf sender ∧ ¬ Staged.Below m.deps j id))) ∨
        (sender ≠ n.event.event.senderId ∧ j ∈ m.headsOf sender) := by
  simp only [headsOf, recordSenderHead, hn, OrdMap.get?_insert]
  by_cases hs : sender = n.event.event.senderId
  · subst hs
    simp only [if_true, Option.getD_some, OrdSet.mem_add, OrdSet.mem_ofList, List.mem_filter, OrdSet.mem_toList,
      Bool.not_eq_true', Bool.eq_false_iff, ne_eq, isStructuralAncestor_iff, true_and, not_true_eq_false, false_and,
      or_false]
  · simp [hs]

/-! ### One classification -/

/-- What a transition does to the heads, and the flags it leaves. -/
structure HeadStep (m m' : RoomMembership env room) (id : EventId) (n : Node env room) : Prop where
  node : m.nodes.get? id = some n
  heads : ∀ sender j, j ∈ m'.headsOf sender ↔ (m'.isAccepted id = true ∧ sender = n.event.event.senderId ∧
      (j = id ∨ (j ∈ m.headsOf sender ∧ ¬ Staged.Below m.deps j id))) ∨
    (¬ (m'.isAccepted id = true ∧ sender = n.event.event.senderId) ∧ j ∈ m.headsOf sender)
  flagged : m'.Flagged id ↔ m'.isAccepted id = true ∧
    (Flag.equivocation ∈ n.event.flags ∨ m.isEquivocation id n.event.event.senderId = true)

theorem mem_flags_iff {flags : List Flag} {equivocates : Bool} :
    Flag.equivocation ∈ (if equivocates && !flags.contains .equivocation then flags ++ [Flag.equivocation] else flags) ↔
      Flag.equivocation ∈ flags ∨ equivocates = true := by
  cases equivocates with
  | false => simp
  | true =>
    by_cases hmem : Flag.equivocation ∈ flags
    · simp [hmem]
    · simp [hmem]

theorem gateVerdict_accepted {id : EventId} {n : Node env room} (hn : m.nodes.get? id = some n) {ids : OrdSet EventId}
    {flags : List Flag} (h : m.gateVerdict id ids = .accepted flags) :
    Flag.equivocation ∈ flags ↔ Flag.equivocation ∈ n.event.flags ∨ m.isEquivocation id n.event.event.senderId = true := by
  simp only [gateVerdict, hn] at h
  cases hg : gate env room n.event.event (m.resolve ids) with
  | error reason => simp [hg] at h
  | ok u =>
    simp only [hg, Verdict.accepted.injEq] at h
    rw [← h]
    exact mem_flags_iff

theorem deps_setNode {id : EventId} {n n' : Node env room} (hn : m.nodes.get? id = some n) (he : n'.event = n.event) :
    (m.setNode id n').deps = m.deps := by
  funext j
  simp only [deps, event?, setNode, OrdMap.get?_insert]
  split_ifs with hj
  · simp [hj, hn, he]
  · rfl

theorem tryClassify_headStep {m' : RoomMembership env room} {id : EventId} (h : m.tryClassify id = some m') :
    ∃ n, HeadStep m m' id n := by
  unfold tryClassify at h
  cases hn : m.nodes.get? id with
  | none => simp [hn] at h
  | some n =>
    simp only [hn] at h
    by_cases hpend : (!n.isPending) = true
    · simp [hpend] at h
    by_cases hpar : (n.event.event.prevEvents.any fun parent => !m.isClassified parent) = true
    · simp [hpar] at h
    rw [if_neg hpend, if_neg hpar] at h
    set memo := parentMemo m.entryOf n.event.event.prevEvents with hmemo
    set memoised := m.setNode id { n with membershipAncestors := memo } with hmemoised
    have hnode : memoised.nodes.get? id = some { n with membershipAncestors := memo } := by
      simp [hmemoised, setNode]
    have hdeps : memoised.deps = m.deps := deps_setNode hn rfl
    have hequiv : memoised.isEquivocation id n.event.event.senderId = true ↔
        m.isEquivocation id n.event.event.senderId = true := by
      rw [isEquivocation_iff, isEquivocation_iff, hdeps]
      rfl
    cases hv : memoised.gateVerdict id memo with
    | pending =>
      have hout := gateVerdict_outcome hnode memo
      simp [hv, Verdict.outcome] at hout
    | accepted flags =>
      have hflags := gateVerdict_accepted hnode hv
      rw [hv] at h
      simp only [Option.some.injEq] at h
      set classified := memoised.setNode id ⟨n.event, .accepted flags, memo⟩ with hclassified
      have hcnode : classified.nodes.get? id = some ⟨n.event, .accepted flags, memo⟩ := by
        simp [hclassified, setNode]
      have hcdeps : classified.deps = m.deps := by
        refine Eq.trans (deps_setNode hnode ?_) hdeps
        rfl
      have hnodes : m'.nodes = classified.nodes := by
        rw [← h]
        split_ifs <;> simp [bumpGeneration]
      have hheads : m'.senderHeads = (classified.recordSenderHead id).senderHeads := by
        rw [← h]
        split_ifs <;> rfl
      have hacc : m'.isAccepted id = true := by simp [isAccepted, hnodes, hcnode, Node.isAccepted]
      refine ⟨n, hn, fun sender j => ?_, ?_⟩
      · have hrecord := mem_headsOf_record hcnode sender j
        rw [hcdeps] at hrecord
        have hsame : j ∈ m'.headsOf sender ↔ j ∈ (classified.recordSenderHead id).headsOf sender := by
          rw [headsOf, headsOf, hheads]
        rw [hsame, hrecord]
        simp only [hacc, true_and]
        rfl
      · rw [hequiv] at hflags
        rw [← hflags]
        simp [Flagged, hnodes, hcnode, hacc]
    | rejected reason =>
      rw [hv] at h
      simp only [Option.some.injEq] at h
      have hcnode : m'.nodes.get? id = some ⟨n.event, .rejected reason, memo⟩ := by
        rw [← h]
        simp [setNode]
      have hacc : ¬ m'.isAccepted id = true := by simp [isAccepted, hcnode, Node.isAccepted]
      refine ⟨n, hn, fun sender j => ?_, ?_⟩
      · have hsame : m'.headsOf sender = m.headsOf sender := by
          rw [← h]
          rfl
        simp [hsame, hacc]
      · simp [Flagged, hcnode, hacc]

/-! ### Reachable states -/

/-- The states the engine passes through: between two ingests, and inside a cascade. -/
inductive Reachable : RoomMembership env room → Prop
  | new : Reachable new
  | track {m : RoomMembership env room} {v : ValidatedEvent env room} (h : Reachable m)
      (hnew : m.nodes.contains v.eventId = false) (hval : Validated v) : Reachable (m.track v)
  | classify {m m' : RoomMembership env room} {id : EventId} (h : Reachable m) (hc : m.tryClassify id = some m') :
      Reachable m'

theorem Reachable.cascade (h : Reachable m) (fuel : Nat) (work : List EventId) : Reachable (cascade fuel m work) := by
  induction fuel generalizing m work with
  | zero => exact h
  | succ fuel ih =>
    cases work with
    | nil => exact h
    | cons current work =>
      cases hc : m.tryClassify current with
      | none =>
        simp only [RoomMembership.cascade, hc]
        exact ih h work
      | some m' =>
        simp only [RoomMembership.cascade, hc]
        exact ih (h.classify hc) _

theorem Reachable.ingest (h : Reachable m) {v : ValidatedEvent env room} (hval : Validated v) :
    Reachable (m.ingest v) := by
  unfold RoomMembership.ingest
  split_ifs with hknown
  · exact h
  · exact (h.track (Bool.eq_false_iff.mpr hknown) hval).cascade _ _

theorem reachable_fromEvents {events : List (ValidatedEvent env room)} (hval : ∀ v ∈ events, Validated v) :
    Reachable (fromEvents events) := by
  have hrun : ∀ m : RoomMembership env room, Reachable m → Reachable (events.foldl RoomMembership.ingest m) := by
    induction events with
    | nil => exact fun m h => h
    | cons v events ih =>
      intro m h
      refine ih (fun w hw => hval w (List.mem_cons_of_mem _ hw)) _ (h.ingest (hval v List.mem_cons_self))
  exact hrun _ Reachable.new

theorem Reachable.wf (h : Reachable m) : WF m := by
  induction h with
  | new => exact settled_new.wf
  | track _ hnew _ ih => exact track_wf (by simpa [OrdMap.contains] using hnew) ih
  | classify _ hc ih => exact (tryClassify_some hc).wf ih

/-- No tracked event carries the equivocation flag before it is classified. -/
theorem Reachable.unflagged (h : Reachable m) {id : EventId} {n : Node env room} (hn : m.nodes.get? id = some n) :
    Flag.equivocation ∉ n.event.flags := by
  induction h generalizing id n with
  | new =>
    rw [RoomMembership.new, OrdMap.get?_empty] at hn
    cases hn
  | track _ _ hval ih =>
    rw [track_get?] at hn
    split_ifs at hn with hid
    · obtain rfl := Option.some.inj hn
      exact hval.flags
    · exact ih hn
  | classify _ hc ih =>
    obtain ⟨n₀, v, hn₀, -, -, -, hget⟩ := (tryClassify_some hc).step
    rw [hget] at hn
    split_ifs at hn with hid
    · rw [← Option.some.inj hn]
      exact ih (n := n₀) hn₀
    · exact ih hn

/-! ### The heads -/

/-- The heads of every sender are its accepted events that no accepted event of the sender descends from. -/
def HeadsExact (m : RoomMembership env room) : Prop :=
  ∀ sender id, id ∈ m.headsOf sender ↔
    m.AuthoredBy sender id ∧ ∀ j, m.AuthoredBy sender j → ¬ Staged.Below m.deps id j

theorem AuthoredBy.classified {sender : IdentityKey} {id : EventId} (h : m.AuthoredBy sender id) :
    m.result id ≠ none := result_ne_none_of_accepted h.1

theorem headsExact_new : HeadsExact (new : RoomMembership env room) := by
  intro sender id
  refine iff_of_false ?_ fun h => ?_
  · simp [headsOf, new]
  · have hacc := h.1.1
    simp [isAccepted, new] at hacc

section Track

variable {v : ValidatedEvent env room} (hnew : m.nodes.get? v.eventId = none)

include hnew

theorem track_authoredBy {sender : IdentityKey} {id : EventId} :
    (m.track v).AuthoredBy sender id ↔ m.AuthoredBy sender id := by
  unfold AuthoredBy
  rw [isAccepted_iff, isAccepted_iff, track_result hnew]
  refine and_congr_right fun ⟨s, hs⟩ => ?_
  obtain ⟨e, he⟩ := event?_of_result (show m.result id ≠ none by simp [hs])
  rw [track_event? hnew he, he]

/-- A new event adds no path below a classified one. -/
theorem track_below (hwf : WF m) {a id : EventId} (hid : m.result id ≠ none) :
    Staged.Below (m.track v).deps a id ↔ Staged.Below m.deps a id := by
  have hsame : ∀ {i}, m.result i ≠ none → m.deps i = (m.track v).deps i := by
    intro i hi
    obtain ⟨e, he⟩ := event?_of_result hi
    rw [deps, deps, track_event? hnew he, he]
  have hclosed : ∀ {i d}, m.result i ≠ none → Staged.Dep (m.track v).deps d i → m.result d ≠ none := by
    rintro i d hi ⟨ds, hds, hd⟩
    rw [← hsame hi] at hds
    exact hwf.classified_of_below (Staged.Below.of_dep ⟨ds, hds, hd⟩) hi
  constructor
  · exact fun hb => (Staged.Below.restrict hsame hclosed hb hid).2
  · refine fun hb => hb.mono fun {i ds} hds => ?_
    obtain ⟨e, he, rfl⟩ := Option.map_eq_some_iff.mp hds
    rw [deps, track_event? hnew he]
    rfl

theorem HeadsExact.track (h : HeadsExact m) (hwf : WF m) : HeadsExact (m.track v) := by
  intro sender id
  have hsame : (m.track v).headsOf sender = m.headsOf sender := rfl
  rw [hsame, h sender id, track_authoredBy hnew]
  refine and_congr_right fun _ => forall_congr' fun j => ?_
  rw [track_authoredBy hnew]
  exact forall_congr' fun hj => not_congr (track_below hnew hwf hj.classified).symm

end Track

theorem Classifies.authoredBy {m' : RoomMembership env room} {id : EventId} {n : Node env room}
    (h : Classifies m m' id) (hn : m.nodes.get? id = some n) {sender : IdentityKey} {j : EventId} :
    m'.AuthoredBy sender j ↔ m.AuthoredBy sender j ∨
      (j = id ∧ m'.isAccepted id = true ∧ sender = n.event.event.senderId) := by
  unfold AuthoredBy
  rw [h.event?_eq]
  by_cases hj : j = id
  · subst hj
    have hbefore : ¬ m.isAccepted j = true := fun hacc => result_ne_none_of_accepted hacc h.result_before
    have hevent : m.event? j = some n.event.event := by simp [event?, hn]
    simp only [hbefore, Bool.false_eq_true, false_and, false_or, true_and, hevent, Option.some.injEq, exists_eq_left']
    exact and_congr_right fun _ => eq_comm
  · rw [isAccepted_iff, isAccepted_iff, h.result_ne hj]
    simp [hj]

theorem HeadsExact.classify {m' : RoomMembership env room} {id : EventId} (h : HeadsExact m) (hwf : WF m)
    (hc : m.tryClassify id = some m') : HeadsExact m' := by
  have hcl := tryClassify_some hc
  obtain ⟨n, hstep⟩ := tryClassify_headStep hc
  have hauth := @Classifies.authoredBy _ _ _ _ _ _ hcl hstep.node
  -- nothing classified descends from the event, which was pending until now
  have hfresh : ∀ {sender j}, m.AuthoredBy sender j → ¬ Staged.Below m.deps id j :=
    fun hj hb => hwf.classified_of_below hb hj.classified hcl.result_before
  intro sender j
  rw [hstep.heads, hcl.deps_eq]
  by_cases hmine : m'.isAccepted id = true ∧ sender = n.event.event.senderId
  · have hself : ¬ Staged.Below m.deps id id := by
      have hready := (hcl.wf hwf).ready (result_ne_none_of_accepted hmine.1)
      rw [hcl.deps_eq] at hready
      exact hready.not_below_self
    simp only [hmine, true_and, not_true_eq_false, false_and, or_false]
    rw [← hmine.2, h sender j]
    constructor
    · rintro (rfl | ⟨⟨hj, hmax⟩, hnot⟩)
      · refine ⟨hauth.mpr (Or.inr ⟨rfl, hmine⟩), fun k hk => ?_⟩
        rcases hauth.mp hk with hold | ⟨rfl, -⟩
        · exact hfresh hold
        · exact hself
      · refine ⟨hauth.mpr (Or.inl hj), fun k hk => ?_⟩
        rcases hauth.mp hk with hold | ⟨rfl, -⟩
        · exact hmax k hold
        · exact hnot
    · rintro ⟨hj, hmax⟩
      rcases hauth.mp hj with hold | ⟨rfl, -⟩
      · exact Or.inr ⟨⟨hold, fun k hk => hmax k (hauth.mpr (Or.inl hk))⟩, hmax id (hauth.mpr (Or.inr ⟨rfl, hmine⟩))⟩
      · exact Or.inl rfl
  · have hsame : ∀ k, m'.AuthoredBy sender k ↔ m.AuthoredBy sender k := fun k =>
      hauth.trans (or_iff_left fun hk => hmine hk.2)
    have hnot : ¬ (m'.isAccepted id = true ∧ sender = n.event.event.senderId ∧
        (j = id ∨ (j ∈ m.headsOf sender ∧ ¬ Staged.Below m.deps j id))) := fun hk => hmine ⟨hk.1, hk.2.1⟩
    simp only [hmine, hnot, not_false_eq_true, true_and, false_or, hsame]
    exact h sender j

theorem Reachable.headsExact (h : Reachable m) : HeadsExact m := by
  induction h with
  | new => exact headsExact_new
  | track hm hnew _ ih => exact ih.track (by simpa [OrdMap.contains] using hnew) hm.wf
  | classify hm hc ih => exact ih.classify hm.wf hc

/-- Every accepted event of a sender lies at or below a head. -/
theorem HeadsExact.exists_head (h : HeadsExact m) (hwf : WF m) {sender : IdentityKey} {j : EventId}
    (hj : m.AuthoredBy sender j) : ∃ head ∈ m.headsOf sender, head = j ∨ Staged.Below m.deps j head := by
  obtain ⟨head, hhead, hor, htop⟩ := Staged.exists_top (Staged.Below m.deps) (P := m.AuthoredBy sender)
    Staged.Below.trans (fun a ha => (hwf.ready ha.classified).not_below_self) m.nodes.keys hj
  refine ⟨head, (h sender head).mpr ⟨hhead, fun k hk => htop k ?_ hk⟩, hor⟩
  obtain ⟨n, hn⟩ := node_of_result hk.classified
  exact OrdMap.mem_keys.mpr (by simp [hn])

/-- Some accepted event of the sender is not below the event exactly if some head is not. -/
theorem HeadsExact.exists_concurrent_iff (h : HeadsExact m) (hwf : WF m) {sender : IdentityKey} {id : EventId} :
    (∃ head ∈ m.headsOf sender, ¬ Staged.Below m.deps head id) ↔
      ∃ j, m.AuthoredBy sender j ∧ ¬ Staged.Below m.deps j id := by
  constructor
  · rintro ⟨head, hhead, hnot⟩
    exact ⟨head, ((h sender head).mp hhead).1, hnot⟩
  · rintro ⟨j, hj, hnot⟩
    obtain ⟨head, hhead, hor⟩ := h.exists_head hwf hj
    refine ⟨head, hhead, fun hb => hnot ?_⟩
    rcases hor with rfl | habove
    · exact hb
    · exact habove.trans hb

/-- The heads are the maximal accepted events, pairwise concurrent, and a classified event is flagged exactly if it is
accepted and its sender has an accepted event it does not descend from. -/
theorem sender_heads_exact (h : Reachable m) :
    (∀ sender id, id ∈ m.headsOf sender ↔
      m.AuthoredBy sender id ∧ ∀ j, m.AuthoredBy sender j → ¬ Staged.Below m.deps id j) ∧
    (∀ sender, ∀ a ∈ m.headsOf sender, ∀ b ∈ m.headsOf sender, ¬ Staged.Below m.deps a b) ∧
    ∀ id m' e, m.tryClassify id = some m' → m.event? id = some e →
      (m'.Flagged id ↔ m'.isAccepted id = true ∧
        ∃ j, m.AuthoredBy e.senderId j ∧ ¬ Staged.Below m.deps j id) := by
  have hexact := h.headsExact
  refine ⟨hexact, fun sender a ha b hb => ?_, fun id m' e hc he => ?_⟩
  · exact ((hexact sender a).mp ha).2 b ((hexact sender b).mp hb).1
  · obtain ⟨n, hstep⟩ := tryClassify_headStep hc
    have hsender : n.event.event = e := by simpa [event?, hstep.node] using he
    rw [hstep.flagged, ← hsender, isEquivocation_iff, hexact.exists_concurrent_iff h.wf]
    refine and_congr_right fun _ => or_iff_right (h.unflagged hstep.node)

/-- Two messages of the joined participant on one parent: both are heads. -/
def Toy.forked : List (ValidatedEvent toyEnv Toy.room) :=
  Toy.log [(10, Toy.genesis), (11, Toy.invite 2 7 .member none [10]), (12, Toy.join 2 7 .member [11]),
    (13, Toy.message 2 "a" [12]), (14, Toy.message 2 "b" [12])]

theorem sender_heads_exact_forked :
    (Bytes32.ofNat 13 : EventId) ∈ (fromEvents Toy.forked).headsOf (Toy.identity 2) ∧
      (Bytes32.ofNat 14 : EventId) ∈ (fromEvents Toy.forked).headsOf (Toy.identity 2) ∧
      ¬ Staged.Below (fromEvents Toy.forked).deps (Bytes32.ofNat 13) (Bytes32.ofNat 14) := by
  obtain ⟨hfirst, hsecond⟩ : (Bytes32.ofNat 13 : EventId) ∈ (fromEvents Toy.forked).headsOf (Toy.identity 2) ∧
      (Bytes32.ofNat 14 : EventId) ∈ (fromEvents Toy.forked).headsOf (Toy.identity 2) := by decide +kernel
  have hreach : Reachable (fromEvents Toy.forked) := reachable_fromEvents fun v hv => Toy.validated_of_mem_log hv
  exact ⟨hfirst, hsecond, (sender_heads_exact hreach).2.1 _ _ hfirst _ hsecond⟩

/-- A message its sender wrote before joining. -/
def Toy.early : ValidatedEvent toyEnv Toy.room :=
  (validate toyEnv ⟨Toy.room, none⟩ (Bytes32.ofNat 15) (Toy.message 2 "c" [11])).toOption.get (by decide +kernel)

/-- The early message is concurrent with the sender's join; it is rejected, and a rejection carries no flag. -/
theorem rejected_unflagged : ¬ ∀ (env : Env) (room : RoomId) (m m' : RoomMembership env room) (id : EventId)
    (e : SignedEvent), Reachable m → m.tryClassify id = some m' → m.event? id = some e →
    (m'.Flagged id ↔ ∃ j, m.AuthoredBy e.senderId j ∧ ¬ Staged.Below m.deps j id) := by
  intro hall
  have hval : Validated Toy.early := Toy.validated_of_mem_log
    (List.mem_filterMap.mpr ⟨(15, Toy.message 2 "c" [11]), List.mem_singleton_self _, (Option.some_get _).symm⟩)
  -- the log is folded once for all that is read of it
  obtain ⟨hunknown, hread, hevent, haccepted, hjoin, hbelow⟩ :
      (fromEvents Toy.forked).nodes.contains Toy.early.eventId = false ∧
      (((fromEvents Toy.forked).track Toy.early).tryClassify (Bytes32.ofNat 15)).map
        (fun m' => m'.isAccepted (Bytes32.ofNat 15)) = some false ∧
      ((fromEvents Toy.forked).track Toy.early).event? (Bytes32.ofNat 15) = some (Toy.message 2 "c" [11]) ∧
      ((fromEvents Toy.forked).track Toy.early).isAccepted (Bytes32.ofNat 12) = true ∧
      ((fromEvents Toy.forked).track Toy.early).event? (Bytes32.ofNat 12) = some (Toy.join 2 7 .member [11]) ∧
      ((fromEvents Toy.forked).track Toy.early).isStructuralAncestor (Bytes32.ofNat 12) (Bytes32.ofNat 15) ≠ true := by
    decide +kernel
  have hreach : Reachable ((fromEvents Toy.forked).track Toy.early) :=
    (reachable_fromEvents fun v hv => Toy.validated_of_mem_log hv).track hunknown hval
  obtain ⟨m', hc, hrejected⟩ := Option.map_eq_some_iff.mp hread
  have hflagged := (hall toyEnv Toy.room _ m' (Bytes32.ofNat 15) (Toy.message 2 "c" [11]) hreach hc hevent).mpr
    ⟨Bytes32.ofNat 12, ⟨haccepted, Toy.join 2 7 .member [11], hjoin, rfl⟩,
      fun hb => hbelow (isStructuralAncestor_iff.mpr hb)⟩
  obtain ⟨n, flags, hn, hv, -⟩ := hflagged
  simp [isAccepted, hn, Node.isAccepted, hv] at hrejected

end RoomMembership

end IrohRooms
