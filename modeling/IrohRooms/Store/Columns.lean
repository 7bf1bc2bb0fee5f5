import IrohRooms.Lib.Staged
import IrohRooms.Store.EventStore

/-!
# The derived columns are a fixpoint

Whatever order events are inserted in, `propagateFrom` leaves every row's columns equal to what the equations
give them in the present table (`Consistent`), as long as the stored events have no cycle and one creator. On a
consistent acyclic table `admin_seq` counts the longest chain of admin events that cite each other directly
(`AdminChain`): an admin event that cites only other members' events starts no chain, however many admin events
lie further up.
-/

namespace IrohRooms

variable {env : Env} {room : RoomId}

namespace EventStore

/-- The parents of a stored event. -/
def deps (s : EventStore env room) (id : EventId) : Option (List EventId) :=
  (s.event? id).map fun v => v.event.prevEvents

/-- Every row's columns are what the equations give. -/
def Consistent (s : EventStore env room) : Prop :=
  ∀ id row, s.rows.get? id = some row → s.computed row = (row.lamport, row.adminSeq)

/-- No stored event is its own ancestor. -/
def Acyclic (s : EventStore env room) : Prop := ∀ id, ¬ Staged.Below s.deps id id

/-- Every stored genesis has this sender. -/
def CreatedBy (creator : IdentityKey) (s : EventStore env room) : Prop :=
  ∀ id row, s.rows.get? id = some row → row.isGenesis = true → row.event.event.senderId = creator

variable {s t : EventStore env room}

/-! ### What each query reads -/

theorem event?_eq_some {id : EventId} {v : ValidatedEvent env room} :
    s.event? id = some v ↔ ∃ row, s.rows.get? id = some row ∧ row.event = v := Option.map_eq_some_iff

theorem contains_iff {id : EventId} : s.contains id = true ↔ ∃ row, s.rows.get? id = some row :=
  Option.isSome_iff_exists

theorem dep_iff {p c : EventId} :
    Staged.Dep s.deps p c ↔ ∃ row, s.rows.get? c = some row ∧ p ∈ row.event.event.prevEvents := by
  constructor
  · intro ⟨ds, hds, hp⟩
    obtain ⟨v, hv, rfl⟩ := Option.map_eq_some_iff.mp hds
    obtain ⟨row, hrow, rfl⟩ := event?_eq_some.mp hv
    exact ⟨row, hrow, hp⟩
  · intro ⟨row, hrow, hp⟩
    exact ⟨_, Option.map_eq_some_iff.mpr ⟨_, event?_eq_some.mpr ⟨row, hrow, rfl⟩, rfl⟩, hp⟩

theorem mem_childrenOf {p c : EventId} : c ∈ s.childrenOf p ↔ Staged.Dep s.deps p c := by
  rw [dep_iff, childrenOf, List.mem_flatMap]
  constructor
  · intro ⟨e, he, hc⟩
    obtain ⟨q, hq, rfl⟩ := List.mem_map.mp hc
    obtain ⟨hmem, heq⟩ := List.mem_filter.mp hq
    have hqp : q = p := by simpa using heq
    exact ⟨e.2, OrdMap.mem_entries.mp he, hqp ▸ hmem⟩
  · intro ⟨row, hrow, hp⟩
    refine ⟨(c, row), OrdMap.mem_entries.mpr hrow, List.mem_map.mpr ⟨p, ?_, rfl⟩⟩
    exact List.mem_filter.mpr ⟨hp, by simp⟩

theorem length_childrenOf_le (p : EventId) : (s.childrenOf p).length ≤ s.edgeCount := by
  unfold childrenOf edgeCount OrdMap.values
  generalize s.rows.entries = l
  induction l with
  | nil => simp
  | cons e l ih =>
    have hfilter := List.length_filter_le (· == p) e.2.event.event.prevEvents
    rw [List.flatMap_cons, List.length_append, List.length_map, List.map_cons, List.map_cons, List.sum_cons]
    omega

theorem event?_congr_deps (h : ∀ id, t.event? id = s.event? id) : t.deps = s.deps :=
  funext fun id => by rw [deps, deps, h id]

/-- The admin is read off the events alone. -/
theorem adminOfRoom_congr (h : ∀ id, t.event? id = s.event? id) : t.adminOfRoom = s.adminOfRoom := by
  have heq : t.rows.mapValues Row.event = s.rows.mapValues Row.event := by
    refine OrdMap.ext_get? fun id => ?_
    rw [OrdMap.get?_mapValues, OrdMap.get?_mapValues]
    exact h id
  have hread : ∀ r : EventStore env room, r.adminOfRoom = ((r.rows.mapValues Row.event).values.find? fun v =>
      v.event.eventType == .roomCreated).map fun v => v.event.senderId := by
    intro r
    unfold adminOfRoom OrdMap.values OrdMap.mapValues
    rw [List.map_map]
    generalize r.rows.entries = l
    induction l with
    | nil => rfl
    | cons e l ih =>
      rw [List.map_cons, List.map_cons]
      by_cases hg : e.2.event.event.eventType = .roomCreated
      · simp [Row.isGenesis, hg]
      · simpa [Row.isGenesis, hg] using ih
  rw [hread, hread, heq]

theorem exists_genesis_of_admin {a : IdentityKey} (h : s.adminOfRoom = some a) :
    ∃ id row, s.rows.get? id = some row ∧ row.isGenesis = true ∧ row.event.event.senderId = a := by
  obtain ⟨row, hfind, hsender⟩ := Option.map_eq_some_iff.mp h
  obtain ⟨id, hid⟩ := OrdMap.mem_values.mp (List.mem_of_find?_eq_some hfind)
  exact ⟨id, row, hid, List.find?_some hfind, hsender⟩

/-- With one creator, the admin is known exactly when a genesis is stored. -/
theorem CreatedBy.adminOfRoom_eq {creator : IdentityKey} (h : CreatedBy creator s) {id : EventId}
    {row : Row env room} (hrow : s.rows.get? id = some row) (hg : row.isGenesis = true) :
    s.adminOfRoom = some creator := by
  cases ha : s.adminOfRoom with
  | none =>
    have hnone := Option.map_eq_none_iff.mp ha
    exact absurd hg (List.find?_eq_none.mp hnone row (OrdMap.mem_values.mpr ⟨id, hrow⟩))
  | some a =>
    obtain ⟨id', row', hrow', hg', hsender⟩ := exists_genesis_of_admin ha
    rw [← hsender, h id' row' hrow' hg']

theorem computeLamport_congr {f g : EventId → Option Nat} {isGenesis : Bool} {parents : List EventId}
    (h : ∀ p ∈ parents, f p = g p) : computeLamport f isGenesis parents = computeLamport g isGenesis parents := by
  have hfold : ∀ acc, parents.foldl (lamportStep f) acc = parents.foldl (lamportStep g) acc := by
    intro acc
    refine List.foldl_ext _ _ acc fun a p hp => ?_
    rw [lamportStep, lamportStep, h p hp]
  rw [computeLamport, computeLamport, hfold]

theorem computeAdmin_congr {f g : EventId → Option Nat} {admin : Option IdentityKey} {sender : IdentityKey}
    {isGenesis : Bool} {parents : List EventId} (h : ∀ p ∈ parents, f p = g p) :
    computeAdmin admin f sender isGenesis parents = computeAdmin admin g sender isGenesis parents := by
  have hfold : ∀ acc, parents.foldl (adminStep f) acc = parents.foldl (adminStep g) acc := by
    intro acc
    refine List.foldl_ext _ _ acc fun a p hp => ?_
    rw [adminStep, adminStep, h p hp]
  rw [computeAdmin, computeAdmin, hfold]

/-- The equations read the admin and the columns of the parents. -/
theorem computed_congr {row row' : Row env room} (hevent : row'.event = row.event)
    (hadmin : t.adminOfRoom = s.adminOfRoom)
    (hcols : ∀ p ∈ row.event.event.prevEvents, t.lamportOf p = s.lamportOf p ∧ t.adminSeqOf p = s.adminSeqOf p) :
    t.computed row' = s.computed row := by
  obtain ⟨v, l, a⟩ := row'
  subst hevent
  refine Prod.ext (computeLamport_congr fun p hp => (hcols p hp).1) ?_
  refine (congrArg (fun admin => computeAdmin admin _ _ _ _) hadmin).trans ?_
  exact computeAdmin_congr fun p hp => (hcols p hp).2

/-! ### One recomputation -/

theorem setRow_get? (row : Row env room) (id : EventId) :
    (s.setRow row).rows.get? id = if id = row.event.eventId then some row else s.rows.get? id :=
  OrdMap.get?_insert _ _ _ _

/-- What a recomputation that changed something did. -/
theorem recomputeOne_some {id : EventId} (h : s.recomputeOne id = some t) :
    ∃ row, s.rows.get? id = some row ∧
      ∀ id', t.rows.get? id' = if id' = id then some ⟨row.event, (s.computed row).1, (s.computed row).2⟩
        else s.rows.get? id' := by
  unfold recomputeOne at h
  split at h
  · cases h
  · rename_i row hrow
    simp only at h
    split_ifs at h
    rw [Option.some.injEq] at h
    refine ⟨row, hrow, fun id' => ?_⟩
    rw [← h, setRow_get?, s.keyed id row hrow]

theorem recomputeOne_none {id : EventId} (h : s.recomputeOne id = none) {row : Row env room}
    (hrow : s.rows.get? id = some row) : s.computed row = (row.lamport, row.adminSeq) := by
  unfold recomputeOne at h
  rw [hrow] at h
  simp only at h
  split_ifs at h with heq
  exact heq

/-- The loop invariant: the events stay, the stack holds stored rows, and every other row is settled. -/
structure Propagating (s₀ t : EventStore env room) (work : List EventId) : Prop where
  events : ∀ id, t.event? id = s₀.event? id
  stored : ∀ id ∈ work, s₀.event? id ≠ none
  settled : ∀ id row, t.rows.get? id = some row → id ∉ work → t.computed row = (row.lamport, row.adminSeq)

theorem Propagating.skip {s₀ : EventStore env room} {id : EventId} {work : List EventId}
    (h : Propagating s₀ t (id :: work)) (hnone : t.recomputeOne id = none) : Propagating s₀ t work := by
  refine ⟨h.events, fun x hx => h.stored x (List.mem_cons_of_mem _ hx), fun x row hrow hx => ?_⟩
  by_cases heq : x = id
  · exact recomputeOne_none (heq ▸ hnone) hrow
  · exact h.settled x row hrow (by simp [heq, hx])

theorem Propagating.step {s₀ t' : EventStore env room} (hacyclic : s₀.Acyclic) {id : EventId} {work : List EventId}
    (h : Propagating s₀ t (id :: work)) (hsome : t.recomputeOne id = some t') :
    Propagating s₀ t' ((s₀.childrenOf id).reverse ++ work) := by
  obtain ⟨row, hrow, hget⟩ := recomputeOne_some hsome
  have hevents : ∀ x, t'.event? x = t.event? x := by
    intro x
    rw [event?, event?, hget]
    split_ifs with hx
    · rw [hx, hrow]
      rfl
    · rfl
  have hdeps : t.deps = s₀.deps := event?_congr_deps h.events
  have hcols : ∀ x rowx, t.rows.get? x = some rowx → id ∉ rowx.event.event.prevEvents →
      ∀ p ∈ rowx.event.event.prevEvents, t'.lamportOf p = t.lamportOf p ∧ t'.adminSeqOf p = t.adminSeqOf p := by
    intro x rowx hrowx hid p hp
    have hne : p ≠ id := fun heq => hid (heq ▸ hp)
    rw [lamportOf, lamportOf, adminSeqOf, adminSeqOf, hget, if_neg hne]
    exact ⟨rfl, rfl⟩
  refine ⟨fun x => (hevents x).trans (h.events x), fun x hx => ?_, fun x rowx hrowx hx => ?_⟩
  · rcases List.mem_append.mp hx with hx | hx
    · obtain ⟨rowx, hrowx, -⟩ := dep_iff.mp (mem_childrenOf.mp (List.mem_reverse.mp hx))
      rw [event?, hrowx]
      simp
    · exact h.stored x (List.mem_cons_of_mem _ hx)
  · rw [hget] at hrowx
    by_cases heq : x = id
    · rw [if_pos heq, Option.some.injEq] at hrowx
      -- the row itself: its parents do not include it, so their columns are as before
      have hself : id ∉ row.event.event.prevEvents := fun hmem =>
        hacyclic id (Staged.Below.of_dep (hdeps ▸ dep_iff.mpr ⟨row, hrow, hmem⟩))
      subst hrowx
      exact computed_congr rfl (adminOfRoom_congr hevents) (hcols id row hrow hself)
    · rw [if_neg heq] at hrowx
      have hmem : x ∉ s₀.childrenOf id ∧ x ∉ work := by simpa using hx
      have hparent : id ∉ rowx.event.event.prevEvents := fun hid =>
        hmem.1 (mem_childrenOf.mpr (hdeps ▸ dep_iff.mpr ⟨rowx, hrowx, hid⟩))
      rw [computed_congr rfl (adminOfRoom_congr hevents) (hcols x rowx hrowx hparent)]
      exact h.settled x rowx hrowx (by simp [heq, hmem.2])

/-! ### Whole runs -/

/-- Propagation settles every row when only the start may be unsettled. -/
theorem propagateFrom_consistent (start : EventId) (hacyclic : s.Acyclic) (hstart : s.event? start ≠ none)
    (hothers : ∀ id row, s.rows.get? id = some row → id ≠ start →
      s.computed row = (row.lamport, row.adminSeq)) :
    (∀ id, (s.propagateFrom start).event? id = s.event? id) ∧ (s.propagateFrom start).Consistent := by
  obtain ⟨rank, hlt, hmono⟩ := Worklist.exists_rank s.rows.keys.toFinset (Staged.Below s.deps)
    Staged.Below.trans fun a _ => hacyclic a
  have hcard : s.rows.keys.toFinset.card = s.rows.entries.length := by
    rw [List.toFinset_card_of_nodup s.rows.keys_nodup, OrdMap.keys, List.length_map]
  have hmem : ∀ {id}, s.event? id ≠ none → id ∈ s.rows.keys.toFinset := by
    intro id hid
    rw [List.mem_toFinset, OrdMap.mem_keys, Option.isSome_iff_ne_none]
    exact fun hnone => hid (by rw [event?, hnone]; rfl)
  have hinit : Propagating s s [start] := by
    refine ⟨fun _ => rfl, fun id hid => ?_, fun id row hrow hid => ?_⟩
    · rw [List.mem_singleton.mp hid]
      exact hstart
    · exact hothers id row hrow (by simpa using hid)
  let weight (id : EventId) : Nat := Worklist.weight s.rows.entries.length s.edgeCount (rank id)
  have hweight : ∀ {t x work}, Propagating s t (x :: work) → ((s.childrenOf x).map weight).sum < weight x := by
    intro t x work hP
    refine Worklist.sum_weight_children (length_childrenOf_le x) fun c hc => ?_
    have hdep := mem_childrenOf.mp hc
    have hcstored : s.event? c ≠ none := by
      obtain ⟨row, hrow, -⟩ := dep_iff.mp hdep
      rw [event?, hrow]
      simp
    exact ⟨hmono x (hmem (hP.stored x List.mem_cons_self)) c (Staged.Below.of_dep hdep),
      hcard ▸ hlt c (hmem hcstored)⟩
  have hfuel : ([start].map weight).sum < s.propagateFuel := by
    rw [List.map_singleton, List.sum_singleton, propagateFuel]
    exact Nat.lt_succ_of_le (Nat.pow_le_pow_right (Nat.succ_pos _) (Nat.sub_le _ _))
  have hfinal := Worklist.run_induction (P := Propagating s) Propagating.skip (Propagating.step hacyclic) hweight
    s.propagateFuel hinit hfuel
  exact ⟨hfinal.events, fun id row hrow => hfinal.settled id row hrow List.not_mem_nil⟩

/-! ### Inserting an event -/

theorem setRow_event? (row : Row env room) (id : EventId) :
    (s.setRow row).event? id = if id = row.event.eventId then some row.event else s.event? id := by
  rw [event?, event?, setRow_get?]
  split_ifs <;> rfl

/-- A new empty row adds nothing its children could read. -/
theorem setRow_columns {v : ValidatedEvent env room} (hnew : s.contains v.eventId = false) (p : EventId) :
    (s.setRow ⟨v, none, none⟩).lamportOf p = s.lamportOf p ∧
      (s.setRow ⟨v, none, none⟩).adminSeqOf p = s.adminSeqOf p := by
  have hnone : s.rows.get? v.eventId = none := Option.isSome_eq_false_iff.mp hnew |> Option.isNone_iff_eq_none.mp
  rw [lamportOf, lamportOf, adminSeqOf, adminSeqOf, setRow_get?]
  split_ifs with hp
  · rw [hp, hnone]
    exact ⟨rfl, rfl⟩
  · exact ⟨rfl, rfl⟩

theorem Consistent.adminSeqOf_eq (h : s.Consistent) {id : EventId} {row : Row env room}
    (hrow : s.rows.get? id = some row) : s.adminSeqOf id = computeAdmin s.adminOfRoom s.adminSeqOf
      row.event.event.senderId row.isGenesis row.event.event.prevEvents := by
  have hcols := congrArg Prod.snd (h id row hrow)
  rw [adminSeqOf, hrow, Option.bind_some]
  exact hcols.symm

/-- Without a known admin no row has an `admin_seq`. -/
theorem Consistent.adminSeqOf_eq_none (h : s.Consistent) (hadmin : s.adminOfRoom = none) (id : EventId) :
    s.adminSeqOf id = none := by
  cases hrow : s.rows.get? id with
  | none => rw [adminSeqOf, hrow, Option.bind_none]
  | some row =>
    rw [h.adminSeqOf_eq hrow, hadmin, computeAdmin, if_neg (by simp)]

theorem foldl_adminStep_none {f : EventId → Option Nat} (hf : ∀ p, f p = none) (parents : List EventId) :
    parents.foldl (adminStep f) none = none := by
  induction parents with
  | nil => rfl
  | cons p parents ih => rw [List.foldl_cons, adminStep, hf p, ih]

/-- Every row but the new one is settled once the new row is in. -/
theorem setRow_others {creator : IdentityKey} {v : ValidatedEvent env room} (h : s.Consistent)
    (hnew : s.contains v.eventId = false) (hcreator : CreatedBy creator (s.setRow ⟨v, none, none⟩))
    {id : EventId} {row : Row env room} (hrow : s.rows.get? id = some row) :
    (s.setRow ⟨v, none, none⟩).computed row = (row.lamport, row.adminSeq) := by
  have hnone : s.rows.get? v.eventId = none := Option.isSome_eq_false_iff.mp hnew |> Option.isNone_iff_eq_none.mp
  have hkeep : ∀ {id' row'}, s.rows.get? id' = some row' →
      (s.setRow ⟨v, none, none⟩).rows.get? id' = some row' := by
    intro id' row' hrow'
    have hne : id' ≠ v.eventId := fun heq => by simp [heq ▸ hrow'] at hnone
    rw [setRow_get?, if_neg hne, hrow']
  rw [← h id row hrow]
  by_cases hadmin : (s.setRow ⟨v, none, none⟩).adminOfRoom = s.adminOfRoom
  · exact computed_congr rfl hadmin fun p _ => setRow_columns hnew p
  · -- the admin changes only when the first genesis arrives, and then no other row has an `admin_seq`
    have hunknown : s.adminOfRoom = none := by
      cases ha : s.adminOfRoom with
      | none => rfl
      | some a =>
        obtain ⟨g, grow, hg, hgenesis, hsender⟩ := exists_genesis_of_admin ha
        have ht := hcreator.adminOfRoom_eq (hkeep hg) hgenesis
        have ha' : a = creator := hsender.symm.trans (hcreator g grow (hkeep hg) hgenesis)
        rw [ht, ha, ha'] at hadmin
        exact absurd rfl hadmin
    have hnotGenesis : row.isGenesis = false := by
      by_contra hg
      have hg' : row.isGenesis = true := by simpa using hg
      have hfind := Option.map_eq_none_iff.mp hunknown
      exact List.find?_eq_none.mp hfind row (OrdMap.mem_values.mpr ⟨id, hrow⟩) hg'
    refine Prod.ext (computeLamport_congr fun p _ => (setRow_columns hnew p).1) ?_
    show computeAdmin _ _ _ _ _ = computeAdmin s.adminOfRoom _ _ _ _
    have hseq : ∀ p, (s.setRow ⟨v, none, none⟩).adminSeqOf p = none := fun p =>
      (setRow_columns hnew p).2.trans (h.adminSeqOf_eq_none hunknown p)
    rw [hunknown, computeAdmin, computeAdmin, hnotGenesis, foldl_adminStep_none hseq]
    simp

/-- Inserting an event keeps the columns a fixpoint. -/
theorem insertInTx_spec {creator : IdentityKey} {v : ValidatedEvent env room} (h : s.Consistent)
    (hcreator : CreatedBy creator (s.setRow ⟨v, none, none⟩)) (hacyclic : (s.setRow ⟨v, none, none⟩).Acyclic) :
    (s.insertInTx v).1.Consistent ∧ ∀ id, (s.insertInTx v).1.event? id =
      if s.contains v.eventId = false ∧ id = v.eventId then some v else s.event? id := by
  unfold insertInTx
  by_cases hnew : s.contains v.eventId
  · rw [if_pos hnew]
    exact ⟨h, fun id => by rw [if_neg (by simp [hnew])]⟩
  · have hnew' : s.contains v.eventId = false := by simpa using hnew
    rw [if_neg hnew]
    obtain ⟨hevents, hcons⟩ := propagateFrom_consistent v.eventId hacyclic
      (by rw [setRow_event?, if_pos rfl]; simp) fun id row hrow hne => by
        rw [setRow_get?, if_neg hne] at hrow
        exact setRow_others h hnew' hcreator hrow
    refine ⟨hcons, fun id => (hevents id).trans ?_⟩
    rw [setRow_event?]
    simp [hnew']

/-! ### Admin chains -/

/-- A chain of `n` citations from a genesis up to `id`, all events by `admin`. -/
inductive AdminChain (s : EventStore env room) (admin : IdentityKey) : EventId → Nat → Prop
  | genesis {id : EventId} {row : Row env room} (hrow : s.rows.get? id = some row)
    (hsender : row.event.event.senderId = admin) (hgenesis : row.isGenesis = true) : AdminChain s admin id 0
  | step {id parent : EventId} {row : Row env room} {n : Nat} (hrow : s.rows.get? id = some row)
    (hsender : row.event.event.senderId = admin) (hgenesis : row.isGenesis = false)
    (hparent : parent ∈ row.event.event.prevEvents) (hchain : AdminChain s admin parent n) :
    AdminChain s admin id (n + 1)

theorem foldl_adminStep_attained {f : EventId → Option Nat} {parents : List EventId} {acc : Option Nat} {m : Nat}
    (h : parents.foldl (adminStep f) acc = some m) : acc = some m ∨ ∃ p ∈ parents, f p = some m := by
  induction parents generalizing acc with
  | nil => exact Or.inl h
  | cons p parents ih =>
    rw [List.foldl_cons] at h
    rcases ih h with hacc | ⟨q, hq, hfq⟩
    · unfold adminStep at hacc
      split at hacc
      · rename_i a ha
        rw [Option.some.injEq] at hacc
        cases acc with
        | none => exact Or.inr ⟨p, List.mem_cons_self, ha.trans (congrArg some hacc)⟩
        | some b =>
          rcases max_choice b a with hmax | hmax
          · exact Or.inl (congrArg some (hmax.symm.trans hacc))
          · exact Or.inr ⟨p, List.mem_cons_self, ha.trans (congrArg some (hmax.symm.trans hacc))⟩
      · exact Or.inl hacc
    · exact Or.inr ⟨q, List.mem_cons_of_mem _ hq, hfq⟩

theorem le_foldl_adminStep {f : EventId → Option Nat} {parents : List EventId} {acc : Option Nat} {a : Nat}
    (h : acc = some a ∨ ∃ p ∈ parents, f p = some a) :
    ∃ m, parents.foldl (adminStep f) acc = some m ∧ a ≤ m := by
  induction parents generalizing acc a with
  | nil =>
    rcases h with h | ⟨p, hp, -⟩
    · exact ⟨a, h, le_refl a⟩
    · exact absurd hp List.not_mem_nil
  | cons p parents ih =>
    rw [List.foldl_cons]
    have hhead : ∀ b, acc = some b ∨ f p = some b → ∃ c, adminStep f acc p = some c ∧ b ≤ c := by
      intro b hb
      unfold adminStep
      cases hfp : f p with
      | none => exact ⟨b, hb.resolve_right (by simp [hfp]), le_refl b⟩
      | some x =>
        cases acc with
        | none =>
          have hbx : b = x := by simpa [hfp, eq_comm] using hb
          exact ⟨x, rfl, hbx.le⟩
        | some y =>
          refine ⟨max y x, rfl, ?_⟩
          rcases hb with hb | hb
          · rw [Option.some.injEq] at hb
            omega
          · rw [hfp, Option.some.injEq] at hb
            omega
    have hfirst : (acc = some a ∨ f p = some a) ∨ ∃ q ∈ parents, f q = some a := by
      rcases h with h | ⟨q, hq, hfq⟩
      · exact Or.inl (Or.inl h)
      · rcases List.mem_cons.mp hq with rfl | hq
        · exact Or.inl (Or.inr hfq)
        · exact Or.inr ⟨q, hq, hfq⟩
    rcases hfirst with hfirst | hrest
    · obtain ⟨c, hc, hac⟩ := hhead a hfirst
      obtain ⟨m, hm, hcm⟩ := ih (Or.inl hc)
      exact ⟨m, hm, hac.trans hcm⟩
    · exact ih (Or.inr hrest)

/-- An `admin_seq` is the length of a chain. -/
theorem Consistent.chain_of_adminSeq {creator : IdentityKey} (h : s.Consistent) (hcreator : CreatedBy creator s)
    {id : EventId} {n : Nat} (hseq : s.adminSeqOf id = some n) : AdminChain s creator id n := by
  induction n generalizing id with
  | zero =>
    obtain ⟨row, hrow, -⟩ := Option.bind_eq_some_iff.mp hseq
    rw [h.adminSeqOf_eq hrow, computeAdmin] at hseq
    split_ifs at hseq with hadmin hgenesis
    · exact .genesis hrow (hcreator id row hrow hgenesis) hgenesis
    · simp at hseq
  | succ n ih =>
    obtain ⟨row, hrow, -⟩ := Option.bind_eq_some_iff.mp hseq
    rw [h.adminSeqOf_eq hrow, computeAdmin] at hseq
    split_ifs at hseq with hadmin hgenesis
    · simp at hseq
    · obtain ⟨m, hm, hmn⟩ := Option.map_eq_some_iff.mp hseq
      have hmn' : m = n := by omega
      obtain ⟨g, grow, hg, hgg, hsender⟩ := exists_genesis_of_admin hadmin
      have hby : row.event.event.senderId = creator := hsender.symm.trans (hcreator g grow hg hgg)
      rcases foldl_adminStep_attained hm with hacc | ⟨p, hp, hpm⟩
      · cases hacc
      · exact .step hrow hby (by simpa using hgenesis) hp (ih (hmn' ▸ hpm))

/-- Every chain is counted. -/
theorem Consistent.adminSeq_of_chain {creator : IdentityKey} (h : s.Consistent) (hcreator : CreatedBy creator s)
    {id : EventId} {n : Nat} (hchain : AdminChain s creator id n) :
    s.adminOfRoom = some creator ∧ ∃ m, s.adminSeqOf id = some m ∧ n ≤ m := by
  induction hchain with
  | genesis hrow hsender hgenesis =>
    have hadmin := hcreator.adminOfRoom_eq hrow hgenesis
    refine ⟨hadmin, 0, ?_, le_refl 0⟩
    rw [h.adminSeqOf_eq hrow, computeAdmin, if_pos (hsender ▸ hadmin), if_pos hgenesis]
  | step hrow hsender hgenesis hparent _ ih =>
    obtain ⟨hadmin, m, hm, hnm⟩ := ih
    obtain ⟨top, htop, hmtop⟩ := le_foldl_adminStep (a := m) (Or.inr ⟨_, hparent, hm⟩ : none = some m ∨ _)
    refine ⟨hadmin, top + 1, ?_, by omega⟩
    rw [h.adminSeqOf_eq hrow, computeAdmin, if_pos (hsender ▸ hadmin), if_neg (by simp [hgenesis]), htop]
    rfl

/-! ### The tip -/

/-- A tip is at least as high as every row seen, and is one of them. -/
def TipOf (entries : List (EventId × Row env room)) (tip : Option (EventId × Nat)) : Prop :=
  (∀ e ∈ entries, ∀ n, e.2.adminSeq = some n → ∃ t, tip = some t ∧ n ≤ t.2) ∧
    ∀ t, tip = some t → ∃ e ∈ entries, e.1 = t.1 ∧ e.2.adminSeq = some t.2

theorem TipOf.step {entries : List (EventId × Row env room)} {tip : Option (EventId × Nat)} (h : TipOf entries tip)
    (e : EventId × Row env room) : TipOf (entries ++ [e]) (tipStep tip e) := by
  obtain ⟨hall, hone⟩ := h
  unfold tipStep
  cases hseq : e.2.adminSeq with
  | none =>
    refine ⟨fun e' he' n hn => ?_, fun t ht => ?_⟩
    · rcases List.mem_append.mp he' with he' | he'
      · exact hall e' he' n hn
      · rw [List.mem_singleton.mp he', hseq] at hn
        cases hn
    · obtain ⟨e', he', h₁, h₂⟩ := hone t ht
      exact ⟨e', List.mem_append_left _ he', h₁, h₂⟩
  | some seq =>
    have hself : ∃ e' ∈ entries ++ [e], e'.1 = (e.1, seq).1 ∧ e'.2.adminSeq = some (e.1, seq).2 :=
      ⟨e, by simp, rfl, hseq⟩
    cases htip : tip with
    | none =>
      refine ⟨fun e' he' n hn => ⟨_, rfl, ?_⟩, fun t ht => ?_⟩
      · rcases List.mem_append.mp he' with he' | he'
        · obtain ⟨t, ht, -⟩ := hall e' he' n hn
          rw [htip] at ht
          cases ht
        · rw [List.mem_singleton.mp he', hseq, Option.some.injEq] at hn
          exact hn.ge
      · rw [← Option.some.inj ht]
        exact hself
    | some t₀ =>
      have hle : ∀ e' ∈ entries ++ [e], ∀ n, e'.2.adminSeq = some n → n ≤ t₀.2 ∨ n = seq := by
        intro e' he' n hn
        rcases List.mem_append.mp he' with he' | he'
        · obtain ⟨t, ht, hnt⟩ := hall e' he' n hn
          rw [htip, Option.some.injEq] at ht
          exact Or.inl (ht ▸ hnt)
        · rw [List.mem_singleton.mp he', hseq, Option.some.injEq] at hn
          exact Or.inr hn.symm
      show TipOf _ (if seq > t₀.2 then some (e.1, seq) else some t₀)
      split_ifs with hgt
      · refine ⟨fun e' he' n hn => ⟨_, rfl, ?_⟩, fun t ht => ?_⟩
        · have hn' := hle e' he' n hn
          show n ≤ seq
          omega
        · rw [← Option.some.inj ht]
          exact hself
      · refine ⟨fun e' he' n hn => ⟨_, rfl, ?_⟩, fun t ht => ?_⟩
        · have hn' := hle e' he' n hn
          omega
        · obtain ⟨e', he', h₁, h₂⟩ := hone t (htip.trans ht)
          exact ⟨e', List.mem_append_left _ he', h₁, h₂⟩

theorem foldl_tipStep (entries seen : List (EventId × Row env room)) {t : Option (EventId × Nat)}
    (h : TipOf seen t) : TipOf (seen ++ entries) (entries.foldl tipStep t) := by
  induction entries generalizing seen t with
  | nil => simpa using h
  | cons e entries ih =>
    have hnext := ih (seen ++ [e]) (h.step e)
    rw [List.append_assoc, List.singleton_append] at hnext
    exact hnext

theorem tipOf_adminChainTip : TipOf s.rows.entries s.adminChainTip := by
  have h := foldl_tipStep s.rows.entries [] (t := none) ⟨by simp, by simp⟩
  rwa [List.nil_append] at h

/-- No stored `admin_seq` exceeds the tip's. -/
theorem le_adminChainTip {id : EventId} {n : Nat} (h : s.adminSeqOf id = some n) :
    ∃ t, s.adminChainTip = some t ∧ n ≤ t.2 := by
  obtain ⟨row, hrow, hn⟩ := Option.bind_eq_some_iff.mp h
  exact tipOf_adminChainTip.1 (id, row) (OrdMap.mem_entries.mpr hrow) n hn

theorem adminSeqOf_adminChainTip {t : EventId × Nat} (h : s.adminChainTip = some t) :
    s.adminSeqOf t.1 = some t.2 := by
  obtain ⟨⟨id, row⟩, he, hid, hseq⟩ := tipOf_adminChainTip.2 t h
  rw [← hid, adminSeqOf, OrdMap.mem_entries.mp he]
  exact hseq

end EventStore

end IrohRooms
