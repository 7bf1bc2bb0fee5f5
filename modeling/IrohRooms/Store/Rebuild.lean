import IrohRooms.Lib.Sweep
import IrohRooms.Membership.Cap
import IrohRooms.Store.Columns
import Mathlib.Order.Bounds.Basic

/-!
# Rebuilding the derived columns

`rebuild` forgets both columns and sweeps the equations over all rows until nothing changes. Insertion instead follows
the children of what it changed. On an acyclic table the equations have one solution (`Consistent.unique`), which is
therefore what either way leaves; `lamport` in it is the length of the longest path down to a genesis, defined where
the whole ancestry is stored, so that the canonical order puts every ancestor first.
-/

namespace IrohRooms

variable {env : Env} {room : RoomId}

namespace EventStore

/-! ### The rebuild -/

/-- Both columns of a row. -/
abbrev Columns := Option Nat × Option Nat

/-- The equations of one row over values kept beside the table. -/
def equations (s : EventStore env room) (vals : EventId → Option Columns) (id : EventId) : Columns :=
  match s.rows.get? id with
  | none => (none, none)
  | some row =>
    let event := row.event.event
    (computeLamport (fun p => (vals p).bind Prod.fst) row.isGenesis event.prevEvents,
      computeAdmin s.adminOfRoom (fun p => (vals p).bind Prod.snd) event.senderId row.isGenesis event.prevEvents)

variable (s : EventStore env room)

/-- Iterate the equations from empty columns; a pass for each row and one more are enough. -/
def solveFixpoint : OrdMap EventId Columns :=
  Sweep.loop s.equations s.rows.keys (s.rows.keys.length + 1) (s.rows.mapValues fun _ => (none, none))

/-- The columns a solution has for a row. -/
def writeBack (solved : OrdMap EventId Columns) (row : Row env room) : Row env room :=
  let columns := (solved.get? row.event.eventId).getD (none, none)
  ⟨row.event, columns.1, columns.2⟩

/-- Recompute both columns of every row from the events alone, within an open transaction. -/
def rebuildInTx : EventStore env room :=
  { s with
    rows := s.rows.mapValues (writeBack s.solveFixpoint)
    keyed := by
      intro id row h
      rw [OrdMap.get?_mapValues] at h
      obtain ⟨row', hrow', rfl⟩ := Option.map_eq_some_iff.mp h
      exact s.keyed id row' hrow' }

/-- Rebuild in one transaction, and whether it was committed. -/
def rebuild : EventStore env room × Bool :=
  let tx := s.beginWrite
  if tx.2 then (tx.1.rebuildInTx, true) else (tx.1, false)

/-! ### The solution -/

/-- The columns of an id, those of a dangling one empty. -/
def columnsOf (id : EventId) : Columns := (s.lamportOf id, s.adminSeqOf id)

/-- A value for every id that satisfies the equations, with nothing known of ids that are not stored. -/
def Solves (vals : EventId → Columns) : Prop := ∀ id, vals id = s.equations (fun p => some (vals p)) id

variable {s}

theorem equations_congr {f g : EventId → Option Columns} {id : EventId}
    (h : ∀ p, Staged.Dep s.deps p id → (f p).getD (none, none) = (g p).getD (none, none)) :
    s.equations f id = s.equations g id := by
  unfold equations
  cases hrow : s.rows.get? id with
  | none => rfl
  | some row =>
    have hparents : ∀ p ∈ row.event.event.prevEvents, (f p).bind Prod.fst = (g p).bind Prod.fst ∧
        (f p).bind Prod.snd = (g p).bind Prod.snd := by
      intro p hp
      have hsame := h p (dep_iff.mpr ⟨row, hrow, hp⟩)
      have hfst : ∀ c : Option Columns, c.bind Prod.fst = (c.getD (none, none)).1 := by rintro (_ | c) <;> rfl
      have hsnd : ∀ c : Option Columns, c.bind Prod.snd = (c.getD (none, none)).2 := by rintro (_ | c) <;> rfl
      rw [hfst, hfst, hsnd, hsnd, hsame]
      exact ⟨rfl, rfl⟩
    refine Prod.ext ?_ ?_
    · exact computeLamport_congr fun p hp => (hparents p hp).1
    · exact computeAdmin_congr fun p hp => (hparents p hp).2

/-- A consistent table solves its own equations. -/
theorem Consistent.solves (h : s.Consistent) : s.Solves s.columnsOf := by
  intro id
  unfold equations columnsOf
  cases hrow : s.rows.get? id with
  | none => rw [lamportOf, adminSeqOf, hrow, Option.bind_none, Option.bind_none]
  | some row =>
    rw [lamportOf, adminSeqOf, hrow, Option.bind_some, Option.bind_some, ← h id row hrow]
    rfl

/-- Stored ids have a rank above that of their stored parents. -/
theorem Acyclic.exists_rank (h : s.Acyclic) : ∃ rank : EventId → Nat,
    (∀ id ∈ s.rows.keys, rank id < s.rows.keys.length) ∧
      ∀ id ∈ s.rows.keys, ∀ p ∈ s.rows.keys, Staged.Below s.deps p id → rank p < rank id := by
  obtain ⟨rank, hlt, hmono⟩ := Worklist.exists_rank s.rows.keys.toFinset (Staged.Below s.deps)
    Staged.Below.trans fun a _ => h a
  refine ⟨rank, fun id hid => ?_, fun id hid p hp hbelow => ?_⟩
  · have hcard := hlt id (List.mem_toFinset.mpr hid)
    rwa [List.toFinset_card_of_nodup s.rows.keys_nodup] at hcard
  · exact hmono p (List.mem_toFinset.mpr hp) id hbelow

theorem equations_of_not_stored {vals : EventId → Option Columns} {id : EventId} (h : id ∉ s.rows.keys) :
    s.equations vals id = (none, none) := by
  rw [OrdMap.mem_keys, Option.not_isSome_iff_eq_none] at h
  unfold equations
  rw [h]

/-- The equations of an acyclic table have at most one solution. -/
theorem Acyclic.solves_unique (h : s.Acyclic) {f g : EventId → Columns} (hf : s.Solves f) (hg : s.Solves g) : f = g := by
  obtain ⟨rank, -, hrank⟩ := h.exists_rank
  have hall : ∀ n id, id ∈ s.rows.keys → rank id < n → f id = g id := by
    intro n
    induction n with
    | zero => exact fun id _ hlt => absurd hlt (Nat.not_lt_zero _)
    | succ n ih =>
      intro id hid hlt
      rw [hf id, hg id]
      refine equations_congr fun p hp => ?_
      show f p = g p
      by_cases hmem : p ∈ s.rows.keys
      · have hp' := hrank id hid p hmem (Staged.Below.of_dep hp)
        exact ih p hmem (by omega)
      · rw [hf p, hg p, equations_of_not_stored hmem, equations_of_not_stored hmem]
  funext id
  by_cases hid : id ∈ s.rows.keys
  · exact hall (rank id + 1) id hid (Nat.lt_succ_self _)
  · rw [hf id, hg id, equations_of_not_stored hid, equations_of_not_stored hid]

/-- The sweep finds the columns of a consistent table again. -/
theorem Consistent.solveFixpoint_get? (h : s.Consistent) (hacyclic : s.Acyclic) (id : EventId) :
    s.solveFixpoint.get? id = if id ∈ s.rows.keys then some (s.columnsOf id) else none := by
  obtain ⟨rank, hbound, hrank⟩ := hacyclic.exists_rank
  have hsol : ∀ k ∈ s.rows.keys, (if k ∈ s.rows.keys then some (s.columnsOf k) else none) =
      some (s.equations (fun p => if p ∈ s.rows.keys then some (s.columnsOf p) else none) k) := by
    intro k hk
    rw [if_pos hk, h.solves k]
    refine congrArg some (equations_congr fun p _ => ?_)
    split_ifs with hp
    · rfl
    · -- a dangling parent reads as empty either way
      show s.columnsOf p = (none, none)
      rw [h.solves p, equations_of_not_stored hp]
  have hreads : ∀ k ∈ s.rows.keys, ∀ f g : EventId → Option Columns, (∀ p, Staged.Dep s.deps p k → f p = g p) →
      s.equations f k = s.equations g k := by
    intro k _ f g hfg
    exact equations_congr fun p hp => by rw [hfg p hp]
  have hinit : Sweep.Solved s.rows.keys rank (fun k => if k ∈ s.rows.keys then some (s.columnsOf k) else none) 0
      (s.rows.mapValues fun _ => (none, none)) := by
    refine ⟨fun k _ hlt => absurd hlt (Nat.not_lt_zero _), fun k hk => ?_⟩
    rw [OrdMap.mem_keys, Option.not_isSome_iff_eq_none] at hk
    rw [OrdMap.get?_mapValues, hk]
    rfl
  exact Sweep.loop_get? hreads (fun k hk p hp hread => hrank k hk p hp (Staged.Below.of_dep hread)) hsol
    (fun k hk => if_neg hk) hbound _ 0 (by omega) hinit id

/-- Rebuilding a consistent table changes no row. -/
theorem Consistent.rebuildInTx_rows (h : s.Consistent) (hacyclic : s.Acyclic) : s.rebuildInTx.rows = s.rows := by
  refine OrdMap.ext_get? fun id => ?_
  show (s.rows.mapValues (writeBack s.solveFixpoint)).get? id = _
  rw [OrdMap.get?_mapValues]
  cases hrow : s.rows.get? id with
  | none => rfl
  | some row =>
    have hmem : id ∈ s.rows.keys := by rw [OrdMap.mem_keys, hrow]; rfl
    have hcols : s.columnsOf id = (row.lamport, row.adminSeq) := by
      rw [columnsOf, lamportOf, adminSeqOf, hrow]
      rfl
    rw [Option.map_some, writeBack, s.keyed id row hrow, h.solveFixpoint_get? hacyclic, if_pos hmem, hcols]
    rfl

/-! ### What `lamport` counts -/

/-- A path of `n` citations of stored events from a genesis up to `id`. -/
inductive ParentPath (s : EventStore env room) : EventId → Nat → Prop
  | genesis {id : EventId} {row : Row env room} (hrow : s.rows.get? id = some row) (hgenesis : row.isGenesis = true) :
    ParentPath s id 0
  | step {id parent : EventId} {row : Row env room} {n : Nat} (hrow : s.rows.get? id = some row)
    (hparent : parent ∈ row.event.event.prevEvents) (hpath : ParentPath s parent n) : ParentPath s id (n + 1)

/-- The event and all its ancestors are stored. -/
def AncestryStored (s : EventStore env room) (id : EventId) : Prop :=
  s.contains id = true ∧ ∀ a, Staged.Below s.deps a id → s.contains a = true

theorem foldl_lamportStep_none (f : EventId → Option Nat) (parents : List EventId) :
    parents.foldl (lamportStep f) none = none := by
  induction parents with
  | nil => rfl
  | cons p parents ih => rw [List.foldl_cons, lamportStep, Option.bind_none, ih]

/-- The running value: above every parent's, and one of them or where it started. -/
theorem foldl_lamportStep {f : EventId → Option Nat} {parents : List EventId} {a m : Nat} :
    parents.foldl (lamportStep f) (some a) = some m ↔ a ≤ m ∧ (∀ p ∈ parents, ∃ l, f p = some l ∧ l + 1 ≤ m) ∧
      (m = a ∨ ∃ p ∈ parents, ∃ l, f p = some l ∧ m = l + 1) := by
  induction parents generalizing a with
  | nil =>
    rw [List.foldl_nil, Option.some.injEq]
    constructor
    · rintro rfl
      exact ⟨le_refl a, by simp, Or.inl rfl⟩
    · rintro ⟨-, -, rfl | ⟨p, hp, -⟩⟩
      · rfl
      · exact absurd hp List.not_mem_nil
  | cons p parents ih =>
    rw [List.foldl_cons, lamportStep, Option.bind_some]
    cases hp : f p with
    | none =>
      rw [Option.map_none, foldl_lamportStep_none]
      simp [hp]
    | some l =>
      rw [Option.map_some, ih]
      simp only [List.forall_mem_cons, List.exists_mem_cons_iff, hp, Option.some.injEq, exists_eq_left']
      constructor
      · rintro ⟨hle, hall, hm⟩
        refine ⟨by omega, ⟨by omega, hall⟩, ?_⟩
        rcases hm with hm | hm
        · rcases le_total a (l + 1) with hal | hal
          · exact Or.inr (Or.inl (by omega))
          · exact Or.inl (by omega)
        · exact Or.inr (Or.inr hm)
      · rintro ⟨hle, ⟨hl, hall⟩, hm⟩
        refine ⟨by omega, hall, ?_⟩
        rcases hm with hm | hm | hm
        · exact Or.inl (by omega)
        · exact Or.inl (by omega)
        · exact Or.inr hm

/-- A validated event is a genesis exactly when it cites nothing. -/
theorem isGenesis_iff (row : Row env room) : row.isGenesis = true ↔ row.event.event.prevEvents = [] := by
  have hcausal := (checkDecoded_ok row.event.checked).2.2.2
  unfold checkCausal at hcausal
  rw [Row.isGenesis, beq_iff_eq, ← row.event.typed]
  have hlen : ¬ row.event.event.prevEvents.length > maxPrevEvents := by
    intro hmany
    rw [if_pos hmany] at hcausal
    cases hcausal
  rw [if_neg hlen] at hcausal
  cases hc : row.event.event.content <;> rw [hc] at hcausal <;> simp_all [Content.eventType]

/-- The equation of `lamport` at a stored row. -/
theorem Consistent.lamportOf_eq (h : s.Consistent) {id : EventId} {row : Row env room}
    (hrow : s.rows.get? id = some row) :
    s.lamportOf id = computeLamport s.lamportOf row.isGenesis row.event.event.prevEvents := by
  have hcols := congrArg Prod.fst (h id row hrow)
  rw [lamportOf, hrow, Option.bind_some]
  exact hcols.symm

theorem Consistent.lamportOf_genesis (h : s.Consistent) {id : EventId} {row : Row env room}
    (hrow : s.rows.get? id = some row) (hgenesis : row.isGenesis = true) : s.lamportOf id = some 0 := by
  rw [h.lamportOf_eq hrow, computeLamport, if_pos ((isGenesis_iff row).mp hgenesis), if_pos hgenesis]

/-- Above the genesis: one more than the highest parent, once all are placed. -/
theorem Consistent.lamportOf_iff (h : s.Consistent) {id : EventId} {row : Row env room}
    (hrow : s.rows.get? id = some row) (hgenesis : row.isGenesis = false) {n : Nat} : s.lamportOf id = some n ↔
      (∀ p ∈ row.event.event.prevEvents, ∃ l, s.lamportOf p = some l ∧ l + 1 ≤ n) ∧
        ∃ p ∈ row.event.event.prevEvents, ∃ l, s.lamportOf p = some l ∧ n = l + 1 := by
  have hne : row.event.event.prevEvents ≠ [] := by
    intro hnil
    rw [(isGenesis_iff row).mpr hnil] at hgenesis
    cases hgenesis
  rw [h.lamportOf_eq hrow, computeLamport, if_neg hne, foldl_lamportStep]
  constructor
  · rintro ⟨-, hall, hm⟩
    refine ⟨hall, hm.resolve_left ?_⟩
    rintro rfl
    obtain ⟨p, hp⟩ := List.exists_mem_of_ne_nil _ hne
    obtain ⟨l, -, hl⟩ := hall p hp
    omega
  · rintro ⟨hall, hm⟩
    exact ⟨Nat.zero_le n, hall, Or.inr hm⟩

theorem Consistent.path_of_lamport (h : s.Consistent) {n : Nat} : ∀ {id : EventId}, s.lamportOf id = some n →
    ParentPath s id n := by
  induction n with
  | zero =>
    intro id hid
    obtain ⟨row, hrow, -⟩ := Option.bind_eq_some_iff.mp hid
    cases hgenesis : row.isGenesis with
    | true => exact .genesis hrow hgenesis
    | false =>
      obtain ⟨-, p, -, l, -, hl⟩ := (h.lamportOf_iff hrow hgenesis).mp hid
      omega
  | succ n ih =>
    intro id hid
    obtain ⟨row, hrow, -⟩ := Option.bind_eq_some_iff.mp hid
    cases hgenesis : row.isGenesis with
    | true =>
      rw [h.lamportOf_genesis hrow hgenesis] at hid
      cases hid
    | false =>
      obtain ⟨-, p, hp, l, hpl, hl⟩ := (h.lamportOf_iff hrow hgenesis).mp hid
      have hln : l = n := by omega
      exact .step hrow hp (ih (hln ▸ hpl))

/-- No path is longer than `lamport`. -/
theorem Consistent.path_le (h : s.Consistent) {id : EventId} {k : Nat} (hpath : ParentPath s id k) :
    ∀ {n : Nat}, s.lamportOf id = some n → k ≤ n := by
  induction hpath with
  | genesis _ _ => exact fun _ => Nat.zero_le _
  | step hrow hparent _ ih =>
    intro n hn
    rename_i row _ _
    cases hgenesis : row.isGenesis with
    | true =>
      rw [(isGenesis_iff row).mp hgenesis] at hparent
      exact absurd hparent List.not_mem_nil
    | false =>
      obtain ⟨l, hl, hle⟩ := ((h.lamportOf_iff hrow hgenesis).mp hn).1 _ hparent
      have hk := ih hl
      omega

/-- A placed event has its whole ancestry stored. -/
theorem Consistent.ancestry_of_lamport (h : s.Consistent) {n : Nat} : ∀ {id : EventId}, s.lamportOf id = some n →
    s.AncestryStored id := by
  induction n using Nat.strong_induction_on with
  | _ n ih =>
    intro id hid
    obtain ⟨row, hrow, -⟩ := Option.bind_eq_some_iff.mp hid
    refine ⟨contains_iff.mpr ⟨row, hrow⟩, fun a ha => ?_⟩
    obtain ⟨p, hdep, hap⟩ := ha.cases
    obtain ⟨row', hrow', hp⟩ := dep_iff.mp hdep
    rw [hrow, Option.some.injEq] at hrow'
    subst hrow'
    cases hgenesis : row.isGenesis with
    | true =>
      rw [(isGenesis_iff row).mp hgenesis] at hp
      exact absurd hp List.not_mem_nil
    | false =>
      obtain ⟨l, hl, hle⟩ := ((h.lamportOf_iff hrow hgenesis).mp hid).1 p hp
      obtain ⟨hstored, habove⟩ := ih l (by omega) hl
      rcases hap with rfl | hbelow
      · exact hstored
      · exact habove a hbelow

/-- An event with its whole ancestry stored is placed. -/
theorem Consistent.lamport_of_ancestry (h : s.Consistent) (hacyclic : s.Acyclic) {id : EventId}
    (hid : s.AncestryStored id) : ∃ n, s.lamportOf id = some n := by
  obtain ⟨rank, -, hrank⟩ := hacyclic.exists_rank
  have hkeys : ∀ {a}, s.contains a = true → a ∈ s.rows.keys := fun ha => OrdMap.mem_keys.mpr ha
  have hall : ∀ m id, rank id < m → s.AncestryStored id → ∃ n, s.lamportOf id = some n := by
    intro m
    induction m with
    | zero => exact fun id hlt => absurd hlt (Nat.not_lt_zero _)
    | succ m ih =>
      intro id hlt ⟨hstored, habove⟩
      obtain ⟨row, hrow⟩ := contains_iff.mp hstored
      cases hgenesis : row.isGenesis with
      | true => exact ⟨0, h.lamportOf_genesis hrow hgenesis⟩
      | false =>
        have hparents : ∀ p ∈ row.event.event.prevEvents, ∃ l, s.lamportOf p = some l := by
          intro p hp
          have hbelow : Staged.Below s.deps p id := Staged.Below.of_dep (dep_iff.mpr ⟨row, hrow, hp⟩)
          have hlow := hrank id (hkeys hstored) p (hkeys (habove p hbelow)) hbelow
          exact ih p (by omega) ⟨habove p hbelow, fun a ha => habove a (ha.trans hbelow)⟩
        -- the fold over placed parents ends in a value
        have hfold : ∀ (l : List EventId) (a : Nat), (∀ p ∈ l, p ∈ row.event.event.prevEvents) →
            ∃ n, l.foldl (lamportStep s.lamportOf) (some a) = some n := by
          intro l
          induction l with
          | nil => exact fun a _ => ⟨a, rfl⟩
          | cons p l ihl =>
            intro a hl
            obtain ⟨lp, hlp⟩ := hparents p (hl p List.mem_cons_self)
            rw [List.foldl_cons, lamportStep, Option.bind_some, hlp, Option.map_some]
            exact ihl _ fun q hq => hl q (List.mem_cons_of_mem _ hq)
        have hne : row.event.event.prevEvents ≠ [] := by
          intro hnil
          rw [(isGenesis_iff row).mpr hnil] at hgenesis
          cases hgenesis
        rw [h.lamportOf_eq hrow, computeLamport, if_neg hne]
        exact hfold _ 0 fun p hp => hp
  exact hall (rank id + 1) id (Nat.lt_succ_self _) hid

/-- `lamport` is known where the ancestry is stored, and is the length of the longest path to a genesis. -/
theorem Consistent.lamport_eq_longest (h : s.Consistent) (hacyclic : s.Acyclic) {id : EventId} {n : Nat} :
    s.lamportOf id = some n ↔ s.AncestryStored id ∧ IsGreatest {k | ParentPath s id k} n := by
  constructor
  · intro hn
    exact ⟨h.ancestry_of_lamport hn, h.path_of_lamport hn, fun k hk => h.path_le hk hn⟩
  · rintro ⟨hstored, hgreatest⟩
    obtain ⟨m, hm⟩ := h.lamport_of_ancestry hacyclic hstored
    have hmn : n = m := IsGreatest.unique hgreatest ⟨h.path_of_lamport hm, fun k hk => h.path_le hk hm⟩
    rw [hm, hmn]

/-! ### The canonical order -/

/-- Citations raise `lamport`. -/
theorem Consistent.lamport_lt (h : s.Consistent) {a b : EventId} (hbelow : Staged.Below s.deps a b) :
    ∀ {m n : Nat}, s.lamportOf a = some m → s.lamportOf b = some n → m < n := by
  have hdep : ∀ {p c n}, Staged.Dep s.deps p c → s.lamportOf c = some n → ∃ l, s.lamportOf p = some l ∧ l < n := by
    intro p c n hd hn
    obtain ⟨row, hrow, hp⟩ := dep_iff.mp hd
    cases hgenesis : row.isGenesis with
    | true =>
      rw [(isGenesis_iff row).mp hgenesis] at hp
      exact absurd hp List.not_mem_nil
    | false =>
      obtain ⟨l, hl, hle⟩ := ((h.lamportOf_iff hrow hgenesis).mp hn).1 p hp
      exact ⟨l, hl, hle⟩
  induction hbelow with
  | single hd =>
    intro m n hm hn
    obtain ⟨l, hl, hlt⟩ := hdep hd hn
    rw [hm, Option.some.injEq] at hl
    omega
  | tail _ hd ih =>
    intro m n hm hn
    obtain ⟨l, hl, hlt⟩ := hdep hd hn
    have hml := ih hm hl
    omega

theorem key_of_lamport {id : EventId} {row : Row env room} (hrow : s.rows.get? id = some row) {n : Nat}
    (hn : s.lamportOf id = some n) : row.key = toLex (false, toLex (n, id)) := by
  rw [lamportOf, hrow, Option.bind_some] at hn
  rw [Row.key, hn, s.keyed id row hrow]
  rfl

/-- Among placed events the canonical order extends the causal one, and tells distinct events apart. -/
theorem Consistent.key_extends (h : s.Consistent) {a b : EventId} {ra rb : Row env room} {m n : Nat}
    (ha : s.rows.get? a = some ra) (hb : s.rows.get? b = some rb) (hm : s.lamportOf a = some m)
    (hn : s.lamportOf b = some n) : (Staged.Below s.deps a b → ra.key < rb.key) ∧ (ra.key = rb.key → a = b) := by
  rw [key_of_lamport ha hm, key_of_lamport hb hn]
  constructor
  · intro hbelow
    have hlt := h.lamport_lt hbelow hm hn
    refine Prod.Lex.toLex_lt_toLex.mpr (Or.inr ⟨rfl, ?_⟩)
    exact Prod.Lex.toLex_lt_toLex.mpr (Or.inl hlt)
  · intro heq
    have hpair := congrArg (fun k => (ofLex (ofLex k).2).2) heq
    exact hpair

/-! ### Runs of insertions -/

/-- A recomputation touches columns only. -/
theorem recomputeOne_frame {t : EventStore env room} {id : EventId} (h : s.recomputeOne id = some t) :
    t.writes = s.writes ∧ ∀ id', t.event? id' = s.event? id' := by
  obtain ⟨row, hrow, hget⟩ := recomputeOne_some h
  refine ⟨?_, fun id' => ?_⟩
  · unfold recomputeOne at h
    rw [hrow] at h
    dsimp only at h
    split_ifs at h
    rw [← Option.some.inj h]
    rfl
  · rw [event?, event?, hget]
    split_ifs with hid
    · rw [hid, hrow]
      rfl
    · rfl

theorem run_frame (children : EventId → List EventId) (fuel : Nat) : ∀ (s : EventStore env room) (work : List EventId),
    (Worklist.run recomputeOne children fuel s work).writes = s.writes ∧
      ∀ id, (Worklist.run recomputeOne children fuel s work).event? id = s.event? id := by
  induction fuel with
  | zero => exact fun s work => ⟨rfl, fun _ => rfl⟩
  | succ fuel ih =>
    intro s work
    cases work with
    | nil => exact ⟨rfl, fun _ => rfl⟩
    | cons x work =>
      cases hx : s.recomputeOne x with
      | none =>
        simp only [Worklist.run, hx]
        exact ih s work
      | some t =>
        simp only [Worklist.run, hx]
        obtain ⟨hwrites, hevents⟩ := recomputeOne_frame hx
        obtain ⟨hwrites', hevents'⟩ := ih t ((children x).reverse ++ work)
        exact ⟨hwrites'.trans hwrites, fun id => (hevents' id).trans (hevents id)⟩

theorem insertInTx_duplicate {s : EventStore env room} {v : ValidatedEvent env room}
    (h : s.contains v.eventId = true) : s.insertInTx v = (s, .duplicate) := if_pos h

theorem insertInTx_inserted {s : EventStore env room} {v : ValidatedEvent env room}
    (h : ¬ s.contains v.eventId = true) : (s.insertInTx v).2 = .inserted := by rw [insertInTx, if_neg h]

/-- Whatever becomes of the columns, insertion adds the event if its id is new, and nothing else. -/
theorem insertInTx_frame (s : EventStore env room) (v : ValidatedEvent env room) :
    (s.insertInTx v).1.writes = s.writes ∧ ∀ id, (s.insertInTx v).1.event? id =
      if s.contains v.eventId = false ∧ id = v.eventId then some v else s.event? id := by
  unfold insertInTx
  by_cases hnew : s.contains v.eventId = true
  · rw [if_pos hnew]
    exact ⟨rfl, fun id => by rw [if_neg (by simp [hnew])]⟩
  · rw [if_neg hnew]
    obtain ⟨hwrites, hevents⟩ := run_frame (s.setRow ⟨v, none, none⟩).childrenOf (s.setRow ⟨v, none, none⟩).propagateFuel
      (s.setRow ⟨v, none, none⟩) [v.eventId]
    refine ⟨hwrites, fun id => (hevents id).trans ?_⟩
    rw [setRow_event?]
    simp [hnew]

/-- Insert one event after the other into an empty table. -/
def insertAll (events : List (ValidatedEvent env room)) : EventStore env room :=
  events.foldl (fun s v => (s.insert v).1) (openEmpty [])

/-- The parents of each given event, read off the first of its id. -/
def citedBy (events : List (ValidatedEvent env room)) (id : EventId) : Option (List EventId) :=
  (events.find? fun v => v.eventId == id).map fun v => v.event.prevEvents

theorem insertAll_append (events : List (ValidatedEvent env room)) (v : ValidatedEvent env room) :
    insertAll (events ++ [v]) = ((insertAll events).insert v).1 := by
  rw [insertAll, List.foldl_append]
  rfl

/-- A run stores the first event of each id. -/
theorem insertAll_frame (events : List (ValidatedEvent env room)) : (insertAll events).writes = [] ∧
    ∀ id, (insertAll events).event? id = events.find? fun v => v.eventId == id := by
  induction events using List.reverseRecOn with
  | nil => exact ⟨rfl, fun id => rfl⟩
  | append_singleton events v ih =>
    obtain ⟨hwrites, hevents⟩ := ih
    obtain ⟨hwrites', hevents'⟩ := insertInTx_frame (insertAll events) v
    have hinsert : ((insertAll events).insert v).1 = ((insertAll events).insertInTx v).1 := by
      unfold insert beginWrite
      rw [hwrites]
      rfl
    rw [insertAll_append, hinsert]
    refine ⟨hwrites'.trans hwrites, fun id => ?_⟩
    rw [hevents', List.find?_append, ← hevents]
    by_cases hid : id = v.eventId
    · subst hid
      have hlook : (insertAll events).contains v.eventId = ((insertAll events).event? v.eventId).isSome := by
        rw [contains, OrdMap.contains, event?, Option.isSome_map]
      cases hold : (insertAll events).event? v.eventId with
      | none => simp [hlook, hold]
      | some w => simp [hlook, hold]
    · have hne : (v.eventId == id) = false := beq_eq_false_iff_ne.mpr fun heq => hid heq.symm
      rw [if_neg fun hboth => hid hboth.2]
      simp [hne]

theorem deps_insertAll (events : List (ValidatedEvent env room)) : (insertAll events).deps = citedBy events := by
  funext id
  rw [deps, (insertAll_frame events).2, citedBy]

theorem mem_of_insertAll {events : List (ValidatedEvent env room)} {id : EventId} {row : Row env room}
    (h : (insertAll events).rows.get? id = some row) : row.event ∈ events := by
  have hevent := event?_eq_some.mpr ⟨row, h, rfl⟩
  rw [(insertAll_frame events).2] at hevent
  exact List.mem_of_find?_eq_some hevent

/-- The stored geneses of a run have one creator. -/
theorem createdBy_insertAll {events : List (ValidatedEvent env room)} (hfree : GenesisCollisionFree events) :
    ∃ creator, CreatedBy creator (insertAll events) := by
  have hcontent : ∀ {row : Row env room}, row.isGenesis = true → ∃ c, row.event.event.content = .roomCreated c := by
    intro row hgenesis
    rw [Row.isGenesis, beq_iff_eq, ← row.event.typed] at hgenesis
    cases hc : row.event.event.content <;> simp [hc, Content.eventType] at hgenesis ⊢
  by_cases hany : ∃ id row, (insertAll events).rows.get? id = some row ∧ row.isGenesis = true
  · obtain ⟨id, row, hrow, hgenesis⟩ := hany
    refine ⟨row.event.event.senderId, fun id' row' hrow' hgenesis' => ?_⟩
    obtain ⟨c, hc⟩ := hcontent hgenesis
    obtain ⟨c', hc'⟩ := hcontent hgenesis'
    exact hfree.creator (mem_of_insertAll hrow') (mem_of_insertAll hrow) hc' hc
  · exact ⟨Bytes32.ofNat 0, fun id row hrow hgenesis => absurd ⟨id, row, hrow, hgenesis⟩ hany⟩

/-- In every run of insertions the columns satisfy their equations. -/
theorem insertAll_consistent (events : List (ValidatedEvent env room)) (hfree : GenesisCollisionFree events)
    (hacyclic : ∀ id, ¬ Staged.Below (citedBy events) id id) : (insertAll events).Consistent := by
  induction events using List.reverseRecOn with
  | nil => exact fun id row hrow => by cases hrow
  | append_singleton events v ih =>
    have hcons := ih (fun a ha b hb => hfree a (List.mem_append_left _ ha) b (List.mem_append_left _ hb)) fun id hb =>
      hacyclic id (hb.mono fun {i ds} hds => by
        obtain ⟨w, hw, rfl⟩ := Option.map_eq_some_iff.mp hds
        rw [citedBy, List.find?_append, hw]
        rfl)
    have hinsert : insertAll (events ++ [v]) = ((insertAll events).insertInTx v).1 := by
      rw [insertAll_append]
      unfold insert beginWrite
      rw [(insertAll_frame events).1]
      rfl
    by_cases hnew : (insertAll events).contains v.eventId = true
    · rw [hinsert, insertInTx, if_pos hnew]
      exact hcons
    · -- the table with the bare new row has the events of the final one
      have hbare : ∀ id, ((insertAll events).setRow ⟨v, none, none⟩).event? id = (insertAll (events ++ [v])).event? id := by
        intro id
        rw [setRow_event?, hinsert, (insertInTx_frame _ _).2]
        simp [hnew]
      obtain ⟨creator, hcreator⟩ := createdBy_insertAll hfree
      have hcreated : CreatedBy creator ((insertAll events).setRow ⟨v, none, none⟩) := by
        intro id row hrow hgenesis
        have hevent := event?_eq_some.mpr ⟨row, hrow, rfl⟩
        rw [hbare] at hevent
        obtain ⟨row', hrow', heq⟩ := event?_eq_some.mp hevent
        have hgenesis' : row'.isGenesis = true := by rwa [Row.isGenesis, heq, ← Row.isGenesis]
        have hsender := hcreator id row' hrow' hgenesis'
        rwa [heq] at hsender
      rw [hinsert]
      refine (insertInTx_spec hcons hcreated fun id hbelow => ?_).1
      rw [event?_congr_deps hbare, deps_insertAll] at hbelow
      exact hacyclic id hbelow

/-- Inserting in any order leaves the columns a rebuild computes: the solution of the equations, in which `lamport`
is the length of the longest path to a genesis and the canonical order extends the causal one. -/
theorem insertAll_eq_rebuild (events : List (ValidatedEvent env room)) (hfree : GenesisCollisionFree events)
    (hacyclic : ∀ id, ¬ Staged.Below (citedBy events) id id) :
    (∀ id, (insertAll events).contains id = true ↔ ∃ v ∈ events, v.eventId = id) ∧
      (insertAll events).rebuild.2 = true ∧ (insertAll events).rebuild.1.rows = (insertAll events).rows ∧
      (∀ vals, (insertAll events).Solves vals ↔ vals = (insertAll events).columnsOf) ∧
      (∀ id n, (insertAll events).lamportOf id = some n ↔
        (insertAll events).AncestryStored id ∧ IsGreatest {k | ParentPath (insertAll events) id k} n) ∧
      ∀ a b ra rb, (insertAll events).rows.get? a = some ra → (insertAll events).rows.get? b = some rb →
        ra.lamport ≠ none → rb.lamport ≠ none →
          (Staged.Below (insertAll events).deps a b → ra.key < rb.key) ∧ (ra.key = rb.key → a = b) := by
  have hcons := insertAll_consistent events hfree hacyclic
  have hacyclic' : (insertAll events).Acyclic := by
    intro id
    rw [deps_insertAll]
    exact hacyclic id
  have hrebuild : (insertAll events).rebuild = ((insertAll events).rebuildInTx, true) := by
    unfold rebuild beginWrite
    rw [(insertAll_frame events).1]
    rfl
  refine ⟨fun id => ?_, ?_, ?_, fun vals => ?_, fun id n => hcons.lamport_eq_longest hacyclic', ?_⟩
  · rw [contains, OrdMap.contains, ← Option.isSome_map (f := Row.event), ← event?, (insertAll_frame events).2,
      List.find?_isSome]
    simp
  · rw [hrebuild]
  · rw [hrebuild]
    exact hcons.rebuildInTx_rows hacyclic'
  · constructor
    · exact fun hvals => hacyclic'.solves_unique hvals hcons.solves
    · rintro rfl
      exact hcons.solves
  · intro a b ra rb ha hb hma hnb
    obtain ⟨m, hm⟩ := Option.ne_none_iff_exists'.mp hma
    obtain ⟨n, hn⟩ := Option.ne_none_iff_exists'.mp hnb
    refine hcons.key_extends ha hb (m := m) (n := n) ?_ ?_
    · rw [lamportOf, ha, Option.bind_some, hm]
    · rw [lamportOf, hb, Option.bind_some, hn]

theorem acyclic_of_lt {events : List (ValidatedEvent env room)} (h : ∀ v ∈ events, ∀ p ∈ v.event.prevEvents, p < v.eventId)
    (id : EventId) : ¬ Staged.Below (citedBy events) id id := by
  have hdep : ∀ {a i}, Staged.Dep (citedBy events) a i → a < i := by
    rintro a i ⟨ds, hds, ha⟩
    obtain ⟨v, hv, rfl⟩ := Option.map_eq_some_iff.mp hds
    have hid : v.eventId = i := by simpa using List.find?_some hv
    exact hid ▸ h v (List.mem_of_find?_eq_some hv) a ha
  have hlt : ∀ {a i}, Staged.Below (citedBy events) a i → a < i := by
    intro a i hb
    induction hb with
    | single hd => exact hdep hd
    | tail _ hd ih => exact ih.trans (hdep hd)
  exact fun hb => lt_irrefl id (hlt hb)

end EventStore

/-- A join, its invite and the genesis, youngest first, and the invite once more. -/
def Toy.late : List (Nat × SignedEvent) :=
  [(12, Toy.join 2 7 .member [11]), (11, Toy.invite 2 7 .member none [10]), (10, Toy.genesis),
    (11, Toy.invite 2 7 .member none [10])]

/-- Inserted youngest first, the join ends up two steps above the genesis, as in a rebuild. -/
theorem EventStore.insertAll_eq_rebuild_late :
    (insertAll (Toy.log Toy.late)).rebuild.1.rows = (insertAll (Toy.log Toy.late)).rows ∧
      (insertAll (Toy.log Toy.late)).lamportOf (Bytes32.ofNat 12) = some 2 ∧
      IsGreatest {k | ParentPath (insertAll (Toy.log Toy.late)) (Bytes32.ofNat 12) k} 2 := by
  have hfree : GenesisCollisionFree (Toy.log Toy.late) := by
    refine Toy.log_collisionFree fun p hp c hc => ?_
    simp only [Toy.late, List.mem_cons, List.not_mem_nil, or_false] at hp
    rcases hp with rfl | rfl | rfl | rfl
    · cases hc
    · cases hc
    · cases hc
      rfl
    · cases hc
  obtain ⟨-, -, hrows, -, hlamport, -⟩ := insertAll_eq_rebuild (Toy.log Toy.late) hfree (acyclic_of_lt (by decide +kernel))
  have htwo : (insertAll (Toy.log Toy.late)).lamportOf (Bytes32.ofNat 12) = some 2 := by decide +kernel
  exact ⟨hrows, htwo, ((hlamport _ 2).mp htwo).2⟩

end IrohRooms
