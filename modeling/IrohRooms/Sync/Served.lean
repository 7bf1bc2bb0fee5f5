import Mathlib.Data.List.Lex
import IrohRooms.Lib.Closure
import IrohRooms.Store.Rebuild
import IrohRooms.Sync.Completeness
import IrohRooms.Sync.Pulls

/-!
# Serving the membership history

A pull for membership is answered with what the authorization closure holds beyond the ancestry of the claim, oldest
first and cut off at `response_max_frames`. A claim of ids the requester holds with their ancestry covers nothing it
lacks, and every parent of a served event is covered, held, or served before it, so the requester can take the answer in
as it comes. An answer is empty only when the claim covers the whole closure; a requester that claims its newest events
therefore gets there after finitely many rounds (`serveWantMembership_progress`).
-/

namespace IrohRooms

variable {env : Env} {sealing : Sealing} {room : RoomId}

namespace EventStore

variable {s : EventStore env room}

/-! ### Ancestries -/

theorem dep_iff_parentsOf {p c : EventId} : Staged.Dep s.deps p c ↔ p ∈ s.parentsOf c := by
  unfold Staged.Dep parentsOf deps
  cases s.event? c with
  | none => simp
  | some v => simp

theorem closeUnder_eq (admits : EventId → Bool) (fuel : Nat) (st : OrdSet EventId × List EventId) :
    s.closeUnder admits fuel st = Closure.close s.parentsOf admits fuel st := by
  induction fuel generalizing st with
  | zero => rfl
  | succ fuel ih =>
    obtain ⟨seen, stack⟩ := st
    cases stack with
    | nil => rfl
    | cons id stack => exact ih _

/-- The ancestry of a set is what is reached from it along admitted parents. -/
theorem mem_ancestry {admits : EventId → Bool} {ids : OrdSet EventId} {id : EventId} :
    id ∈ s.ancestry admits ids ↔ ∃ c ∈ ids, Closure.Reaches s.parentsOf admits c id := by
  have hsupply : ∀ x y, Closure.Edge s.parentsOf admits x y →
      y ∈ s.rows.values.flatMap fun row => row.event.event.prevEvents := by
    rintro x y ⟨hy, -⟩
    obtain ⟨row, hrow, hparent⟩ := dep_iff.mp (dep_iff_parentsOf.mpr hy)
    exact List.mem_flatMap.mpr ⟨row, OrdMap.mem_values.mpr ⟨x, hrow⟩, hparent⟩
  rw [ancestry, closeUnder_eq]
  refine Closure.mem_close_iff hsupply (fun x => ?_) rfl ?_
  · rw [List.mem_reverse, OrdSet.mem_toList]
  · rw [List.length_reverse, List.length_flatMap, edgeCount]
    omega

theorem reaches_iff {c id : EventId} :
    Closure.Reaches s.parentsOf (fun _ => true) c id ↔ id = c ∨ Staged.Below s.deps id c := by
  have hedge : ∀ a b, Closure.Edge s.parentsOf (fun _ => true) a b ↔ Function.swap (Staged.Dep s.deps) a b := by
    intro a b
    show _ ↔ Staged.Dep s.deps b a
    rw [dep_iff_parentsOf, Closure.Edge]
    simp
  have hsame : Closure.Edge s.parentsOf (fun _ => true) = Function.swap (Staged.Dep s.deps) :=
    funext fun a => funext fun b => propext (hedge a b)
  rw [Closure.Reaches, hsame, Relation.reflTransGen_iff_eq_or_transGen, Relation.transGen_swap]
  rfl

/-- Where parents are stored, a path stays in the store by itself. -/
theorem reaches_contains_iff (hplaced : Universe.Placed s) {c id : EventId} :
    Closure.Reaches s.parentsOf s.contains c id ↔ id = c ∨ Staged.Below s.deps id c := by
  have hsame : Closure.Edge s.parentsOf s.contains = Closure.Edge s.parentsOf (fun _ => true) := by
    funext a b
    refine propext ⟨fun h => ⟨h.1, rfl⟩, fun h => ⟨h.1, ?_⟩⟩
    obtain ⟨row, hrow, hparent⟩ := dep_iff.mp (dep_iff_parentsOf.mpr h.1)
    exact hplaced a row hrow b hparent
  rw [← reaches_iff, Closure.Reaches, Closure.Reaches, hsame]

/-- A stored event of a placed store has its ancestry stored. -/
theorem ancestryStored_of_placed (hplaced : Universe.Placed s) {id : EventId} (h : s.contains id = true) :
    s.AncestryStored id := by
  refine ⟨h, fun a ha => ?_⟩
  obtain ⟨d, hd, -⟩ := Relation.TransGen.head'_iff.mp ha
  obtain ⟨row, hrow, hparent⟩ := dep_iff.mp hd
  exact hplaced d row hrow a hparent

/-- Above every stored event there is a head. -/
theorem exists_head (hacyclic : s.Acyclic) {id : EventId} (h : s.contains id = true) :
    ∃ head ∈ s.heads, id = head ∨ Staged.Below s.deps id head := by
  obtain ⟨head, hstored, hbelow, htop⟩ := Staged.exists_top (Staged.Below s.deps) (P := fun a => s.contains a = true)
    Staged.Below.trans (fun a _ => hacyclic a) s.rows.keys h
  refine ⟨head, List.mem_filter.mpr ⟨OrdMap.mem_keys.mpr hstored, ?_⟩, ?_⟩
  · rw [List.isEmpty_iff, List.eq_nil_iff_forall_not_mem]
    intro c hc
    have hdep := mem_childrenOf.mp hc
    obtain ⟨row, hrow, -⟩ := dep_iff.mp hdep
    have hmem : c ∈ s.rows.keys := OrdMap.mem_keys.mpr (Option.isSome_of_eq_some hrow)
    exact htop c hmem (contains_iff.mpr ⟨row, hrow⟩) (Staged.Below.of_dep hdep)
  · rcases hbelow with rfl | hbelow
    · exact Or.inl rfl
    · exact Or.inr hbelow

/-- What a claim covers: the claimed ids that are stored, and their ancestors. -/
def Covers (s : EventStore env room) (held : List EventId) (id : EventId) : Prop :=
  ∃ c ∈ held, s.contains c = true ∧ (id = c ∨ Staged.Below s.deps id c)

end EventStore

namespace SyncEngine

variable {e : SyncEngine env sealing room}

/-! ### The closure and the claim -/

theorem contains_of_mem_authorizationClassIds {id : EventId} (h : id ∈ e.authorizationClassIds) :
    e.store.contains id = true := by
  have hkept : ∀ row ∈ e.store.rows.values, e.store.contains row.event.eventId = true := by
    intro row hrow
    obtain ⟨key, hkey⟩ := OrdMap.mem_values.mp hrow
    rw [e.store.keyed key row hkey]
    exact EventStore.contains_iff.mpr ⟨row, hkey⟩
  rcases List.mem_append.mp (OrdSet.mem_ofList.mp h) with htyped | hauthored
  · obtain ⟨ty, -, hid⟩ := List.mem_flatMap.mp htyped
    obtain ⟨row, hrow, rfl⟩ := List.mem_map.mp hid
    exact hkept row (EventStore.mem_byType.mp hrow).1
  · cases hadmin : e.snapshot.admin with
    | none => simp [hadmin] at hauthored
    | some admin =>
      rw [hadmin] at hauthored
      obtain ⟨row, hrow, rfl⟩ := List.mem_map.mp hauthored
      exact hkept row (List.mem_filter.mp ((List.mem_insertionSort _).mp hrow)).1

/-- The closure: the events of the class and their ancestors. -/
theorem mem_authorizationClosureIds (hplaced : Universe.Placed e.store) {id : EventId} :
    id ∈ e.authorizationClosureIds ↔ ∃ c ∈ e.authorizationClassIds, id = c ∨ Staged.Below e.store.deps id c := by
  rw [authorizationClosureIds, EventStore.mem_ancestry]
  exact exists_congr fun c => and_congr_right fun _ => EventStore.reaches_contains_iff hplaced

theorem contains_of_mem_authorizationClosureIds (hplaced : Universe.Placed e.store) {id : EventId}
    (h : id ∈ e.authorizationClosureIds) : e.store.contains id = true := by
  obtain ⟨c, hc, hbelow⟩ := (mem_authorizationClosureIds hplaced).mp h
  have hstored := contains_of_mem_authorizationClassIds hc
  rcases hbelow with rfl | hbelow
  · exact hstored
  · exact (EventStore.ancestryStored_of_placed hplaced hstored).2 id hbelow

/-- With an event the closure has its parents. -/
theorem dep_mem_authorizationClosureIds (hplaced : Universe.Placed e.store) {p id : EventId}
    (hid : id ∈ e.authorizationClosureIds) (hdep : Staged.Dep e.store.deps p id) : p ∈ e.authorizationClosureIds := by
  obtain ⟨c, hc, hbelow⟩ := (mem_authorizationClosureIds hplaced).mp hid
  refine (mem_authorizationClosureIds hplaced).mpr ⟨c, hc, Or.inr ?_⟩
  rcases hbelow with rfl | hbelow
  · exact .of_dep hdep
  · exact (Staged.Below.of_dep hdep).trans hbelow

/-- What the expansion of a claim computes. -/
theorem coveredByClaim_spec (hacyclic : e.store.Acyclic) (held : List EventId) :
    (e.coveredByClaim held = none ∧ ∀ id, e.store.contains id = true → e.store.Covers held id) ∨
      ∃ covered, e.coveredByClaim held = some covered ∧ ∀ id, id ∈ covered ↔ e.store.Covers held id := by
  have hfrontier : ∀ id, id ∈ OrdSet.ofList (held.filter e.store.contains) ↔
      id ∈ held ∧ e.store.contains id = true := by
    intro id
    rw [OrdSet.mem_ofList, List.mem_filter]
  unfold coveredByClaim
  dsimp only
  split_ifs with hempty hheads
  · refine Or.inr ⟨_, rfl, fun id => iff_of_false (OrdSet.not_mem_empty id) ?_⟩
    rintro ⟨c, hc, hstored, -⟩
    have hmem := OrdSet.mem_toList.mpr ((hfrontier c).mpr ⟨hc, hstored⟩)
    rw [hempty] at hmem
    cases hmem
  · -- every head is claimed, and everything stored is below a head
    refine Or.inl ⟨rfl, fun id hid => ?_⟩
    obtain ⟨head, hhead, hbelow⟩ := EventStore.exists_head hacyclic hid
    have hclaimed := of_decide_eq_true (List.all_eq_true.mp hheads.2 head hhead)
    obtain ⟨hheld, hstored⟩ := (hfrontier head).mp hclaimed
    exact ⟨head, hheld, hstored, hbelow⟩
  · refine Or.inr ⟨_, rfl, fun id => ?_⟩
    rw [EventStore.mem_ancestry]
    constructor
    · rintro ⟨c, hc, hreach⟩
      obtain ⟨hheld, hstored⟩ := (hfrontier c).mp hc
      exact ⟨c, hheld, hstored, EventStore.reaches_iff.mp hreach⟩
    · rintro ⟨c, hheld, hstored, hbelow⟩
      exact ⟨c, (hfrontier c).mpr ⟨hheld, hstored⟩, EventStore.reaches_iff.mpr hbelow⟩

/-! ### The answer -/

/-- The frames of messages, in order. -/
def answeredFrames (outs : List Outgoing) : List Frame := outs.flatMap fun o => o.msg.body.toSync.frames

theorem flatten_batchFrames (frames batch : List Frame) (cost : Nat) :
    (batchFrames frames batch cost).flatten = batch ++ frames := by
  induction frames generalizing batch cost with
  | nil =>
    unfold batchFrames
    split_ifs with hempty
    · simp [List.isEmpty_iff.mp hempty]
    · simp
  | cons f frames ih =>
    unfold batchFrames
    dsimp only
    split_ifs
    · rw [List.flatten_cons, ih]
      rfl
    · rw [ih, List.append_assoc]
      rfl

theorem answeredFrames_emitEvents (peer : PeerId) (frames : List Frame) :
    answeredFrames (emitEvents room peer frames) = frames := by
  have hbatch := flatten_batchFrames frames [] 0
  rw [List.nil_append] at hbatch
  rw [answeredFrames, emitEvents, List.flatMap_map, List.flatMap_def]
  show ((batchFrames frames [] 0).map fun batch => batch).flatten = frames
  rw [List.map_id', hbatch]

/-- The placed rows of the closure beyond a covered set, in the order they are served. -/
def servedRows (e : SyncEngine env sealing room) (covered : OrdSet EventId) : List (Row env room) :=
  causalSort (((e.authorizationClosureIds.toList.filter fun id => !decide (id ∈ covered)).filterMap
    e.store.rows.get?).filter fun row => row.lamport.isSome)

theorem mem_servedRows {covered : OrdSet EventId} {row : Row env room} : row ∈ e.servedRows covered ↔
    e.store.rows.get? row.event.eventId = some row ∧ row.event.eventId ∈ e.authorizationClosureIds ∧
      row.event.eventId ∉ covered ∧ row.lamport.isSome = true := by
  rw [servedRows, causalSort, List.mem_insertionSort, List.mem_filter, List.mem_filterMap]
  constructor
  · rintro ⟨⟨id, hid, hrow⟩, hlamport⟩
    obtain ⟨hclosure, hnot⟩ := List.mem_filter.mp hid
    have hkey := e.store.keyed id row hrow
    rw [hkey]
    exact ⟨hrow, OrdSet.mem_toList.mp hclosure, by simpa using hnot, hlamport⟩
  · rintro ⟨hrow, hclosure, hnot, hlamport⟩
    refine ⟨⟨_, List.mem_filter.mpr ⟨OrdSet.mem_toList.mpr hclosure, ?_⟩, hrow⟩, hlamport⟩
    simpa using hnot

theorem answeredFrames_serveWantMembership (serving : Serving env room) (peer : PeerId) (held : List EventId) :
    answeredFrames (e.serveWantMembership serving peer held) =
      (e.coveredByClaim held).elim [] fun covered => serving.framesFromStored (e.servedRows covered) := by
  unfold serveWantMembership
  split
  · rename_i hnone
    rw [hnone]
    rfl
  · rename_i covered hsome
    rw [hsome]
    exact answeredFrames_emitEvents peer _

theorem servedRows_sorted (covered : OrdSet EventId) :
    (e.servedRows covered).Pairwise fun a b => a.causalKey ≤ b.causalKey :=
  List.pairwise_insertionSort _ _

/-- The order of an answer puts the lower `lamport` first. -/
theorem causalKey_lt {a b : Row env room} {m n : Nat} (ha : a.lamport = some m) (hb : b.lamport = some n)
    (hlt : m < n) : a.causalKey < b.causalKey := by
  rw [Row.causalKey, Row.causalKey, ha, hb, Prod.Lex.toLex_lt_toLex]
  left
  show m + 1 < n + 1
  omega

/-- The set has the parents of its items. -/
def DownClosed (deps : EventId → Option (List EventId)) (R : Set EventId) : Prop :=
  ∀ id ∈ R, ∀ p, Staged.Dep deps p id → p ∈ R

/-- What an honest claim covers is held. -/
theorem mem_of_covers {R : Set EventId} {held : List EventId} (hclosed : DownClosed e.store.deps R)
    (hheld : ∀ id ∈ held, id ∈ R) {id : EventId} (h : e.store.Covers held id) : id ∈ R := by
  have hdown : ∀ {a c}, Staged.Below e.store.deps a c → c ∈ R → a ∈ R := by
    intro a c hbelow
    induction hbelow with
    | single hdep => exact fun hc => hclosed _ hc _ hdep
    | tail _ hdep ih => exact fun hc => ih (hclosed _ hc _ hdep)
  obtain ⟨c, hc, -, hbelow⟩ := h
  rcases hbelow with rfl | hbelow
  · exact hheld _ hc
  · exact hdown hbelow (hheld c hc)

/-- An answer that the holder of `R` can take in as it comes, without anything the claim covers, and not empty as long
as there is something to serve. -/
structure Advances (e : SyncEngine env sealing room) (serving : Serving env room) (R : Set EventId)
    (held : List EventId) (frames : List Frame) : Prop where
  closure : ∀ f ∈ frames, f.eventId ∈ e.authorizationClosureIds ∧
    (e.store.event? f.eventId).map ValidatedEvent.event = some f.event
  uncovered : ∀ f ∈ frames, ¬ e.store.Covers held f.eventId
  causal : ∀ pre f post, frames = pre ++ f :: post → ∀ p ∈ f.event.prevEvents, p ∈ R ∨ ∃ g ∈ pre, g.eventId = p
  bounded : frames.length ≤ serving.responseMaxFrames
  progress : (∃ id ∈ e.authorizationClosureIds, ¬ e.store.Covers held id) → frames ≠ []

/-- The rows of a placed store are all placed. -/
theorem lamport_of_placed {s : EventStore env room} (hcons : s.Consistent) (hacyclic : s.Acyclic)
    (hplaced : Universe.Placed s) {id : EventId} {row : Row env room} (hrow : s.rows.get? id = some row) :
    ∃ n, row.lamport = some n := by
  obtain ⟨n, hn⟩ := hcons.lamport_of_ancestry hacyclic
    (EventStore.ancestryStored_of_placed hplaced (EventStore.contains_iff.mpr ⟨row, hrow⟩))
  rw [EventStore.lamportOf, hrow, Option.bind_some] at hn
  exact ⟨n, hn⟩

/-- The parents of a served row are covered or served before it. -/
theorem servedRows_causal (hcons : e.store.Consistent) (hacyclic : e.store.Acyclic)
    (hplaced : Universe.Placed e.store) {covered : OrdSet EventId} {pre post : List (Row env room)}
    {row : Row env room} (hsplit : e.servedRows covered = pre ++ row :: post) {p : EventId}
    (hp : p ∈ row.event.event.prevEvents) : p ∈ covered ∨ ∃ r ∈ pre, r.event.eventId = p := by
  have hmem : row ∈ e.servedRows covered := by
    rw [hsplit]
    simp
  obtain ⟨hrow, hclosure, -, -⟩ := mem_servedRows.mp hmem
  have hdep : Staged.Dep e.store.deps p row.event.eventId := EventStore.dep_iff.mpr ⟨row, hrow, hp⟩
  by_cases hcovered : p ∈ covered
  · exact Or.inl hcovered
  · right
    obtain ⟨parent, hparent⟩ := EventStore.contains_iff.mp (hplaced _ _ hrow p hp)
    have hkey := e.store.keyed p parent hparent
    obtain ⟨m, hm⟩ := lamport_of_placed hcons hacyclic hplaced hparent
    obtain ⟨n, hn⟩ := lamport_of_placed hcons hacyclic hplaced hrow
    have hserved : parent ∈ e.servedRows covered := by
      rw [mem_servedRows, hkey]
      exact ⟨hparent, dep_mem_authorizationClosureIds hplaced hclosure hdep, hcovered, Option.isSome_of_eq_some hm⟩
    have hlt : parent.causalKey < row.causalKey := by
      refine causalKey_lt hm hn (hcons.lamport_lt (.of_dep hdep) ?_ ?_)
      · rw [EventStore.lamportOf, hparent, Option.bind_some, hm]
      · rw [EventStore.lamportOf, hrow, Option.bind_some, hn]
    -- so it does not come after the row
    have hsorted := e.servedRows_sorted covered
    rw [hsplit] at hserved hsorted
    rcases List.mem_append.mp hserved with hpre | hpost
    · exact ⟨parent, hpre, hkey⟩
    · exfalso
      rcases List.mem_cons.mp hpost with rfl | hafter
      · exact lt_irrefl _ hlt
      · have hle := (List.pairwise_cons.mp (List.pairwise_append.mp hsorted).2.1).1 parent hafter
        exact absurd hlt (not_lt.mpr hle)

theorem serveWantMembership_advances (serving : Serving env room) (hmax : 0 < serving.responseMaxFrames)
    (hcons : e.store.Consistent) (hacyclic : e.store.Acyclic) (hplaced : Universe.Placed e.store) (peer : PeerId)
    {R : Set EventId} (hclosed : DownClosed e.store.deps R) {held : List EventId} (hheld : ∀ id ∈ held, id ∈ R) :
    Advances e serving R held (answeredFrames (e.serveWantMembership serving peer held)) := by
  rw [answeredFrames_serveWantMembership]
  rcases coveredByClaim_spec hacyclic held with ⟨hnone, hall⟩ | ⟨covered, hsome, hcovered⟩
  · rw [hnone]
    refine ⟨fun f hf => absurd hf List.not_mem_nil, fun f hf => absurd hf List.not_mem_nil, fun pre f post hsplit => ?_,
      Nat.zero_le _, ?_⟩
    · exact absurd hsplit.symm (by simp)
    · rintro ⟨id, hid, hnot⟩
      exact absurd (hall id (contains_of_mem_authorizationClosureIds hplaced hid)) hnot
  · rw [hsome]
    have hrows : ∀ f ∈ serving.framesFromStored (e.servedRows covered),
        ∃ row ∈ e.servedRows covered, serving.frame row = f := by
      intro f hf
      exact List.mem_map.mp (List.mem_of_mem_take hf)
    refine ⟨fun f hf => ?_, fun f hf => ?_, fun pre f post hsplit p hp => ?_, ?_, ?_⟩
    · obtain ⟨row, hmem, rfl⟩ := hrows f hf
      obtain ⟨hrow, hclosure, -, -⟩ := mem_servedRows.mp hmem
      refine ⟨hclosure, ?_⟩
      show (e.store.event? row.event.eventId).map ValidatedEvent.event = some row.event.event
      rw [EventStore.event?, hrow]
      rfl
    · obtain ⟨row, hmem, rfl⟩ := hrows f hf
      rw [← hcovered]
      exact (mem_servedRows.mp hmem).2.2.1
    · -- the answer is a prefix of the rows in order
      have hwhole : (e.servedRows covered).map serving.frame =
          pre ++ f :: (post ++ ((e.servedRows covered).map serving.frame).drop serving.responseMaxFrames) := by
        rw [Option.elim_some, Serving.framesFromStored] at hsplit
        conv_lhs => rw [← List.take_append_drop serving.responseMaxFrames ((e.servedRows covered).map serving.frame),
          hsplit]
        simp
      obtain ⟨before, rest, hrowsplit, rfl, hrest⟩ := List.map_eq_append_iff.mp hwhole
      obtain ⟨row, after, rfl, rfl, -⟩ := List.map_eq_cons_iff.mp hrest
      rcases servedRows_causal hcons hacyclic hplaced hrowsplit hp with hin | ⟨r, hr, hid⟩
      · exact Or.inl (mem_of_covers hclosed hheld ((hcovered p).mp hin))
      · exact Or.inr ⟨serving.frame r, List.mem_map_of_mem hr, hid⟩
    · exact (List.length_take_le _ _)
    · rintro ⟨id, hid, hnot⟩
      obtain ⟨row, hrow⟩ := EventStore.contains_iff.mp (contains_of_mem_authorizationClosureIds hplaced hid)
      obtain ⟨n, hn⟩ := lamport_of_placed hcons hacyclic hplaced hrow
      have hmem : row ∈ e.servedRows covered := by
        rw [mem_servedRows, e.store.keyed id row hrow, hcovered]
        exact ⟨hrow, hid, hnot, Option.isSome_of_eq_some hn⟩
      intro hnil
      rw [Option.elim_some, Serving.framesFromStored, List.take_eq_nil_iff] at hnil
      rcases hnil with hzero | hnil
      · omega
      · rw [List.map_eq_nil_iff] at hnil
        rw [hnil] at hmem
        cases hmem

/-! ### Memoised answers -/

def coveredCacheEntries : Nat := 4

/-- The closure and the covered sets, by claimed and stored ids, that are kept until the next insert. -/
structure Memo where
  closure : Option (OrdSet EventId)
  covered : OrdMap (List EventId) (OrdSet EventId)

namespace Memo

def empty : Memo := ⟨none, .empty⟩

/-- Drop the smallest key. -/
def popFirst (covered : OrdMap (List EventId) (OrdSet EventId)) : OrdMap (List EventId) (OrdSet EventId) :=
  ⟨covered.entries.tail, covered.sorted.sublist (List.tail_sublist _)⟩

variable (memo : Memo) (e : SyncEngine env sealing room)

def authorizationClosureIds : OrdSet EventId × Memo :=
  match memo.closure with
  | some ids => (ids, memo)
  | none => (e.authorizationClosureIds, { memo with closure := some e.authorizationClosureIds })

def coveredByClaim (held : List EventId) : Option (OrdSet EventId) × Memo :=
  let frontier := OrdSet.ofList (held.filter e.store.contains)
  if frontier.toList = [] then (some .empty, memo)
  else if e.store.heads ≠ [] ∧ e.store.heads.all fun h => decide (h ∈ frontier) then (none, memo)
  else match memo.covered.get? frontier.toList with
    | some covered => (some covered, memo)
    | none =>
      let covered := e.store.ancestry (fun _ => true) frontier
      let kept := if memo.covered.entries.length ≥ coveredCacheEntries then popFirst memo.covered else memo.covered
      (some covered, { memo with covered := kept.insert frontier.toList covered })

/-- An answer, and what is kept of the work on it. -/
def serveWantMembership (serving : Serving env room) (peer : PeerId) (held : List EventId) : List Outgoing × Memo :=
  let closure := memo.authorizationClosureIds e
  let claim := closure.2.coveredByClaim e held
  match claim.1 with
  | none => ([], claim.2)
  | some covered =>
    let ids := closure.1.toList.filter fun id => !decide (id ∈ covered)
    let stored := (ids.filterMap e.store.rows.get?).filter fun row => row.lamport.isSome
    (emitEvents room peer (serving.framesFromStored (causalSort stored)), claim.2)

/-- What is kept after answering claims since the last insert. -/
def answering (serving : Serving env room) (claims : List (PeerId × List EventId)) : Memo :=
  claims.foldl (fun memo claim => (memo.serveWantMembership e serving claim.1 claim.2).2) empty

/-- Every kept set is what would be computed. -/
structure Accurate (memo : Memo) (e : SyncEngine env sealing room) : Prop where
  closure : ∀ ids, memo.closure = some ids → ids = e.authorizationClosureIds
  covered : ∀ (frontier : OrdSet EventId) covered, memo.covered.get? frontier.toList = some covered →
    covered = e.store.ancestry (fun _ => true) frontier

variable {memo e}

theorem accurate_empty : Accurate empty e where
  closure _ h := by cases h
  covered _ _ h := by cases h

theorem Accurate.authorizationClosureIds (h : memo.Accurate e) :
    (memo.authorizationClosureIds e).1 = e.authorizationClosureIds ∧ (memo.authorizationClosureIds e).2.Accurate e := by
  unfold Memo.authorizationClosureIds
  split
  · rename_i ids hids
    exact ⟨h.closure ids hids, h⟩
  · refine ⟨rfl, fun ids hids => ?_, h.covered⟩
    exact (Option.some.inj hids).symm

theorem get?_of_popFirst {covered : OrdMap (List EventId) (OrdSet EventId)} {key : List EventId} {ids : OrdSet EventId}
    (h : (popFirst covered).get? key = some ids) : covered.get? key = some ids :=
  OrdMap.mem_entries.mp (List.mem_of_mem_tail (OrdMap.mem_entries.mpr h))

theorem Accurate.coveredByClaim (h : memo.Accurate e) (held : List EventId) :
    (memo.coveredByClaim e held).1 = e.coveredByClaim held ∧ (memo.coveredByClaim e held).2.Accurate e := by
  unfold Memo.coveredByClaim SyncEngine.coveredByClaim
  dsimp only
  obtain ⟨frontier, hfrontier⟩ : ∃ f, f = OrdSet.ofList (held.filter e.store.contains) := ⟨_, rfl⟩
  rw [← hfrontier]
  by_cases hempty : frontier.toList = []
  · rw [if_pos hempty, if_pos hempty]
    exact ⟨rfl, h⟩
  by_cases hheads : e.store.heads ≠ [] ∧ (e.store.heads.all fun head => decide (head ∈ frontier)) = true
  · rw [if_neg hempty, if_neg hempty, if_pos hheads, if_pos hheads]
    exact ⟨rfl, h⟩
  rw [if_neg hempty, if_neg hempty, if_neg hheads, if_neg hheads]
  cases hget : memo.covered.get? frontier.toList with
  | some covered => exact ⟨congrArg some (h.covered frontier covered hget), h⟩
  | none =>
    refine ⟨rfl, h.closure, fun frontier' covered hcovered => ?_⟩
    dsimp only at hcovered
    rw [OrdMap.get?_insert] at hcovered
    split_ifs at hcovered with hkey
    · rw [← Option.some.inj hcovered]
      have hsame : frontier' = frontier := by
        refine OrdSet.ext_mem fun id => ?_
        rw [← OrdSet.mem_toList, hkey, OrdSet.mem_toList]
      rw [hsame]
    · exact h.covered frontier' covered (get?_of_popFirst hcovered)
    · exact h.covered frontier' covered hcovered

/-- Accurate caches change no answer and stay accurate. -/
theorem Accurate.serveWantMembership (h : memo.Accurate e) (serving : Serving env room) (peer : PeerId)
    (held : List EventId) :
    (memo.serveWantMembership e serving peer held).1 = e.serveWantMembership serving peer held ∧
      (memo.serveWantMembership e serving peer held).2.Accurate e := by
  obtain ⟨hclosure, hkept⟩ := h.authorizationClosureIds
  obtain ⟨hclaim, hkept'⟩ := hkept.coveredByClaim held
  unfold Memo.serveWantMembership SyncEngine.serveWantMembership
  dsimp only
  rw [hclaim, hclosure]
  cases e.coveredByClaim held with
  | none => exact ⟨rfl, hkept'⟩
  | some covered => exact ⟨rfl, hkept'⟩

theorem accurate_answering (serving : Serving env room) (claims : List (PeerId × List EventId)) :
    (answering e serving claims).Accurate e :=
  List.foldlRecOn claims _ (motive := fun memo : Memo => memo.Accurate e) accurate_empty
    fun _ hmemo claim _ => (hmemo.serveWantMembership serving claim.1 claim.2).2

end Memo

/-! ### Rounds -/

/-- A held and stored event with no held and stored event above it. -/
def Newest (e : SyncEngine env sealing room) (R : Set EventId) (id : EventId) : Prop :=
  id ∈ R ∧ e.store.contains id = true ∧
    ∀ c ∈ R, e.store.contains c = true → ¬ Staged.Below e.store.deps id c

/-- The held set with the events of frames. -/
def absorb (R : Set EventId) (frames : List Frame) : Set EventId := R ∪ {id | ∃ f ∈ frames, f.eventId = id}

/-- Rounds of pulls: each claims some of what is held, among it the newest, and takes in the answer. The responder may
have answered other claims in between. -/
structure Rounds (e : SyncEngine env sealing room) (serving : Serving env room) (peer : PeerId)
    (R : Nat → Set EventId) (claims : Nat → List EventId) : Prop where
  honest : ∀ k, ∀ id ∈ claims k, id ∈ R k
  newest : ∀ k id, Newest e (R k) id → id ∈ claims k
  absorbs : ∀ k, ∃ earlier, R (k + 1) = absorb (R k) (answeredFrames
    ((Memo.answering e serving earlier).serveWantMembership e serving peer (claims k)).1)

/-- Claiming the newest covers all that is held and stored. -/
theorem covers_of_newest (hacyclic : e.store.Acyclic) {R : Set EventId} {held : List EventId}
    (hnewest : ∀ id, Newest e R id → id ∈ held) {id : EventId} (hid : id ∈ R) (hstored : e.store.contains id = true) :
    e.store.Covers held id := by
  obtain ⟨top, ⟨htop, hkept⟩, hbelow, habove⟩ := Staged.exists_top (Staged.Below e.store.deps)
    (P := fun a => a ∈ R ∧ e.store.contains a = true) Staged.Below.trans (fun a _ => hacyclic a) e.store.rows.keys
    ⟨hid, hstored⟩
  refine ⟨top, hnewest top ⟨htop, hkept, fun c hc hcs => habove c ?_ ⟨hc, hcs⟩⟩, hkept, ?_⟩
  · exact OrdMap.mem_keys.mpr hcs
  · rcases hbelow with rfl | hbelow
    · exact Or.inl rfl
    · exact Or.inr hbelow

/-- What the closure has beyond the held set. -/
noncomputable def lacking (e : SyncEngine env sealing room) (R : Set EventId) : Nat := by
  classical exact (e.authorizationClosureIds.toList.filter fun id => decide (id ∉ R)).length

theorem lacking_lt {R R' : Set EventId} (hsub : R ⊆ R') {id : EventId} (hid : id ∈ e.authorizationClosureIds)
    (hnot : id ∉ R) (hnow : id ∈ R') : e.lacking R' < e.lacking R := by
  classical
  have hfilter : (e.authorizationClosureIds.toList.filter fun id => decide (id ∉ R')) =
      (e.authorizationClosureIds.toList.filter fun id => decide (id ∉ R)).filter fun id => decide (id ∉ R') := by
    rw [List.filter_filter]
    refine List.filter_congr fun a _ => ?_
    by_cases ha : a ∈ R'
    · simp [ha]
    · have hold : a ∉ R := fun h => ha (hsub h)
      simp [ha, hold]
  unfold lacking
  rw [hfilter]
  refine List.length_filter_lt_length_iff_exists.mpr ⟨id, ?_, by simpa using hnow⟩
  exact List.mem_filter.mpr ⟨OrdSet.mem_toList.mpr hid, by simpa using hnot⟩

theorem exists_lacking {R : Set EventId} (h : e.lacking R ≠ 0) : ∃ id ∈ e.authorizationClosureIds, id ∉ R := by
  classical
  obtain ⟨id, hid⟩ := List.exists_mem_of_ne_nil _ (List.ne_nil_of_length_pos (Nat.pos_of_ne_zero h))
  obtain ⟨hmem, hnot⟩ := List.mem_filter.mp hid
  exact ⟨id, OrdSet.mem_toList.mp hmem, of_decide_eq_true hnot⟩

theorem mem_of_lacking_zero {R : Set EventId} (h : e.lacking R = 0) {id : EventId}
    (hid : id ∈ e.authorizationClosureIds) : id ∈ R := by
  classical
  by_contra hnot
  have hnil := List.length_eq_zero_iff.mp h
  have hmem : id ∈ e.authorizationClosureIds.toList.filter fun id => decide (id ∉ R) :=
    List.mem_filter.mpr ⟨OrdSet.mem_toList.mpr hid, by simpa using hnot⟩
  rw [hnil] at hmem
  cases hmem

/-- An answer is taken in without leaving a parent out. -/
theorem Advances.downClosed {serving : Serving env room} {R : Set EventId} {held : List EventId} {frames : List Frame}
    (h : Advances e serving R held frames) (hdown : DownClosed e.store.deps R) :
    DownClosed e.store.deps (absorb R frames) := by
  intro id hid p hdep
  rcases hid with hold | ⟨f, hf, rfl⟩
  · exact Or.inl (hdown id hold p hdep)
  · obtain ⟨pre, post, hsplit⟩ := List.append_of_mem hf
    have hparent : p ∈ f.event.prevEvents := by
      obtain ⟨row, hrow, hp⟩ := EventStore.dep_iff.mp hdep
      have hevent := (h.closure f hf).2
      rw [EventStore.event?, hrow, Option.map_some, Option.map_some, Option.some.injEq] at hevent
      rwa [hevent] at hp
    rcases h.causal pre f post hsplit p hparent with hheld | ⟨g, hg, hgid⟩
    · exact Or.inl hheld
    · refine Or.inr ⟨g, ?_, hgid⟩
      rw [hsplit]
      exact List.mem_append_left _ hg

/-- If the newest were claimed, an answer brings something that was lacking, unless nothing was. -/
theorem Advances.lacking_lt {serving : Serving env room} {R : Set EventId} {held : List EventId} {frames : List Frame}
    (h : Advances e serving R held frames) (hacyclic : e.store.Acyclic) (hplaced : Universe.Placed e.store)
    (hdown : DownClosed e.store.deps R) (hheld : ∀ id ∈ held, id ∈ R) (hnewest : ∀ id, Newest e R id → id ∈ held)
    (hlacking : e.lacking R ≠ 0) : e.lacking (absorb R frames) < e.lacking R := by
  obtain ⟨id, hid, hnot⟩ := exists_lacking hlacking
  have huncovered : ¬ e.store.Covers held id := fun hcovers => hnot (mem_of_covers hdown hheld hcovers)
  obtain ⟨f, hf⟩ := List.exists_mem_of_ne_nil _ (h.progress ⟨id, hid, huncovered⟩)
  have hclosure := (h.closure f hf).1
  have hnew : f.eventId ∉ R := by
    intro hold
    have hstored := contains_of_mem_authorizationClosureIds hplaced hclosure
    exact h.uncovered f hf (covers_of_newest hacyclic hnewest hold hstored)
  exact SyncEngine.lacking_lt Set.subset_union_left hclosure hnew (Or.inr ⟨f, hf, rfl⟩)

/-- Every round brings something that was lacking, until nothing is. -/
theorem Rounds.lacking_le {serving : Serving env room} {peer : PeerId} {R : Nat → Set EventId}
    {claims : Nat → List EventId} (h : Rounds e serving peer R claims) (hmax : 0 < serving.responseMaxFrames)
    (hcons : e.store.Consistent) (hacyclic : e.store.Acyclic) (hplaced : Universe.Placed e.store)
    (hclosed : DownClosed e.store.deps (R 0)) (k : Nat) :
    DownClosed e.store.deps (R k) ∧ e.lacking (R k) ≤ e.lacking (R 0) - k := by
  induction k with
  | zero => exact ⟨hclosed, (Nat.sub_zero _).ge⟩
  | succ k ih =>
    obtain ⟨hdown, hle⟩ := ih
    obtain ⟨earlier, habsorbs⟩ := h.absorbs k
    have hadvances := serveWantMembership_advances serving hmax hcons hacyclic hplaced peer hdown (h.honest k)
    rw [((Memo.accurate_answering serving earlier).serveWantMembership serving peer (claims k)).1] at habsorbs
    rw [habsorbs]
    refine ⟨hadvances.downClosed hdown, ?_⟩
    by_cases hzero : e.lacking (R k) = 0
    · have hall : e.lacking (absorb (R k) (answeredFrames (e.serveWantMembership serving peer (claims k)))) = 0 := by
        by_contra hne
        obtain ⟨id, hid, hnot⟩ := exists_lacking hne
        exact hnot (Or.inl (mem_of_lacking_zero hzero hid))
      omega
    · have hless := hadvances.lacking_lt hacyclic hplaced hdown (h.honest k) (h.newest k) hzero
      omega

end SyncEngine

namespace Universe

variable {W : Universe} {e : SyncEngine env sealing room}

/-- A node's answer to a pull for membership, whatever it has answered since its last insert, can be taken in by a
requester as it comes, repeats nothing the claim covers, and is empty only when the claim covers the closure; so a
requester that claims its newest events has the whole closure after finitely many rounds. -/
theorem serveWantMembership_progress (hreach : Reachable W.Occurs e) (hplaced : Placed e.store)
    (sending : Sending env room) (hvalid : sending.validate = none) (peer : PeerId) :
    (∀ R : Set EventId, SyncEngine.DownClosed W.deps R → ∀ held : List EventId, (∀ id ∈ held, id ∈ R) → ∀ earlier,
      SyncEngine.Advances e sending.toServing R held (SyncEngine.answeredFrames ((SyncEngine.Memo.answering e
        sending.toServing earlier).serveWantMembership e sending.toServing peer held).1)) ∧
    ∀ (R : Nat → Set EventId) (claims : Nat → List EventId), SyncEngine.DownClosed W.deps (R 0) →
      SyncEngine.Rounds e sending.toServing peer R claims →
      ∃ n ≤ e.authorizationClosureIds.toList.length, ∀ id ∈ e.authorizationClosureIds, id ∈ R n := by
  obtain ⟨hcons, hsound⟩ := storeOk_of_reachable hreach
  have hacyclic := acyclic_of_stored hsound
  have hmax := (Sending.valid_of_validate hvalid).responseMaxFrames
  have hstored : ∀ R : Set EventId, SyncEngine.DownClosed W.deps R → SyncEngine.DownClosed e.store.deps R := by
    intro R hclosed id hid p hdep
    obtain ⟨ds, hds, hp⟩ := hdep
    exact hclosed id hid p ⟨ds, deps_of_stored hsound hds, hp⟩
  refine ⟨fun R hclosed held hheld earlier => ?_, fun R claims hclosed hrounds => ?_⟩
  · rw [((SyncEngine.Memo.accurate_answering sending.toServing earlier).serveWantMembership sending.toServing peer
      held).1]
    exact SyncEngine.serveWantMembership_advances _ hmax hcons hacyclic hplaced peer (hstored R hclosed) hheld
  · have hle := (hrounds.lacking_le hmax hcons hacyclic hplaced (hstored _ hclosed) (e.lacking (R 0))).2
    rw [Nat.sub_self, Nat.le_zero] at hle
    refine ⟨e.lacking (R 0), ?_, fun id hid => SyncEngine.mem_of_lacking_zero hle hid⟩
    exact List.length_filter_le _ _

/-- A requester with only the genesis gets something new from a node that holds the join. -/
theorem serveWantMembership_progress_genesis :
    SyncEngine.Advances (Toy.run Toy.memberRoom) Toy.tightSending.toServing {Bytes32.ofNat 1} [Bytes32.ofNat 1]
      (SyncEngine.answeredFrames ((SyncEngine.Memo.answering (Toy.run Toy.memberRoom) Toy.tightSending.toServing
        [(Toy.device 3, [])]).serveWantMembership (Toy.run Toy.memberRoom) Toy.tightSending.toServing (Toy.device 3)
        [Bytes32.ofNat 1]).1) ∧
    ∃ id ∈ (Toy.run Toy.memberRoom).authorizationClosureIds,
      ¬ (Toy.run Toy.memberRoom).store.Covers [Bytes32.ofNat 1] id := by
  have hreach : Reachable Toy.directRoom.Occurs (Toy.run Toy.memberRoom) :=
    Toy.reachable_run
      (show ∀ p ∈ Toy.memberRoom, Toy.directRoom.event? (Bytes32.ofNat p.1) = some p.2 by decide +kernel)
  obtain ⟨hplaced, hinvite, hgenesis⟩ : (∀ e ∈ (Toy.run Toy.memberRoom).store.rows.entries,
        ∀ p ∈ e.2.event.event.prevEvents, (Toy.run Toy.memberRoom).store.contains p = true) ∧
      Bytes32.ofNat 2 ∈ (Toy.run Toy.memberRoom).authorizationClosureIds ∧
      (Toy.run Toy.memberRoom).store.deps (Bytes32.ofNat 1) = some [] := by decide +kernel
  have hclosed : SyncEngine.DownClosed Toy.directRoom.deps {Bytes32.ofNat 1} := by
    rintro id rfl p ⟨ds, hds, hp⟩
    rw [show Toy.directRoom.deps (Bytes32.ofNat 1) = some [] by decide, Option.some.injEq] at hds
    rw [← hds] at hp
    cases hp
  refine ⟨?_, Bytes32.ofNat 2, hinvite, fun hcovers => ?_⟩
  · exact (serveWantMembership_progress hreach (Toy.placed_of hplaced) Toy.tightSending (by decide) (Toy.device 3)).1
      _ hclosed _ (fun id hid => List.mem_singleton.mp hid) _
  · have hmem : Bytes32.ofNat 2 ∈ ({Bytes32.ofNat 1} : Set EventId) := by
      refine SyncEngine.mem_of_covers ?_ (fun id hid => List.mem_singleton.mp hid) hcovers
      rintro id rfl p ⟨ds, hds, hp⟩
      rw [hgenesis, Option.some.injEq] at hds
      rw [← hds] at hp
      cases hp
    exact absurd hmem (by decide)

end Universe

end IrohRooms
