import Mathlib.Data.List.Dedup
import Mathlib.Data.List.Pairwise
import IrohRooms.Lib.Grouping
import IrohRooms.Membership.Convergence
import IrohRooms.Membership.Sticky

/-!
# Divergence of the admin

The detector groups the accepted invites and removals of an admin by subject and looks at the causal heads of each
group. It fires exactly when two of the maximal writes on one subject differ in effect, and what it returns is read
off the events and their results, so the order of arrival leaves no trace in it.
-/

namespace IrohRooms

namespace RoomMembership

variable {env : Env} {room : RoomId}

section Spec

variable (m : RoomMembership env room)

/-- An accepted invite or removal of `s` that `a` signed. -/
structure AdminWrite (a s : IdentityKey) (id : EventId) (e : SignedEvent) : Prop where
  accepted : m.isAccepted id = true
  event : m.event? id = some e
  sender : e.senderId = a
  effect : (adminEffect e.content).isSome = true
  subject : touched e = some s

/-- No other write of `a` on `s` descends from it. -/
def MaximalWrite (a s : IdentityKey) (id : EventId) (e : SignedEvent) : Prop :=
  m.AdminWrite a s id e ∧ ∀ id' e', m.AdminWrite a s id' e' → ¬ Staged.Below m.deps id id'

/-- Neither event descends from the other. -/
def Concurrent (i j : EventId) : Prop := i ≠ j ∧ ¬ Staged.Below m.deps i j ∧ ¬ Staged.Below m.deps j i

/-- Two maximal writes of `a` on one subject are concurrent and differ in effect. -/
def Diverges (a : IdentityKey) : Prop :=
  ∃ s i e j e', m.MaximalWrite a s i e ∧ m.MaximalWrite a s j e' ∧ m.Concurrent i j ∧
    adminEffect e.content ≠ adminEffect e'.content

/-- The writes of `a` form one line, each below the next. -/
def LinearWrites (a : IdentityKey) : Prop :=
  ∃ line : List EventId, line.IsChain (Staged.Below m.deps) ∧ ∀ s id e, m.AdminWrite a s id e → id ∈ line

/-- The entries of the accepted writes of `a` on `s`, ascending. -/
def writesOn (a s : IdentityKey) : List Entry :=
  m.entries.filter fun e => e.accepted && e.event.senderId == a && (adminEffect e.event.content).isSome &&
    touched e.event == some s

end Spec

variable {m m' : RoomMembership env room} {a s : IdentityKey}

theorem touched_isSome_of_adminEffect {e : SignedEvent} (h : (adminEffect e.content).isSome = true) :
    (touched e).isSome = true := by
  unfold touched
  cases hc : e.content <;> simp_all [adminEffect]

theorem mem_writesOn {ent : Entry} :
    ent ∈ m.writesOn a s ↔ m.entryOf ent.id = some ent ∧ m.AdminWrite a s ent.id ent.event := by
  simp only [writesOn, List.mem_filter, mem_entries, Bool.and_eq_true, beq_iff_eq]
  refine and_congr_right fun hent => ?_
  obtain ⟨-, hevent, hacc⟩ := entryOf_eq_some hent
  constructor
  · rintro ⟨⟨⟨haccepted, hsender⟩, heffect⟩, htouched⟩
    exact ⟨hacc ▸ haccepted, hevent, hsender, heffect, htouched⟩
  · rintro ⟨haccepted, -, hsender, heffect, htouched⟩
    exact ⟨⟨⟨hacc.trans haccepted, hsender⟩, heffect⟩, htouched⟩

theorem AdminWrite.exists_entry {id : EventId} {e : SignedEvent} (h : m.AdminWrite a s id e) :
    ∃ ent ∈ m.writesOn a s, ent.id = id ∧ ent.event = e := by
  obtain ⟨ent, hent, rfl, rfl⟩ := exists_entry_of_event h.event
  exact ⟨ent, mem_writesOn.mpr ⟨mem_entries.mp hent, h⟩, rfl, rfl⟩

/-- The groups of the detector are the writes on each subject, where there are any. -/
theorem adminWrites_get? : (m.adminWrites a).get? s = if m.writesOn a s = [] then none else some (m.writesOn a s) := by
  have hgroups : m.adminWrites a = OrdMap.groupBy (fun e : Entry => (touched e.event).getD ⟨0⟩)
      (m.entries.filter fun e => e.accepted && e.event.senderId == a && (adminEffect e.event.content).isSome) := by
    unfold adminWrites OrdMap.groupBy
    refine List.foldl_ext _ _ _ fun groups e he => ?_
    have heffect : (adminEffect e.event.content).isSome = true := by
      have := (List.mem_filter.mp he).2
      simp only [Bool.and_eq_true] at this
      exact this.2
    obtain ⟨t, ht⟩ := Option.isSome_iff_exists.mp (touched_isSome_of_adminEffect heffect)
    simp [ht]
  have hfilter : ((m.entries.filter fun e => e.accepted && e.event.senderId == a &&
      (adminEffect e.event.content).isSome).filter fun e => (touched e.event).getD ⟨0⟩ = s) = m.writesOn a s := by
    rw [List.filter_filter, writesOn]
    refine List.filter_congr fun e _ => ?_
    cases heffect : (adminEffect e.event.content).isSome with
    | false => simp
    | true =>
      obtain ⟨t, ht⟩ := Option.isSome_iff_exists.mp (touched_isSome_of_adminEffect heffect)
      by_cases hts : t = s <;> simp [ht, hts]
  rw [hgroups, OrdMap.get?_groupBy, hfilter]

/-- Among the writes on a subject the memo decides the causal order. -/
theorem WF.mem_writeHeads (h : WF m) {ent : Entry} : ent ∈ causalHeads (m.writesOn a s) ↔
    m.entryOf ent.id = some ent ∧ m.MaximalWrite a s ent.id ent.event := by
  have hmemo : ∀ x y : Entry, m.AdminWrite a s x.id x.event → m.entryOf y.id = some y → m.AdminWrite a s y.id y.event →
      (isAncestor x.id y = true ↔ Staged.Below m.deps x.id y.id) := by
    intro x y hx hyent hy
    rw [isAncestor, decide_eq_true_eq, h.mem_entry_memo hyent (result_ne_none_of_accepted hy.accepted)]
    exact and_iff_left ⟨x.event, hx.event, affectsMembership_of_touched hx.subject⟩
  simp only [causalHeads, List.mem_filter, mem_writesOn, MaximalWrite, and_assoc, Bool.not_eq_true', List.any_eq_false,
    Bool.and_eq_true, bne_iff_ne, ne_eq, not_and]
  refine and_congr_right fun hent => and_congr_right fun hwrite => ?_
  constructor
  · intro hnone id' e' hwrite' hbelow
    obtain ⟨other, hother, rfl, rfl⟩ := hwrite'.exists_entry
    obtain ⟨hoent, howrite⟩ := mem_writesOn.mp hother
    refine hnone other ⟨hoent, howrite⟩ (fun heq => ?_) ((hmemo ent other hwrite hoent howrite).mpr hbelow)
    rw [heq] at hbelow
    exact (h.ready (result_ne_none_of_accepted hwrite.accepted)).not_below_self hbelow
  · rintro hmax other ⟨hoent, howrite⟩ - hanc
    exact hmax other.id other.event howrite ((hmemo ent other hwrite hoent howrite).mp hanc)

theorem MaximalWrite.concurrent {i j : EventId} {e e' : SignedEvent} (h : m.MaximalWrite a s i e)
    (h' : m.MaximalWrite a s j e') (hne : i ≠ j) : m.Concurrent i j :=
  ⟨hne, h.2 j e' h'.1, h'.2 i e h.1⟩

theorem two_le_length_dedup {α : Type} [DecidableEq α] {l : List α} :
    2 ≤ l.dedup.length ↔ ∃ x ∈ l, ∃ y ∈ l, x ≠ y := by
  constructor
  · intro h
    obtain ⟨x, y, rest, hl⟩ : ∃ x y rest, l.dedup = x :: y :: rest := by
      match hd : l.dedup with
      | [] => simp [hd] at h
      | [x] => simp [hd] at h
      | x :: y :: rest => exact ⟨x, y, rest, rfl⟩
    have hnodup : (x :: y :: rest).Nodup := hl ▸ l.nodup_dedup
    refine ⟨x, List.mem_dedup.mp (by simp [hl]), y, List.mem_dedup.mp (by simp [hl]), fun heq => ?_⟩
    simp [heq] at hnodup
  · rintro ⟨x, hx, y, hy, hne⟩
    have hsub : [x, y].Subperm l.dedup := by
      refine List.subperm_of_subset (by simp [hne]) fun z hz => ?_
      simp only [List.mem_cons, List.not_mem_nil, or_false] at hz
      rcases hz with rfl | rfl
      · exact List.mem_dedup.mpr hx
      · exact List.mem_dedup.mpr hy
    exact hsub.length_le

/-- The detector returns the heads of the first group whose heads differ in effect. -/
theorem adminDivergence_isSome : (m.adminDivergence a).isSome = true ↔
    ∃ s, ∃ x ∈ causalHeads (m.writesOn a s), ∃ y ∈ causalHeads (m.writesOn a s),
      adminEffect x.event.content ≠ adminEffect y.event.content := by
  have hlen : ∀ heads : List Entry, 2 ≤ (heads.filterMap fun e => adminEffect e.event.content).dedup.length →
      ¬ heads.length < 2 := by
    intro heads h2 hlt
    have h1 := (List.dedup_sublist (heads.filterMap fun e => adminEffect e.event.content)).length_le
    have h3 := List.length_filterMap_le (fun e : Entry => adminEffect e.event.content) heads
    omega
  have heffect : ∀ s, ∀ x ∈ causalHeads (m.writesOn a s), ∃ r, adminEffect x.event.content = some r := by
    intro s x hx
    exact Option.isSome_iff_exists.mp (mem_writesOn.mp (List.mem_of_mem_filter hx)).2.effect
  have hgroup : ∀ s, 2 ≤ ((causalHeads (m.writesOn a s)).filterMap fun e => adminEffect e.event.content).dedup.length ↔
      ∃ x ∈ causalHeads (m.writesOn a s), ∃ y ∈ causalHeads (m.writesOn a s),
        adminEffect x.event.content ≠ adminEffect y.event.content := by
    intro s
    rw [two_le_length_dedup]
    constructor
    · rintro ⟨r, hr, r', hr', hne⟩
      obtain ⟨x, hx, hxr⟩ := List.mem_filterMap.mp hr
      obtain ⟨y, hy, hyr⟩ := List.mem_filterMap.mp hr'
      exact ⟨x, hx, y, hy, by rw [hxr, hyr]; simpa using hne⟩
    · rintro ⟨x, hx, y, hy, hne⟩
      obtain ⟨r, hr⟩ := heffect s x hx
      obtain ⟨r', hr'⟩ := heffect s y hy
      refine ⟨r, List.mem_filterMap.mpr ⟨x, hx, hr⟩, r', List.mem_filterMap.mpr ⟨y, hy, hr'⟩, fun heq => hne ?_⟩
      rw [hr, hr', heq]
  rw [adminDivergence, List.findSome?_isSome_iff]
  constructor
  · rintro ⟨⟨s, group⟩, hmem, hsome⟩
    have hget := OrdMap.mem_entries.mp hmem
    rw [adminWrites_get?] at hget
    split_ifs at hget with hnil
    rw [← Option.some.inj hget] at hsome
    dsimp only at hsome
    split_ifs at hsome with hlt htwo
    · cases hsome
    · exact ⟨s, (hgroup s).mp htwo⟩
    · cases hsome
  · rintro ⟨s, hdiff⟩
    have htwo := (hgroup s).mpr hdiff
    obtain ⟨x, hx, -⟩ := hdiff
    have hne : m.writesOn a s ≠ [] := List.ne_nil_of_mem (List.mem_of_mem_filter hx)
    refine ⟨(s, m.writesOn a s), OrdMap.mem_entries.mpr ?_, ?_⟩
    · rw [adminWrites_get?, if_neg hne]
    · dsimp only
      rw [if_neg (hlen _ htwo), if_pos htwo]
      rfl

theorem WF.adminDivergence_iff (h : WF m) : (m.adminDivergence a).isSome = true ↔ m.Diverges a := by
  rw [adminDivergence_isSome]
  constructor
  · rintro ⟨s, x, hx, y, hy, hne⟩
    have hxmax := (h.mem_writeHeads.mp hx).2
    have hymax := (h.mem_writeHeads.mp hy).2
    refine ⟨s, x.id, x.event, y.id, y.event, hxmax, hymax, hxmax.concurrent hymax fun heq => ?_, hne⟩
    have hevents := hxmax.1.event
    rw [heq, hymax.1.event, Option.some.injEq] at hevents
    exact hne (by rw [hevents])
  · rintro ⟨s, i, e, j, e', hi, hj, -, hne⟩
    obtain ⟨x, hx, rfl, rfl⟩ := hi.1.exists_entry
    obtain ⟨y, hy, rfl, rfl⟩ := hj.1.exists_entry
    exact ⟨s, x, h.mem_writeHeads.mpr ⟨(mem_writesOn.mp hx).1, hi⟩, y,
      h.mem_writeHeads.mpr ⟨(mem_writesOn.mp hy).1, hj⟩, hne⟩

theorem LinearWrites.not_diverges (h : m.LinearWrites a) : ¬ m.Diverges a := by
  rintro ⟨s, i, e, j, e', hi, hj, ⟨hne, hij, hji⟩, -⟩
  obtain ⟨line, hchain, hall⟩ := h
  have htrans : IsTrans EventId (Staged.Below m.deps) := ⟨fun _ _ _ h₁ h₂ => h₁.trans h₂⟩
  have hsymm : Std.Symm fun x y => Staged.Below m.deps x y ∨ Staged.Below m.deps y x := ⟨fun _ _ => Or.symm⟩
  have hpair : line.Pairwise fun x y => Staged.Below m.deps x y ∨ Staged.Below m.deps y x :=
    (List.isChain_iff_pairwise.mp hchain).imp Or.inl
  rcases hpair.forall (hall s i e hi.1) (hall s j e' hj.1) hne with hbelow | hbelow
  · exact hij hbelow
  · exact hji hbelow

theorem WF.adminDivergence_eq (h : WF m) (h' : WF m') (hevents : m.event? = m'.event?) (hresults : m.result = m'.result) :
    m.adminDivergence = m'.adminDivergence := by
  have hentries := h.entries_eq h' hevents hresults
  funext a
  simp only [adminDivergence, adminWrites, hentries]

/-- In every run the detector fires for `a` exactly when two of its maximal accepted writes on one subject are
concurrent and differ in effect. What it returns is the same for every order of the events, with any repetitions, and
it is silent while the writes of `a` form one line. -/
theorem adminDivergence_exact (events : List (ValidatedEvent env room)) (a : IdentityKey)
    (hdet : ∀ v ∈ events, ∀ w ∈ events, v.eventId = w.eventId → v.event = w.event) :
    (((fromEvents events).adminDivergence a).isSome = true ↔ (fromEvents events).Diverges a) ∧
    (∀ events' : List (ValidatedEvent env room), (∀ v, v ∈ events ↔ v ∈ events') →
      (fromEvents events').adminDivergence a = (fromEvents events).adminDivergence a) ∧
    ((fromEvents events).LinearWrites a → (fromEvents events).adminDivergence a = none) := by
  have hs := settled_fromEvents events
  refine ⟨hs.wf.adminDivergence_iff, fun events' hset => ?_, fun hline => ?_⟩
  · have hs' := settled_fromEvents events'
    have hevents := fromEvents_event?_congr hset hdet
    rw [hs.wf.adminDivergence_eq hs'.wf hevents (hs.result_unique hs' hevents)]
  · rw [← Option.not_isSome_iff_eq_none, hs.wf.adminDivergence_iff]
    exact hline.not_diverges

/-- An invite and a removal of one subject on the same parent diverge, in either order of arrival. -/
theorem adminDivergence_exact_forked :
    let invite := (11, Toy.invite 2 7 .member none [10])
    let remove := (12, Toy.remove 2 1 [10])
    (fromEvents (Toy.log [(10, Toy.genesis), invite, remove])).Diverges (Toy.identity 1) ∧
      (fromEvents (Toy.log [remove, invite, (10, Toy.genesis)])).adminDivergence (Toy.identity 1) =
        (fromEvents (Toy.log [(10, Toy.genesis), invite, remove])).adminDivergence (Toy.identity 1) := by
  intro invite remove
  obtain ⟨hiff, horder, -⟩ := adminDivergence_exact (Toy.log [(10, Toy.genesis), invite, remove]) (Toy.identity 1)
    (Toy.log_determined (by decide))
  refine ⟨hiff.mp (by decide +kernel), horder _ fun v => Toy.mem_log_congr fun p => ?_⟩
  clear hiff horder
  clear_value invite remove
  generalize (10, Toy.genesis) = g
  simp only [List.mem_cons, List.not_mem_nil, or_false]
  tauto

end RoomMembership

end IrohRooms
