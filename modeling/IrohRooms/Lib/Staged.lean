import Mathlib.Logic.Relation

/-!
# Classification along a dependency graph

Items arrive in any order; an item is *ready* once it is known and everything it depends on is ready
(`Ready`, a least fixpoint, so an item on a cycle or above a missing one never is). A worklist that
classifies ready items computes a `Solution`: exactly the ready items have a result, and each result is the
rule's value at the current results. If the rule reads only what lies `Below` an item, there is at most one
solution (`Solution.unique`), hence the order in which the worklist ran does not matter.
-/

namespace Staged

variable {ι ρ : Type*} (deps : ι → Option (List ι))

/-- `a` is a direct dependency of the known item `i`. -/
def Dep (a i : ι) : Prop := ∃ ds, deps i = some ds ∧ a ∈ ds

/-- `a` is reached from `i` by one or more dependency steps. -/
def Below : ι → ι → Prop := Relation.TransGen (Dep deps)

/-- `i` is known and everything it depends on is ready. -/
inductive Ready : ι → Prop
  | intro {i : ι} {ds : List ι} (hknown : deps i = some ds) (hdeps : ∀ d ∈ ds, Ready d) : Ready i

variable {deps}

theorem Below.of_dep {a i : ι} (h : Dep deps a i) : Below deps a i := Relation.TransGen.single h

theorem Below.trans {a b c : ι} (h : Below deps a b) (h' : Below deps b c) : Below deps a c :=
  Relation.TransGen.trans h h'

/-- The last step of a path up to `i`. -/
theorem Below.cases {a i : ι} (h : Below deps a i) : ∃ d, Dep deps d i ∧ (a = d ∨ Below deps a d) := by
  rcases h with h | ⟨h, hd⟩
  · exact ⟨a, h, Or.inl rfl⟩
  · exact ⟨_, hd, Or.inr h⟩

theorem Ready.of_dep {a i : ι} (h : Ready deps i) (hd : Dep deps a i) : Ready deps a := by
  obtain ⟨hknown, hdeps⟩ := h
  obtain ⟨ds, hds, hmem⟩ := hd
  rw [hknown, Option.some.injEq] at hds
  exact hdeps a (hds ▸ hmem)

theorem Ready.of_below {a i : ι} (h : Ready deps i) (hb : Below deps a i) : Ready deps a := by
  induction hb with
  | single hd => exact h.of_dep hd
  | tail _ hd ih => exact ih (h.of_dep hd)

theorem Ready.acc {i : ι} (h : Ready deps i) : Acc (Below deps) i := by
  refine Acc.transGen ?_
  induction h with
  | intro hknown _ ih =>
    refine Acc.intro _ fun a ⟨ds, hds, hmem⟩ => ?_
    rw [hknown, Option.some.injEq] at hds
    exact ih a (hds ▸ hmem)

theorem Ready.not_below_self {i : ι} (h : Ready deps i) : ¬ Below deps i i := by
  have hacc := h.acc
  induction hacc with
  | intro i _ ih => exact fun hb => ih i hb h hb

/-- Induction over the ready items: the claim may be assumed of everything below. -/
theorem Ready.strongInduction {P : ι → Prop}
    (step : ∀ i, Ready deps i → (∀ a, Below deps a i → P a) → P i) {i : ι} (h : Ready deps i) : P i := by
  have hacc := h.acc
  induction hacc with
  | intro i _ ih => exact step i h fun a ha => ih a ha (h.of_below ha)

/-- More known items, more paths. -/
theorem Below.mono {deps' : ι → Option (List ι)} (hext : ∀ {i ds}, deps i = some ds → deps' i = some ds) {a i : ι}
    (h : Below deps a i) : Below deps' a i := by
  refine Relation.TransGen.mono ?_ a i h
  intro a i ⟨ds, hds, hmem⟩
  exact ⟨ds, hext hds, hmem⟩

/-- More known items, more ready ones. -/
theorem Ready.mono {deps' : ι → Option (List ι)} (hext : ∀ {i ds}, deps i = some ds → deps' i = some ds) {i : ι}
    (h : Ready deps i) : Ready deps' i := by
  induction h with
  | intro hknown _ ih => exact Ready.intro (hext hknown) ih

/-- Above any item of a kind there is one that no listed item of the kind is above. -/
theorem exists_top (lt : ι → ι → Prop) {P : ι → Prop} (htrans : ∀ {a b c}, lt a b → lt b c → lt a c)
    (hirrefl : ∀ a, P a → ¬ lt a a) (l : List ι) {a : ι} (ha : P a) :
    ∃ b, P b ∧ (b = a ∨ lt a b) ∧ ∀ c ∈ l, P c → ¬ lt b c := by
  induction l generalizing a with
  | nil => exact ⟨a, ha, Or.inl rfl, by simp⟩
  | cons c l ih =>
    obtain ⟨b, hb, hab, htop⟩ := ih ha
    by_cases hc : P c ∧ lt b c
    · obtain ⟨d, hd, hcd, htop'⟩ := ih hc.1
      have hac : lt a c := by
        rcases hab with rfl | hab
        · exact hc.2
        · exact htrans hab hc.2
      refine ⟨d, hd, Or.inr ?_, fun x hx hPx hlt => ?_⟩
      · rcases hcd with rfl | hcd
        · exact hac
        · exact htrans hac hcd
      · rcases List.mem_cons.mp hx with rfl | hx
        · rcases hcd with rfl | hcd
          · exact hirrefl _ hPx hlt
          · exact hirrefl _ hPx (htrans hcd hlt)
        · exact htop' x hx hPx hlt
    · refine ⟨b, hb, hab, fun x hx hPx hlt => ?_⟩
      rcases List.mem_cons.mp hx with rfl | hx
      · exact hc ⟨hPx, hlt⟩
      · exact htop x hx hPx hlt

/-! ### Solutions -/

variable (deps) in
/-- Exactly the ready items have a result, and it is the rule's. -/
structure Solution (rule : (ι → Option ρ) → ι → ρ) (st : ι → Option ρ) : Prop where
  ready : ∀ {i r}, st i = some r → Ready deps i
  rule : ∀ {i r}, st i = some r → r = rule st i
  saturated : ∀ {i ds}, deps i = some ds → (∀ d ∈ ds, st d ≠ none) → st i ≠ none

variable {rule : (ι → Option ρ) → ι → ρ} {st st' : ι → Option ρ}

theorem Solution.complete (h : Solution deps rule st) {i : ι} (hi : Ready deps i) : st i ≠ none := by
  induction hi with
  | intro hknown _ ih => exact h.saturated hknown ih

theorem Solution.eq_rule (h : Solution deps rule st) {i : ι} (hi : Ready deps i) :
    st i = some (rule st i) := by
  obtain ⟨r, hr⟩ := Option.ne_none_iff_exists'.mp (h.complete hi)
  rw [hr, ← h.rule hr]

theorem Solution.eq_none (h : Solution deps rule st) {i : ι} (hi : ¬ Ready deps i) : st i = none := by
  cases hst : st i with
  | none => rfl
  | some r => exact absurd (h.ready hst) hi

/-- Two solutions agree when the rule reads results below an item only. -/
theorem Solution.unique (h : Solution deps rule st) (h' : Solution deps rule st')
    (hrule : ∀ i, Ready deps i → (∀ a, Below deps a i → st a = st' a) → rule st i = rule st' i) :
    st = st' := by
  funext i
  by_cases hi : Ready deps i
  · refine Ready.strongInduction (P := fun i => st i = st' i) (fun i hi hbelow => ?_) hi
    rw [h.eq_rule hi, h'.eq_rule hi, hrule i hi hbelow]
  · rw [h.eq_none hi, h'.eq_none hi]

/-! ### Dropping items

A set of solved items closed under dependencies, taken alone, has the same results. -/

section Restrict

variable {deps' : ι → Option (List ι)} {keep : ι → Prop}

theorem Ready.restrict (hsame : ∀ {i}, keep i → deps' i = deps i)
    (hclosed : ∀ {i d}, keep i → Dep deps d i → keep d) {i : ι} (h : Ready deps i) (hi : keep i) :
    Ready deps' i := by
  induction h with
  | intro hknown _ ih =>
    exact Ready.intro ((hsame hi).trans hknown) fun d hd =>
      ih d hd (hclosed hi ⟨_, hknown, hd⟩)

theorem Below.restrict (hsame : ∀ {i}, keep i → deps' i = deps i)
    (hclosed : ∀ {i d}, keep i → Dep deps d i → keep d) {a i : ι} (h : Below deps a i) (hi : keep i) :
    keep a ∧ Below deps' a i := by
  induction h using Relation.TransGen.head_induction_on with
  | single hd =>
    obtain ⟨ds, hds, hmem⟩ := hd
    exact ⟨hclosed hi ⟨ds, hds, hmem⟩, Below.of_dep ⟨ds, (hsame hi).trans hds, hmem⟩⟩
  | head hd _ ih =>
    obtain ⟨hkeep, hb⟩ := ih
    obtain ⟨ds, hds, hmem⟩ := hd
    exact ⟨hclosed hkeep ⟨ds, hds, hmem⟩,
      (Below.of_dep ⟨ds, (hsame hkeep).trans hds, hmem⟩).trans hb⟩

/-- Results of the kept items are unchanged when the others are dropped. -/
theorem Solution.restrict_eq {rule' : (ι → Option ρ) → ι → ρ} (h : Solution deps rule st)
    (h' : Solution deps' rule' st') (hsame : ∀ {i}, keep i → deps' i = deps i)
    (hclosed : ∀ {i d}, keep i → Dep deps d i → keep d)
    (hrule : ∀ {i}, keep i → (∀ a, Below deps a i → st a = st' a) → rule st i = rule' st' i)
    {i : ι} (hi : keep i) (hready : Ready deps i) : st' i = st i := by
  refine Ready.strongInduction (P := fun i => keep i → st' i = st i) (fun i hready hbelow hi => ?_)
    hready hi
  rw [h.eq_rule hready, h'.eq_rule (hready.restrict hsame hclosed hi), hrule hi fun a ha =>
    (hbelow a ha (Below.restrict hsame hclosed ha hi).1).symm]

end Restrict

end Staged
