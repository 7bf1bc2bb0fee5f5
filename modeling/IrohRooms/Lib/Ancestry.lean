import Mathlib.Data.List.Perm.Subperm
import Mathlib.Algebra.Order.Ring.Nat
import Mathlib.Logic.Relation

/-!
# Ancestry along parent links

Ids that know their parent, as the nodes of an append-only history do. `chain` walks up from an id to its root and
`reaches` asks whether the walk meets another id; both take fuel. When a rank falls along every link, the number of
known ids is fuel enough for every walk (`Graded.exists_chain`), and links that only gain ids keep every completed walk
(`chain_mono`).
-/

universe u

namespace Ancestry

variable {κ : Type u}

/-- Parent links: `none` for an unknown id, `some none` for a root. -/
abbrev Links (κ : Type u) := κ → Option (Option κ)

/-- The ids met on the way up; `none` at an unknown id and when the fuel runs out. -/
def chain (parent : Links κ) : Nat → Option κ → Option (List κ)
  | _, none => some []
  | 0, some _ => none
  | n + 1, some x => (parent x).bind fun up => (chain parent n up).map (x :: ·)

/-- Whether the way up meets `a`; an unknown id ends it. -/
def reaches [DecidableEq κ] (parent : Links κ) (a : κ) : Nat → Option κ → Bool
  | _, none => false
  | 0, some _ => false
  | n + 1, some x => if x = a then true else reaches parent a n (parent x).join

variable {parent parent' : Links κ} {n m : Nat} {x a : κ} {start : Option κ} {l : List κ}

@[simp] theorem chain_none : chain parent n none = some [] := by
  cases n <;> rfl

@[simp] theorem chain_zero_some : chain parent 0 (some x) = none := rfl

theorem chain_succ_some :
    chain parent (n + 1) (some x) = some l ↔
      ∃ up rest, parent x = some up ∧ chain parent n up = some rest ∧ l = x :: rest := by
  simp only [chain, Option.bind_eq_some_iff, Option.map_eq_some_iff]
  constructor
  · rintro ⟨up, hup, rest, hrest, rfl⟩
    exact ⟨up, rest, hup, hrest, rfl⟩
  · rintro ⟨up, rest, hup, hrest, rfl⟩
    exact ⟨up, hup, rest, hrest, rfl⟩

theorem chain_length_le (h : chain parent n start = some l) : l.length ≤ n := by
  induction n generalizing start l with
  | zero =>
    cases start with
    | none => simp_all
    | some x => simp at h
  | succ n ih =>
    cases start with
    | none => simp_all
    | some x =>
      obtain ⟨up, rest, -, hrest, rfl⟩ := chain_succ_some.mp h
      have := ih hrest
      rw [List.length_cons]
      omega

/-- A completed walk needs no more fuel than the ids it met, in any links that agree on them. -/
theorem chain_mono (hsub : ∀ x up, parent x = some up → parent' x = some up) (h : chain parent n start = some l)
    (hm : l.length ≤ m) : chain parent' m start = some l := by
  induction n generalizing start l m with
  | zero =>
    cases start with
    | none => simp_all
    | some x => simp at h
  | succ n ih =>
    cases start with
    | none => simp_all
    | some x =>
      obtain ⟨up, rest, hup, hrest, rfl⟩ := chain_succ_some.mp h
      obtain ⟨m, rfl⟩ : ∃ k, m = k + 1 := ⟨m - 1, by simp at hm; omega⟩
      exact chain_succ_some.mpr ⟨up, rest, hsub x up hup, ih hrest (by simpa using hm), rfl⟩

theorem chain_eq_cons (h : chain parent n (some x) = some l) :
    ∃ up rest, parent x = some up ∧ chain parent n up = some rest ∧ l = x :: rest := by
  cases n with
  | zero => simp at h
  | succ n =>
    obtain ⟨up, rest, hup, hrest, rfl⟩ := chain_succ_some.mp h
    exact ⟨up, rest, hup, chain_mono (fun _ _ => id) hrest ((chain_length_le hrest).trans n.le_succ), rfl⟩

theorem known_of_mem_chain (h : chain parent n start = some l) (ha : a ∈ l) : (parent a).isSome := by
  induction n generalizing start l with
  | zero =>
    cases start with
    | none => simp_all
    | some x => simp at h
  | succ n ih =>
    cases start with
    | none => simp_all
    | some x =>
      obtain ⟨up, rest, hup, hrest, rfl⟩ := chain_succ_some.mp h
      rcases List.mem_cons.mp ha with rfl | ha
      · simp [hup]
      · exact ih hrest ha

/-- Only the id a walk starts from can be without a child in it. -/
theorem exists_child_of_mem_chain (h : chain parent n (some x) = some l) (ha : a ∈ l) (hne : a ≠ x) :
    ∃ y, parent y = some (some a) := by
  induction n generalizing x l with
  | zero => simp at h
  | succ n ih =>
    obtain ⟨up, rest, hup, hrest, rfl⟩ := chain_succ_some.mp h
    have ha : a ∈ rest := (List.mem_cons.mp ha).resolve_left hne
    cases up with
    | none => simp_all
    | some y =>
      by_cases hay : a = y
      · exact ⟨x, hay ▸ hup⟩
      · exact ih hrest ha hay

theorem reaches_eq_true_iff [DecidableEq κ] (h : chain parent n start = some l) (hm : l.length ≤ m) :
    reaches parent a m start = true ↔ a ∈ l := by
  induction n generalizing start l m with
  | zero =>
    cases start with
    | none =>
      cases m <;> simp_all [reaches]
    | some x => simp at h
  | succ n ih =>
    cases start with
    | none =>
      cases m <;> simp_all [reaches]
    | some x =>
      obtain ⟨up, rest, hup, hrest, rfl⟩ := chain_succ_some.mp h
      obtain ⟨m, rfl⟩ : ∃ k, m = k + 1 := ⟨m - 1, by simp at hm; omega⟩
      have hlen : rest.length ≤ m := by simpa using hm
      simp only [reaches, hup, Option.join_some, List.mem_cons]
      split_ifs with hxa
      · simp [hxa]
      · rw [ih hrest hlen]
        simp [Ne.symm hxa]

/-! ### Ancestors -/

/-- `a` is met on the way up from `x`. -/
def Above (parent : Links κ) (a x : κ) : Prop := Relation.ReflTransGen (fun a x => parent x = some (some a)) a x

theorem mem_chain_iff (h : chain parent n (some x) = some l) : a ∈ l ↔ Above parent a x := by
  induction n generalizing x l with
  | zero => simp at h
  | succ n ih =>
    obtain ⟨up, rest, hup, hrest, rfl⟩ := chain_succ_some.mp h
    rw [List.mem_cons, Above, Relation.ReflTransGen.cases_tail_iff]
    refine or_congr eq_comm ?_
    cases up with
    | none => simp_all
    | some y =>
      rw [ih hrest]
      constructor
      · intro ha
        exact ⟨y, ha, hup⟩
      · rintro ⟨z, ha, hz⟩
        rw [hup, Option.some.injEq, Option.some.injEq] at hz
        exact hz ▸ ha

/-- The rest of a walk is the walk of the id it continues from. -/
theorem chain_append {l₁ l₂ : List κ} (h : chain parent n (some x) = some (l₁ ++ a :: l₂)) :
    chain parent n (some a) = some (a :: l₂) := by
  induction l₁ generalizing x with
  | nil =>
    obtain ⟨up, rest, -, -, heq⟩ := chain_eq_cons h
    obtain ⟨rfl, rfl⟩ := List.cons.inj heq
    exact h
  | cons b l₁ ih =>
    obtain ⟨up, rest, hup, hrest, heq⟩ := chain_eq_cons h
    obtain ⟨rfl, rfl⟩ := List.cons.inj heq
    cases up with
    | none => simp at hrest
    | some y => exact ih hrest

/-! ### Graded links -/

/-- Every parent is known and of smaller rank. -/
def Graded (parent : Links κ) (rank : κ → Nat) : Prop :=
  ∀ x y, parent x = some (some y) → (parent y).isSome ∧ rank y < rank x

namespace Graded

variable {rank : κ → Nat}

theorem exists_chain_rank (hg : Graded parent rank) (hx : (parent x).isSome) :
    ∃ l, chain parent (rank x + 1) (some x) = some l := by
  induction hr : rank x using Nat.strong_induction_on generalizing x with
  | _ r ih =>
    obtain ⟨up, hup⟩ := Option.isSome_iff_exists.mp hx
    cases up with
    | none => exact ⟨[x], chain_succ_some.mpr ⟨none, [], hup, chain_none, rfl⟩⟩
    | some y =>
      obtain ⟨hy, hlt⟩ := hg x y hup
      obtain ⟨rest, hrest⟩ := ih (rank y) (hr ▸ hlt) hy rfl
      have hle : rest.length ≤ r := (chain_length_le hrest).trans (hr ▸ hlt)
      exact ⟨x :: rest, chain_succ_some.mpr ⟨some y, rest, hup, chain_mono (fun _ _ => id) hrest hle, rfl⟩⟩

theorem rank_le_of_mem_chain (hg : Graded parent rank) (h : chain parent n (some x) = some l) (ha : a ∈ l) :
    rank a ≤ rank x := by
  induction n generalizing x l with
  | zero => simp at h
  | succ n ih =>
    obtain ⟨up, rest, hup, hrest, rfl⟩ := chain_succ_some.mp h
    rcases List.mem_cons.mp ha with rfl | ha
    · exact le_rfl
    · cases up with
      | none => simp_all
      | some y => exact (ih hrest ha).trans (hg x y hup).2.le

theorem nodup_chain (hg : Graded parent rank) (h : chain parent n start = some l) : l.Nodup := by
  induction n generalizing start l with
  | zero =>
    cases start with
    | none => simp_all
    | some x => simp at h
  | succ n ih =>
    cases start with
    | none => simp_all
    | some x =>
      obtain ⟨up, rest, hup, hrest, rfl⟩ := chain_succ_some.mp h
      refine List.nodup_cons.mpr ⟨fun hmem => ?_, ih hrest⟩
      cases up with
      | none => simp_all
      | some y =>
        have hle := hg.rank_le_of_mem_chain hrest hmem
        have hlt := (hg x y hup).2
        omega

/-- The number of known ids is fuel enough. -/
theorem exists_chain (hg : Graded parent rank) {ids : List κ} (hids : ∀ x, (parent x).isSome → x ∈ ids)
    (hx : (parent x).isSome) : ∃ l, chain parent ids.length (some x) = some l := by
  obtain ⟨l, hl⟩ := hg.exists_chain_rank hx
  have hsub : l ⊆ ids := fun a ha => hids a (known_of_mem_chain hl ha)
  have hlen : l.length ≤ ids.length := ((hg.nodup_chain hl).subperm hsub).length_le
  exact ⟨l, chain_mono (fun _ _ => id) hl hlen⟩

end Graded

end Ancestry
