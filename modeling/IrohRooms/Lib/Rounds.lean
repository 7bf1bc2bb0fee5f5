import Mathlib.Data.List.Basic

/-!
# Rounds over a list of items

`Rounds.loop` offers every item to the state in list order and starts again as long as the last round moved. The moves
it makes are a run from the first state to the last (`follows_loop`): an invariant is checked move by move
(`Follows.invariant`), and what holds at the end and did not at the start was brought about by one of them
(`Follows.exists_move`). When every move uses up some of a measure, more rounds than the measure leave no item that
could still move (`loop_settled`); when a move is final for its item, the items themselves are such a measure
(`loop_settled_of_done`).
-/

universe u v

namespace Rounds

variable {σ : Type u} {α : Type v} (step : σ → α → Option σ)

/-- One round, and whether it moved. -/
def round : List α → σ → σ × Bool
  | [], s => (s, false)
  | a :: items, s =>
    match step s a with
    | none => round items s
    | some s' => ((round items s').1, true)

/-- Round after round until one does not move. -/
def loop (items : List α) : Nat → σ → σ
  | 0, s => s
  | fuel + 1, s => if (round step items s).2 then loop items fuel (round step items s).1 else (round step items s).1

/-- The moves of one round, each with the state before it. -/
def roundMoves : List α → σ → List (σ × α)
  | [], _ => []
  | a :: items, s =>
    match step s a with
    | none => roundMoves items s
    | some s' => (s, a) :: roundMoves items s'

def moves (items : List α) : Nat → σ → List (σ × α)
  | 0, _ => []
  | fuel + 1, s => roundMoves step items s ++ if (round step items s).2 then moves items fuel (round step items s).1 else []

/-- A run: each move starts where the one before it ended. -/
inductive Follows : σ → List (σ × α) → σ → Prop
  | nil (s : σ) : Follows s [] s
  | cons {s s' t : σ} {a : α} {l : List (σ × α)} (h : step s a = some s') (rest : Follows s' l t) :
    Follows s ((s, a) :: l) t

variable {step} {s t : σ} {l : List (σ × α)} {items : List α}

theorem Follows.append {u : σ} {l' : List (σ × α)} (h : Follows step s l t) (h' : Follows step t l' u) :
    Follows step s (l ++ l') u := by
  induction h with
  | nil => exact h'
  | cons hstep _ ih => exact .cons hstep (ih h')

theorem follows_round (items : List α) (s : σ) : Follows step s (roundMoves step items s) (round step items s).1 := by
  induction items generalizing s with
  | nil => exact .nil s
  | cons a items ih =>
    unfold roundMoves round
    cases h : step s a with
    | none => exact ih s
    | some s' => exact .cons h (ih s')

theorem follows_loop (items : List α) (fuel : Nat) (s : σ) :
    Follows step s (moves step items fuel s) (loop step items fuel s) := by
  induction fuel generalizing s with
  | zero => exact .nil s
  | succ fuel ih =>
    unfold moves loop
    split_ifs
    · exact (follows_round items s).append (ih _)
    · exact (follows_round items s).append (.nil _)

theorem mem_of_mem_roundMoves {m : σ × α} (h : m ∈ roundMoves step items s) : m.2 ∈ items := by
  induction items generalizing s with
  | nil => cases h
  | cons a items ih =>
    unfold roundMoves at h
    cases hstep : step s a with
    | none =>
      rw [hstep] at h
      exact List.mem_cons_of_mem _ (ih h)
    | some s' =>
      rw [hstep] at h
      rcases List.mem_cons.mp h with rfl | h
      · exact List.mem_cons_self
      · exact List.mem_cons_of_mem _ (ih h)

theorem mem_of_mem_moves {fuel : Nat} {m : σ × α} (h : m ∈ moves step items fuel s) : m.2 ∈ items := by
  induction fuel generalizing s with
  | zero => cases h
  | succ fuel ih =>
    unfold moves at h
    rcases List.mem_append.mp h with h | h
    · exact mem_of_mem_roundMoves h
    · split_ifs at h
      · exact ih h
      · cases h

/-- What every move keeps holds before each of them and at the end. -/
theorem Follows.invariant {P : σ → Prop} (h : Follows step s l t)
    (hkeep : ∀ m ∈ l, ∀ s', step m.1 m.2 = some s' → P m.1 → P s') (hs : P s) : (∀ m ∈ l, P m.1) ∧ P t := by
  induction h with
  | nil => exact ⟨fun m hm => absurd hm List.not_mem_nil, hs⟩
  | @cons s s' t a l hstep rest ih =>
    have hs' := hkeep (s, a) List.mem_cons_self s' hstep hs
    obtain ⟨hmoves, ht⟩ := ih (fun m hm => hkeep m (List.mem_cons_of_mem _ hm)) hs'
    exact ⟨List.forall_mem_cons.mpr ⟨hs, hmoves⟩, ht⟩

/-- What has come to hold was brought about by a move. -/
theorem Follows.exists_move {Q : σ → Prop} (h : Follows step s l t) (hs : ¬ Q s) (ht : Q t) :
    ∃ m ∈ l, ∃ s', step m.1 m.2 = some s' ∧ ¬ Q m.1 ∧ Q s' := by
  induction h with
  | nil => exact absurd ht hs
  | @cons s s' t a l hstep rest ih =>
    by_cases hs' : Q s'
    · exact ⟨(s, a), List.mem_cons_self, s', hstep, hs, hs'⟩
    · obtain ⟨m, hm, hmove⟩ := ih hs' ht
      exact ⟨m, List.mem_cons_of_mem _ hm, hmove⟩

/-! ### Enough rounds -/

theorem round_still (h : (round step items s).2 = false) : (round step items s).1 = s ∧ ∀ a ∈ items, step s a = none := by
  induction items with
  | nil => exact ⟨rfl, fun a ha => absurd ha List.not_mem_nil⟩
  | cons a items ih =>
    unfold round at h ⊢
    cases hstep : step s a with
    | none =>
      rw [hstep] at h
      obtain ⟨hsame, hrest⟩ := ih h
      exact ⟨hsame, List.forall_mem_cons.mpr ⟨hstep, hrest⟩⟩
    | some s' =>
      rw [hstep] at h
      cases h

section Measure

variable {μ : σ → Nat} (hμ : ∀ s a s', a ∈ items → step s a = some s' → μ s' < μ s)
include hμ

theorem round_le (s : σ) : μ (round step items s).1 ≤ μ s ∧
    ((round step items s).2 = true → μ (round step items s).1 < μ s) := by
  induction items generalizing s with
  | nil => exact ⟨Nat.le_refl _, fun h => by cases h⟩
  | cons a items ih =>
    have ih := fun s => ih (fun s b s' hb => hμ s b s' (List.mem_cons_of_mem _ hb)) s
    unfold round
    cases hstep : step s a with
    | none => exact ih s
    | some s' =>
      have hlt := hμ s a s' List.mem_cons_self hstep
      have hle := (ih s').1
      exact ⟨by dsimp only; omega, fun _ => by dsimp only; omega⟩

/-- With more rounds than the measure allows moves, nothing is left to do. -/
theorem loop_settled {fuel : Nat} (hfuel : μ s < fuel) : ∀ a ∈ items, step (loop step items fuel s) a = none := by
  induction fuel generalizing s with
  | zero => omega
  | succ fuel ih =>
    unfold loop
    split_ifs with hmoved
    · have hlt := (round_le hμ s).2 hmoved
      exact ih (by omega)
    · obtain ⟨hsame, hstill⟩ := round_still (by simpa using hmoved)
      rw [hsame]
      exact hstill

end Measure

/-- When a move is final for its item and undoes no other, one round more than there are items is enough. -/
theorem loop_settled_of_done (done : σ → α → Bool)
    (hdone : ∀ s a s', a ∈ items → step s a = some s' →
      done s a = false ∧ done s' a = true ∧ ∀ b, done s b = true → done s' b = true) :
    ∀ a ∈ items, step (loop step items (items.length + 1) s) a = none := by
  refine loop_settled (μ := fun s => (items.filter fun a => !done s a).length) ?_
    (Nat.lt_succ_of_le (List.length_filter_le _ _))
  intro s a s' ha hstep
  obtain ⟨hopen, hclosed, hkeep⟩ := hdone s a s' ha hstep
  -- the items still open after the move are among those open before it, and `a` is not one of them
  have hsub : (items.filter fun b => !done s' b) = (items.filter fun b => !done s b).filter fun b => !done s' b := by
    rw [List.filter_filter]
    refine List.filter_congr fun b _ => ?_
    cases hb : done s b with
    | false => simp
    | true => simp [hkeep b hb]
  show (items.filter fun b => !done s' b).length < (items.filter fun b => !done s b).length
  rw [hsub, List.length_filter_lt_length_iff_exists]
  exact ⟨a, List.mem_filter.mpr ⟨ha, by simp [hopen]⟩, by simp [hclosed]⟩

end Rounds
