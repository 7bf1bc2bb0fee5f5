import Mathlib.Order.Lattice
import IrohRooms.Lib.Rounds

/-!
# Turns in a loop of rounds

Once an item has moved, the loop goes on behind it, to the end of the list and then from its start. `Rounds.rest` is
that continuation. It gets to an item that can move when the items in between have had their turn (`exists_turn`), and
each of these has left behind what its turn brings about (`round_visits`). The order in which the items come up behind a
given one is the list rotated; for a list sorted by a key it is read off the keys (`after`).
-/

universe u v w

namespace Rounds

variable {σ : Type u} {α : Type v} (step : σ → α → Option σ)

/-- What is left of a round that has moved, and the rounds after it. -/
def rest (items todo : List α) (fuel : Nat) (s : σ) : σ := loop step items fuel (round step todo s).1

variable {step} {s s' : σ} {items todo : List α} {fuel : Nat}

theorem round_cons_of_none {a : α} (h : step s a = none) (l : List α) :
    (round step (a :: l) s).1 = (round step l s).1 := by
  simp only [round, h]

theorem round_cons_of_some {a : α} (h : step s a = some s') (l : List α) :
    (round step (a :: l) s).1 = (round step l s').1 := by
  simp only [round, h]

theorem round_append (l l' : List α) (s : σ) :
    (round step (l ++ l') s).1 = (round step l' (round step l s).1).1 := by
  induction l generalizing s with
  | nil => rfl
  | cons a l ih =>
    rw [List.cons_append]
    cases hstep : step s a with
    | none => rw [round_cons_of_none hstep, round_cons_of_none hstep, ih]
    | some s' => rw [round_cons_of_some hstep, round_cons_of_some hstep, ih]

theorem loop_still (h : (round step items s).2 = false) (fuel : Nat) : loop step items fuel s = s := by
  cases fuel with
  | zero => rfl
  | succ fuel =>
    unfold loop
    rw [if_neg (by simp [h]), (round_still h).1]

/-- A loop is the rest of a round of which nothing is done yet. -/
theorem loop_succ (items : List α) (fuel : Nat) (s : σ) :
    loop step items (fuel + 1) s = rest step items items fuel s := by
  unfold rest
  conv_lhs => unfold loop
  split_ifs with hmoved
  · rfl
  · have hstill : (round step items s).2 = false := by simpa using hmoved
    rw [(round_still hstill).1, loop_still hstill]

theorem round_keeps {P : σ → Prop} {l : List α}
    (hkeep : ∀ s b s', b ∈ l → P s → step s b = some s' → P s') (hs : P s) : P (round step l s).1 := by
  induction l generalizing s with
  | nil => exact hs
  | cons a l ih =>
    have hrest : ∀ s b s', b ∈ l → P s → step s b = some s' → P s' :=
      fun s b s' hb => hkeep s b s' (List.mem_cons_of_mem _ hb)
    cases hstep : step s a with
    | none =>
      rw [round_cons_of_none hstep]
      exact ih hrest hs
    | some s' =>
      rw [round_cons_of_some hstep]
      exact ih hrest (hkeep s a s' List.mem_cons_self hs hstep)

/-- Every item of a round has its turn: what that leaves behind, moved or not, is there at the end. -/
theorem round_visits {P Q : σ → Prop} {l : List α} {b : α} (hb : b ∈ l)
    (hkeep : ∀ s c s', c ∈ l → P s → step s c = some s' → P s')
    (hmoved : ∀ s s', P s → step s b = some s' → Q s') (hwaits : ∀ s, P s → step s b = none → Q s)
    (hstays : ∀ s c s', c ∈ l → P s → Q s → step s c = some s' → Q s') (hs : P s) : Q (round step l s).1 := by
  obtain ⟨before, after, rfl⟩ := List.append_of_mem hb
  have hP : P (round step before s).1 :=
    round_keeps (fun s c s' hc => hkeep s c s' (List.mem_append_left _ hc)) hs
  have hafter : ∀ c ∈ after, c ∈ before ++ b :: after :=
    fun c hc => List.mem_append_right _ (List.mem_cons_of_mem _ hc)
  have hboth : ∀ t, P t ∧ Q t → Q (round step after t).1 := fun t ht =>
    (round_keeps (P := fun t => P t ∧ Q t) (fun t c t' hc ht hstep =>
      ⟨hkeep t c t' (hafter c hc) ht.1 hstep, hstays t c t' (hafter c hc) ht.1 ht.2 hstep⟩) ht).2
  rw [round_append]
  cases hstep : step (round step before s).1 b with
  | none =>
    rw [round_cons_of_none hstep]
    exact hboth _ ⟨hP, hwaits _ hP hstep⟩
  | some s' =>
    rw [round_cons_of_some hstep]
    exact hboth _ ⟨hkeep _ b s' hb hP hstep, hmoved _ s' hP hstep⟩

theorem loop_keeps {P : σ → Prop} (hkeep : ∀ s b s', b ∈ items → P s → step s b = some s' → P s') (hs : P s) :
    P (loop step items fuel s) := by
  induction fuel generalizing s with
  | zero => exact hs
  | succ fuel ih =>
    unfold loop
    split_ifs
    · exact ih (round_keeps hkeep hs)
    · exact round_keeps hkeep hs

/-- What every move keeps holds at the end of the rest. -/
theorem rest_keeps {P : σ → Prop} (htodo : ∀ b ∈ todo, b ∈ items)
    (hkeep : ∀ s b s', b ∈ items → P s → step s b = some s' → P s') (hs : P s) :
    P (rest step items todo fuel s) :=
  loop_keeps hkeep (round_keeps (fun s b s' hb => hkeep s b s' (htodo b hb)) hs)

theorem exists_split_of_mem_roundMoves {l : List α} {a : α} {t : σ} (h : (t, a) ∈ roundMoves step l s) :
    ∃ before after t', l = before ++ a :: after ∧ t = (round step before s).1 ∧ step t a = some t' := by
  induction l generalizing s with
  | nil => cases h
  | cons b l ih =>
    unfold roundMoves at h
    cases hstep : step s b with
    | none =>
      rw [hstep] at h
      obtain ⟨before, after, t', rfl, ht, hmove⟩ := ih h
      exact ⟨b :: before, after, t', rfl, by rw [ht, round_cons_of_none hstep], hmove⟩
    | some s' =>
      rw [hstep] at h
      rcases List.mem_cons.mp h with heq | h
      · obtain ⟨rfl, rfl⟩ := Prod.mk.inj heq
        exact ⟨[], l, s', rfl, rfl, hstep⟩
      · obtain ⟨before, after, t', rfl, ht, hmove⟩ := ih h
        exact ⟨b :: before, after, t', rfl, by rw [ht, round_cons_of_some hstep], hmove⟩

/-- An item of a rotated list stands in the part that was moved to the back, or in the part before it. -/
theorem split_turn {passed pre post : List α} {x : α} (h : todo ++ passed = pre ++ x :: post) :
    (∃ front, pre = todo ++ front ∧ passed = front ++ x :: post) ∨
      ∃ back, todo = pre ++ x :: back ∧ post = back ++ passed := by
  rcases List.append_eq_append_iff.mp h with ⟨front, hpre, hpassed⟩ | ⟨back, htodo, hpost⟩
  · exact .inl ⟨front, hpre, hpassed⟩
  · cases back with
    | nil => exact .inl ⟨[], by simp [htodo], hpost.symm⟩
    | cons y back =>
      obtain ⟨rfl, hback⟩ := List.cons.inj hpost
      exact .inr ⟨back, htodo, hback⟩

section Measure

variable {μ : σ → Nat} (hμ : ∀ s a s', a ∈ items → step s a = some s' → μ s' < μ s)
include hμ

theorem round_measure_le {l : List α} (hl : ∀ b ∈ l, b ∈ items) (s : σ) : μ (round step l s).1 ≤ μ s := by
  refine round_keeps (P := fun t => μ t ≤ μ s) (fun t b t' hb ht hstep => ?_) (Nat.le_refl _)
  have hlt := hμ t b t' (hl b hb) hstep
  omega

/-- The rest of the loop gets to an item that can move once what comes before it has had its turn. -/
theorem exists_turn {passed pre post : List α} {x : α} (hitems : items = passed ++ todo)
    (hturn : todo ++ passed = pre ++ x :: post) {s' : σ} (hmove : step (round step pre s).1 x = some s')
    (hfuel : μ s < fuel) :
    ∃ before after fuel', items = before ++ x :: after ∧ μ s' < fuel' ∧
      rest step items todo fuel s = rest step items after fuel' s' := by
  have hmem : ∀ b ∈ pre ++ x :: post, b ∈ items := by
    intro b hb
    rw [← hturn, List.mem_append] at hb
    rw [hitems, List.mem_append]
    exact hb.symm
  have hle := round_measure_le hμ (fun b hb => hmem b (List.mem_append_left _ hb)) s
  have hlt := hμ _ x s' (hmem x (List.mem_append_right _ List.mem_cons_self)) hmove
  rcases split_turn hturn with ⟨front, rfl, hpassed⟩ | ⟨back, rfl, -⟩
  · -- the next round takes it
    obtain ⟨fuel, rfl⟩ : ∃ n, fuel = n + 1 := ⟨fuel - 1, by omega⟩
    have hsplit : items = front ++ x :: (post ++ todo) := by
      rw [hitems, hpassed, List.append_assoc, List.cons_append]
    refine ⟨front, post ++ todo, fuel, hsplit, by omega, ?_⟩
    have hnext : rest step items todo (fuel + 1) s = rest step items items fuel (round step todo s).1 :=
      loop_succ items fuel _
    have hround : (round step items (round step todo s).1).1 = (round step (post ++ todo) s').1 := by
      rw [round_append] at hmove
      rw [hsplit, round_append, round_cons_of_some hmove]
    rw [hnext]
    unfold rest
    rw [hround]
  · refine ⟨passed ++ pre, back, fuel, by rw [hitems, List.append_assoc], by omega, ?_⟩
    unfold rest
    rw [round_append, round_cons_of_some hmove]

/-- Behind every move comes the rest of the loop. -/
theorem exists_rest {a : α} {t : σ} (h : (t, a) ∈ moves step items fuel s) (hfuel : μ s < fuel) :
    ∃ before after fuel' t', items = before ++ a :: after ∧ step t a = some t' ∧ μ t' < fuel' ∧
      loop step items fuel s = rest step items after fuel' t' := by
  induction fuel generalizing s with
  | zero => cases h
  | succ fuel ih =>
    unfold moves at h
    rcases List.mem_append.mp h with h | h
    · obtain ⟨before, after, t', hsplit, rfl, hmove⟩ := exists_split_of_mem_roundMoves h
      have hmem : ∀ b ∈ before, b ∈ items := fun b hb => hsplit ▸ List.mem_append_left _ hb
      have hle := round_measure_le hμ hmem s
      have hlt := hμ _ a t' (hsplit ▸ List.mem_append_right _ List.mem_cons_self) hmove
      refine ⟨before, after, fuel, t', hsplit, hmove, by omega, ?_⟩
      rw [loop_succ]
      unfold rest
      have hround : (round step items s).1 = (round step after t').1 := by
        rw [hsplit, round_append, round_cons_of_some hmove]
      rw [hround]
    · split_ifs at h with hmoved
      · have hlt := (round_le hμ s).2 hmoved
        obtain ⟨before, after, fuel', t', hsplit, hmove, hlt', hrest⟩ := ih h (by omega)
        refine ⟨before, after, fuel', t', hsplit, hmove, hlt', ?_⟩
        unfold loop
        rw [if_pos hmoved]
        exact hrest
      · cases h

end Measure

/-! ### Turns by a key -/

section Keys

variable {κ : Type w} [LinearOrder κ] (key : α → κ)

/-- The items in the order in which they come up behind the key. -/
def after (items : List α) (k : κ) : List α :=
  (items.filter fun a => decide (k < key a)) ++ items.filter fun a => decide (key a ≤ k)

variable {key}

theorem after_eq {a : α} {before behind : List α}
    (hsorted : (before ++ a :: behind).Pairwise fun a b => key a < key b) :
    after key (before ++ a :: behind) (key a) = behind ++ (before ++ [a]) := by
  obtain ⟨-, hrest, hcross⟩ := List.pairwise_append.mp hsorted
  have hbehind : ∀ b ∈ behind, key a < key b := fun b hb => (List.pairwise_cons.mp hrest).1 b hb
  have hbefore : ∀ b ∈ before, key b < key a := fun b hb => hcross b hb a List.mem_cons_self
  have hlater : (before ++ a :: behind).filter (fun b => decide (key a < key b)) = behind := by
    rw [List.filter_append, List.filter_cons_of_neg (by simp), List.filter_eq_nil_iff.mpr, List.nil_append,
      List.filter_eq_self.mpr]
    · exact fun b hb => decide_eq_true (hbehind b hb)
    · exact fun b hb => by simpa using le_of_lt (hbefore b hb)
  have hearlier : (before ++ a :: behind).filter (fun b => decide (key b ≤ key a)) = before ++ [a] := by
    rw [List.filter_append, List.filter_cons_of_pos (by simp), List.filter_eq_self.mpr, List.filter_eq_nil_iff.mpr]
    · exact fun b hb => by simpa using hbehind b hb
    · exact fun b hb => decide_eq_true (le_of_lt (hbefore b hb))
  unfold after
  rw [hlater, hearlier]

end Keys

end Rounds
