import Mathlib.Data.List.Infix

/-!
# Transitions that keep a journal

A transition leads from a state to a state and enters items in a journal. `Story` is some transitions in a row, with all
their entries. When a journal amounts to something entry by entry, what every transition keeps of that at every point is
kept at every point of a story (`Leads`); and an entry may have to meet something where it is entered (`Checked`).
-/

namespace IrohRooms.Journal

universe u v w x

variable {σ : Type u} {δ : Type v} {α : Type w}

/-- Transitions in a row, and what they entered. -/
inductive Story (move : σ → List δ → σ → Prop) : σ → List δ → σ → Prop
  | refl (s : σ) : Story move s [] s
  | tail {s t u : σ} {ds es : List δ} : Story move s ds t → move t es u → Story move s (ds ++ es) u

/-- What a loop enters whose rounds enter `tell`. -/
def told (tell : σ → α → List δ) (step : σ → α → σ) : List α → σ → List δ
  | [], _ => []
  | a :: as, s => tell s a ++ told tell step as (step s a)

variable {move : σ → List δ → σ → Prop} {s t u : σ} {ds es : List δ}

/-- What holds of the entries of every round holds of those of the loop. -/
theorem forall_told {p : δ → Prop} {tell : σ → α → List δ} {step : σ → α → σ} (h : ∀ s a, ∀ d ∈ tell s a, p d)
    (as : List α) (s : σ) : ∀ d ∈ told tell step as s, p d := by
  induction as generalizing s with
  | nil => exact fun _ hd => absurd hd List.not_mem_nil
  | cons a as ih =>
    intro d hd
    rcases List.mem_append.mp hd with hround | hrest
    · exact h s a d hround
    · exact ih (step s a) d hrest

namespace Story

theorem single (h : move s ds t) : Story move s ds t := by
  have htail := (refl s).tail h
  rwa [List.nil_append] at htail

theorem trans (h : Story move s ds t) (h' : Story move t es u) : Story move s (ds ++ es) u := by
  induction h' with
  | refl => rwa [List.append_nil]
  | tail _ hmove ih =>
    rw [← List.append_assoc]
    exact ih.tail hmove

/-- First a transition that enters nothing. -/
theorem after (h : move s [] t) (h' : Story move t es u) : Story move s es u := (single h).trans h'

/-- Last a transition that enters nothing. -/
theorem before (h : Story move s ds t) (h' : move t [] u) : Story move s ds u := by
  have htail := h.tail h'
  rwa [List.append_nil] at htail

/-- The story of a loop, told of a part of its state. -/
theorem foldl {τ : Type x} (view : τ → σ) {tell : τ → α → List δ} {step : τ → α → τ}
    (hstep : ∀ s a, Story move (view s) (tell s a) (view (step s a))) (as : List α) (s : τ) :
    Story move (view s) (told tell step as s) (view (as.foldl step s)) := by
  induction as generalizing s with
  | nil => exact refl (view s)
  | cons a as ih => exact (hstep s a).trans (ih (step s a))

end Story

/-! ### Accounts

What a journal amounts to, entry by entry. -/

section Accounts

variable {β : Type x} (enter : β → δ → β) (P : β → σ → Prop) (Q : β → Prop)

/-- The entries lead to an account with `P` of the state, and the account has `Q` all the way. -/
def Leads (b : β) (es : List δ) (t : σ) : Prop := P (es.foldl enter b) t ∧ ∀ cut, cut <+: es → Q (cut.foldl enter b)

variable {enter P Q} {b : β}

namespace Leads

theorem nil (ht : P b t) (hnow : Q b) : Leads enter P Q b [] t := by
  refine ⟨ht, fun cut hcut => ?_⟩
  rwa [List.prefix_nil.mp hcut]

theorem cons {d : δ} (hnow : Q b) (h : Leads enter P Q (enter b d) es t) : Leads enter P Q b (d :: es) t := by
  obtain ⟨hend, hall⟩ := h
  refine ⟨hend, fun cut hcut => ?_⟩
  rcases List.prefix_cons_iff.mp hcut with rfl | ⟨rest, rfl, hrest⟩
  · exact hnow
  · exact hall rest hrest

theorem append {R : β → σ → Prop} (h : Leads enter R Q b ds s)
    (h' : R (ds.foldl enter b) s → Leads enter P Q (ds.foldl enter b) es t) : Leads enter P Q b (ds ++ es) t := by
  obtain ⟨hend, hlater⟩ := h' h.1
  refine ⟨by rwa [List.foldl_append], fun cut hcut => ?_⟩
  rcases List.prefix_or_prefix_of_prefix hcut (List.prefix_append ds es) with hearly | ⟨rest, rfl⟩
  · exact h.2 cut hearly
  · rw [List.foldl_append]
    exact hlater rest ((List.prefix_append_right_inj ds).mp hcut)

theorem mono {R : β → σ → Prop} (h : Leads enter R Q b es s) (himp : ∀ b, R b s → P b t) : Leads enter P Q b es t :=
  ⟨himp _ h.1, h.2⟩

end Leads

/-- What every transition does, the story does. -/
theorem Story.leads (hnow : ∀ b s, P b s → Q b)
    (hmove : ∀ b s es t, P b s → move s es t → Leads enter P Q b es t)
    (h : Story move s ds t) (hs : P b s) : Leads enter P Q b ds t := by
  induction h with
  | refl => exact .nil hs (hnow _ _ hs)
  | tail _ hnext ih => exact ih.append fun ht => hmove _ _ _ _ ht hnext

end Accounts

/-! ### Checks

What an entry has to meet where it is entered, in terms of the account of the entries before it. -/

section Checks

variable {β : Type x} (enter : β → δ → β) (ok : β → δ → Prop) (P : β → σ → Prop)

/-- Every entry meets what it has to. -/
def Checked : β → List δ → Prop
  | _, [] => True
  | b, d :: ds => ok b d ∧ Checked (enter b d) ds

/-- The entries meet what they have to, and lead to an account with `P` of the state. -/
def Passes (b : β) (es : List δ) (t : σ) : Prop := Checked enter ok b es ∧ P (es.foldl enter b) t

variable {enter ok P} {b : β}

theorem checked_append :
    Checked enter ok b (ds ++ es) ↔ Checked enter ok b ds ∧ Checked enter ok (ds.foldl enter b) es := by
  induction ds generalizing b with
  | nil => exact ⟨fun h => ⟨trivial, h⟩, fun h => h.2⟩
  | cons d ds ih =>
    rw [List.cons_append, Checked, Checked, ih, and_assoc]
    rfl

/-- Entry by entry. -/
theorem checked_iff : Checked enter ok b es ↔ ∀ pre d post, es = pre ++ d :: post → ok (pre.foldl enter b) d := by
  constructor
  · rintro h pre d post rfl
    rw [checked_append] at h
    exact h.2.1
  · intro h
    induction es generalizing b with
    | nil => trivial
    | cons d es ih => exact ⟨h [] d es rfl, ih fun pre d' post hsplit => h (d :: pre) d' post (congrArg _ hsplit)⟩

instance decidableChecked [∀ b d, Decidable (ok b d)] : ∀ b es, Decidable (Checked enter ok b es)
  | _, [] => .isTrue trivial
  | b, d :: ds =>
    have := decidableChecked (enter b d) ds
    inferInstanceAs (Decidable (ok b d ∧ Checked enter ok (enter b d) ds))

namespace Passes

theorem nil (ht : P b t) : Passes enter ok P b [] t := ⟨trivial, ht⟩

theorem cons {d : δ} (hd : ok b d) (h : Passes enter ok P (enter b d) es t) : Passes enter ok P b (d :: es) t :=
  ⟨⟨hd, h.1⟩, h.2⟩

theorem append {R : β → σ → Prop} (h : Passes enter ok R b ds s)
    (h' : ∀ b, R b s → Passes enter ok P b es t) : Passes enter ok P b (ds ++ es) t := by
  obtain ⟨hchecked, hend⟩ := h' _ h.2
  refine ⟨checked_append.mpr ⟨h.1, hchecked⟩, ?_⟩
  rwa [List.foldl_append]

theorem mono {R : β → σ → Prop} (h : Passes enter ok R b es s) (himp : ∀ b, R b s → P b t) :
    Passes enter ok P b es t := ⟨h.1, himp _ h.2⟩

end Passes

end Checks

end IrohRooms.Journal
