import Mathlib.Data.List.Infix

/-!
# Conditions met in order along a run

A decision that reads a moving state piece by piece is not a decision about any one state: each piece is read of the
state of its own moment. `Met` says that the pieces were read in order along a run.
-/

namespace IrohRooms.Moments

universe u v

variable {σ : Type u} {ι : Type v} (step : σ → ι → σ)

/-- The conditions hold of states of the run, each of the same state as the one before it or of a later one. -/
def Met : List (σ → Prop) → σ → List ι → Prop
  | [], _, _ => True
  | P :: Ps, s, ls => ∃ before behind, ls = before ++ behind ∧ P (before.foldl step s) ∧
      Met Ps (before.foldl step s) behind

variable {step} {Ps : List (σ → Prop)} {P : σ → Prop} {s : σ} {ls : List ι}

namespace Met

theorem append (h : Met step Ps s ls) (more : List ι) : Met step Ps s (ls ++ more) := by
  induction Ps generalizing s ls with
  | nil => exact trivial
  | cons P Ps ih =>
    obtain ⟨before, behind, rfl, hP, hPs⟩ := h
    exact ⟨before, behind ++ more, List.append_assoc _ _ _, hP, ih hPs⟩

/-- One more condition, met at the end. -/
theorem snoc (h : Met step Ps s ls) (hP : P (ls.foldl step s)) : Met step (Ps ++ [P]) s ls := by
  induction Ps generalizing s ls with
  | nil => exact ⟨ls, [], (List.append_nil _).symm, hP, trivial⟩
  | cons Q Ps ih =>
    obtain ⟨before, behind, rfl, hQ, hPs⟩ := h
    rw [List.foldl_append] at hP
    exact ⟨before, behind, rfl, hQ, ih hPs hP⟩

/-- Every condition is met somewhere. -/
theorem exists_of_mem (h : Met step Ps s ls) (hmem : P ∈ Ps) : ∃ before, before <+: ls ∧ P (before.foldl step s) := by
  induction Ps generalizing s ls with
  | nil => cases hmem
  | cons Q Ps ih =>
    obtain ⟨before, behind, rfl, hQ, hPs⟩ := h
    rcases List.mem_cons.mp hmem with rfl | hmem
    · exact ⟨before, List.prefix_append _ _, hQ⟩
    · obtain ⟨further, hfurther, hP⟩ := ih hPs hmem
      refine ⟨before ++ further, (List.prefix_append_right_inj _).mpr hfurther, ?_⟩
      rw [List.foldl_append]
      exact hP

end Met

end IrohRooms.Moments
