import Mathlib.Data.Int.GCD
import Mathlib.Data.Nat.ModEq
import Mathlib.Tactic.Ring

/-!
# Rotating windows

A window of fixed width that moves by its own width at every turn, over `n` places. A window that wraps around the end
has passed over every place after `⌈n / width⌉` turns. One that is cut off at the end starts at every multiple of the
greatest common divisor of width and `n` within `n` turns, and so passes over every place as well.
-/

namespace Rotation

/-- Some turn among `n` consecutive ones has a given remainder. -/
theorem exists_turn {n : Nat} (hn : 0 < n) (first rest : Nat) :
    ∃ k, first ≤ k ∧ k < first + n ∧ k % n = rest % n := by
  have hlt : first % n < n := Nat.mod_lt _ hn
  refine ⟨first + (rest + (n - first % n)) % n, Nat.le_add_right _ _, ?_, ?_⟩
  · have := Nat.mod_lt (rest + (n - first % n)) hn
    omega
  · have hsum : first + (rest + (n - first % n)) = rest + n * (first / n + 1) := by
      have := Nat.div_add_mod first n
      rw [Nat.mul_add, Nat.mul_one]
      omega
    rw [Nat.add_mod_mod, hsum, Nat.add_mul_mod_self_left]

/-- The wrapping windows of `⌈n / width⌉` consecutive turns pass over every place. -/
theorem exists_wrapping {n width : Nat} (hwidth : 0 < width) (first : Nat) {place : Nat} (hplace : place < n) :
    ∃ k < (n + width - 1) / width, ∃ i < width, ((first + k) * width % n + i) % n = place := by
  have hn : 0 < n := by omega
  -- the distance from the start of the first window, going round
  obtain ⟨d, hd, hdist⟩ : ∃ d < n, (first * width + d) % n = place := by
    obtain ⟨k, hle, hlt, hmod⟩ := exists_turn hn (first * width) place
    refine ⟨k - first * width, by omega, ?_⟩
    rw [Nat.add_sub_cancel' hle, hmod, Nat.mod_eq_of_lt hplace]
  refine ⟨d / width, ?_, d % width, Nat.mod_lt _ hwidth, ?_⟩
  · rw [Nat.div_lt_iff_lt_mul hwidth]
    have hceil : n ≤ (n + width - 1) / width * width := by
      have := Nat.div_add_mod (n + width - 1) width
      have := Nat.mod_lt (n + width - 1) hwidth
      rw [Nat.mul_comm]
      omega
    omega
  · rw [Nat.mod_add_mod, Nat.add_mul, Nat.add_assoc, Nat.div_add_mod', hdist]

/-- The windows of `n` consecutive turns that are cut off at the end pass over every place. -/
theorem exists_cut_off {n width : Nat} (hwidth : 0 < width) (first : Nat) {place : Nat} (hplace : place < n) :
    ∃ k, first ≤ k ∧ k < first + n ∧ k * width % n ≤ place ∧ place < k * width % n + width := by
  have hn : 0 < n := by omega
  have hpos : 0 < Nat.gcd width n := Nat.gcd_pos_of_pos_left n hwidth
  have hle : Nat.gcd width n ≤ width := Nat.gcd_le_left n hwidth
  have hspan : Nat.gcd width n ≤ n := Nat.gcd_le_right width hn
  rcases hspan.lt_or_eq with hlt | heq
  · -- a turn that starts at the last multiple of the divisor up to the place
    obtain ⟨m, -, hm⟩ := Nat.exists_mul_mod_eq_gcd hlt
    obtain ⟨k, hfirst, hlast, hk⟩ := exists_turn hn first (m * (place / Nat.gcd width n))
    have hstart : k * width % n = place / Nat.gcd width n * Nat.gcd width n := by
      have hmul : k * width ≡ place / Nat.gcd width n * (width * m) [MOD n] := by
        have hturn : k ≡ m * (place / Nat.gcd width n) [MOD n] := hk
        have hsame : m * (place / Nat.gcd width n) * width = place / Nat.gcd width n * (width * m) := by ring
        exact hsame ▸ hturn.mul_right width
      have hgcd : place / Nat.gcd width n * (width * m) ≡ place / Nat.gcd width n * Nat.gcd width n [MOD n] := by
        refine Nat.ModEq.mul_left _ ?_
        rw [Nat.ModEq, hm, Nat.mod_eq_of_lt hlt]
      rw [hmul.trans hgcd, Nat.mod_eq_of_lt (lt_of_le_of_lt (Nat.div_mul_le_self place _) hplace)]
    refine ⟨k, hfirst, hlast, ?_, ?_⟩
    · rw [hstart]
      exact Nat.div_mul_le_self _ _
    · rw [hstart]
      have := Nat.div_add_mod' place (Nat.gcd width n)
      have := Nat.mod_lt place hpos
      omega
  · -- the width is a multiple of `n`, so that every window starts at the first place
    have hzero : first * width % n = 0 := by
      have hdvd : n ∣ width := heq ▸ Nat.gcd_dvd_left width n
      exact Nat.mod_eq_zero_of_dvd (hdvd.mul_left first)
    refine ⟨first, le_rfl, by omega, ?_, ?_⟩
    · omega
    · omega

end Rotation
