import Mathlib.Data.List.Basic
import Mathlib.Data.String.Basic

/-!
# Base32

The encoding of RFC 4648 in the upper-case alphabet and without padding. Five bytes become eight symbols; a last group
of one to four bytes becomes the symbols that hold its bits, the spare bits being zero. The strict decoder refuses
symbols outside the alphabet, lengths no encoding has, and spare bits that are set.
-/

namespace Base32

/-- The symbols of the bytes, as numbers below 32. -/
def toSymbols : List Nat → List Nat
  | a :: b :: c :: d :: e :: rest =>
    [a / 8, a % 8 * 4 + b / 64, b / 2 % 32, b % 2 * 16 + c / 16, c % 16 * 2 + d / 128, d / 4 % 32, d % 4 * 8 + e / 32,
      e % 32] ++ toSymbols rest
  | [a, b, c, d] => [a / 8, a % 8 * 4 + b / 64, b / 2 % 32, b % 2 * 16 + c / 16, c % 16 * 2 + d / 128, d / 4 % 32,
      d % 4 * 8]
  | [a, b, c] => [a / 8, a % 8 * 4 + b / 64, b / 2 % 32, b % 2 * 16 + c / 16, c % 16 * 2]
  | [a, b] => [a / 8, a % 8 * 4 + b / 64, b / 2 % 32, b % 2 * 16]
  | [a] => [a / 8, a % 8 * 4]
  | [] => []

/-- The bytes of the symbols. -/
def ofSymbols : List Nat → Option (List Nat)
  | s :: t :: u :: v :: w :: x :: y :: z :: rest =>
    (ofSymbols rest).map ([s * 8 + t / 4, t % 4 * 64 + u * 2 + v / 16, v % 16 * 16 + w / 2, w % 2 * 128 + x * 4 + y / 8,
      y % 8 * 32 + z] ++ ·)
  | [s, t, u, v, w, x, y] => if y % 8 = 0 then
      some [s * 8 + t / 4, t % 4 * 64 + u * 2 + v / 16, v % 16 * 16 + w / 2, w % 2 * 128 + x * 4 + y / 8] else none
  | [s, t, u, v, w] => if w % 2 = 0 then
      some [s * 8 + t / 4, t % 4 * 64 + u * 2 + v / 16, v % 16 * 16 + w / 2] else none
  | [s, t, u, v] => if v % 16 = 0 then some [s * 8 + t / 4, t % 4 * 64 + u * 2 + v / 16] else none
  | [s, t] => if t % 4 = 0 then some [s * 8 + t / 4] else none
  | [] => some []
  | _ => none

theorem toSymbols_lt {bs : List Nat} (h : ∀ b ∈ bs, b < 256) : ∀ s ∈ toSymbols bs, s < 32 := by
  fun_induction toSymbols bs with
  | case1 a b c d e rest ih =>
    simp only [List.forall_mem_cons] at h
    intro s hs
    rcases List.mem_append.mp hs with hs | hs
    · simp only [List.mem_cons, List.not_mem_nil, or_false] at hs
      omega
    · exact ih h.2.2.2.2.2 s hs
  | _ =>
    simp only [List.forall_mem_cons, List.not_mem_nil, false_implies, implies_true, and_true] at h ⊢
    try omega

theorem ofSymbols_toSymbols {bs : List Nat} (h : ∀ b ∈ bs, b < 256) : ofSymbols (toSymbols bs) = some bs := by
  fun_induction toSymbols bs with
  | case1 a b c d e rest ih =>
    simp only [List.forall_mem_cons] at h
    have hrest := ih h.2.2.2.2.2
    simp only [List.cons_append, List.nil_append, ofSymbols, hrest, Option.map_some, Option.some.injEq, List.cons.injEq,
      and_true]
    omega
  | case6 => rfl
  | _ =>
    simp only [List.forall_mem_cons, List.not_mem_nil, false_implies, implies_true, and_true] at h
    simp only [ofSymbols]
    rw [if_pos (by omega)]
    simp only [Option.some.injEq, List.cons.injEq, and_true]
    omega

/-! ### The alphabet -/

def charOf (s : Nat) : Char := if s < 26 then Char.ofNat (65 + s) else Char.ofNat (24 + s)

/-- The symbol of an ASCII byte. -/
def symbolOf (b : UInt8) : Option Nat :=
  if 65 ≤ b.toNat ∧ b.toNat ≤ 90 then some (b.toNat - 65)
  else if 50 ≤ b.toNat ∧ b.toNat ≤ 55 then some (b.toNat - 24)
  else none

def encode (bs : List UInt8) : String := String.ofList ((toSymbols (bs.map UInt8.toNat)).map charOf)

def decode (text : List UInt8) : Option (List UInt8) :=
  (text.mapM symbolOf).bind fun symbols => (ofSymbols symbols).map (List.map UInt8.ofNat)

theorem charOf_mem : ∀ s < 32, ('A' ≤ charOf s ∧ charOf s ≤ 'Z') ∨ ('2' ≤ charOf s ∧ charOf s ≤ '7') := by decide

theorem encode_alphabet (bs : List UInt8) :
    ∀ c ∈ (encode bs).toList, ('A' ≤ c ∧ c ≤ 'Z') ∨ ('2' ≤ c ∧ c ≤ '7') := by
  intro c hc
  rw [encode, String.toList_ofList] at hc
  obtain ⟨s, hs, rfl⟩ := List.mem_map.mp hc
  refine charOf_mem s (toSymbols_lt ?_ s hs)
  intro b hb
  obtain ⟨x, -, rfl⟩ := List.mem_map.mp hb
  exact x.toNat_lt

/-- The UTF-8 form of a string of ASCII characters. -/
theorem utf8_ascii {cs : List Char} (h : ∀ c ∈ cs, c.toNat < 128) :
    (String.ofList cs).toUTF8.data.toList = cs.map fun c => UInt8.ofNat c.toNat := by
  have hone : ∀ c ∈ cs, String.utf8EncodeChar c = [UInt8.ofNat c.toNat] := by
    intro c hc
    have hsize : c.utf8Size = 1 := by
      rw [Char.utf8Size_eq_one_iff]
      exact UInt32.le_iff_toNat_le.mpr (Nat.le_of_lt_succ (h c hc))
    rw [String.utf8EncodeChar_eq_singleton hsize]
    rfl
  have hbytes : (String.ofList cs).toUTF8 = (cs.flatMap String.utf8EncodeChar).toByteArray := rfl
  rw [hbytes, List.toList_data_toByteArray, List.flatMap_congr hone, List.map_eq_flatMap]

theorem charOf_lt : ∀ s < 32, (charOf s).toNat < 128 := by decide

theorem symbolOf_charOf : ∀ s < 32, symbolOf (UInt8.ofNat (charOf s).toNat) = some s := by decide

/-- What was encoded is decoded. -/
theorem decode_encode (bs : List UInt8) : decode (encode bs).toUTF8.data.toList = some bs := by
  have hbytes : ∀ b ∈ bs.map UInt8.toNat, b < 256 := by
    intro b hb
    obtain ⟨x, -, rfl⟩ := List.mem_map.mp hb
    exact x.toNat_lt
  have hlt := toSymbols_lt hbytes
  have hascii : ∀ c ∈ (toSymbols (bs.map UInt8.toNat)).map charOf, c.toNat < 128 := by
    intro c hc
    obtain ⟨s, hs, rfl⟩ := List.mem_map.mp hc
    exact charOf_lt s (hlt s hs)
  have hsymbols : ∀ l : List Nat, (∀ s ∈ l, s < 32) →
      ((l.map charOf).map fun c => UInt8.ofNat c.toNat).mapM symbolOf = some l := by
    intro l hl
    induction l with
    | nil => rfl
    | cons s l ih =>
      rw [List.forall_mem_cons] at hl
      rw [List.map_cons, List.map_cons, List.mapM_cons, symbolOf_charOf s hl.1, ih hl.2]
      rfl
  have hback : (bs.map UInt8.toNat).map UInt8.ofNat = bs := by simp [Function.comp_def]
  rw [decode, encode, utf8_ascii hascii, hsymbols _ hlt, Option.bind_some, ofSymbols_toSymbols hbytes, Option.map_some,
    hback]

end Base32
