import Mathlib.Tactic.Ring
import IrohRooms.Event.Cbor

/-!
# The codec is exact

What the reader accepts is exactly the image of the encoder: each reading function succeeds with `x` if and only if the
cursor spans the encoding of `x` and `x` obeys the profile, one lemma each in the order of the reader. On values with
keys in canonical order `decodeCanonical` inverts `encode`; the encoder sorts the keys of any other value.
-/

namespace IrohRooms

namespace Cbor

/-! ### Bytes -/

/-- Decoding and encoding UTF-8 are inverse. -/
theorem fromUtf8_eq_some {b : Bytes} {s : String} : fromUtf8 b = some s ↔ asBytes s = b := by
  have hbytes : ∀ a : ByteArray, a.data.toList = b ↔ a = ⟨b.toArray⟩ := by
    intro a
    constructor
    · intro h
      subst h
      rfl
    · intro h
      rw [h]
  unfold fromUtf8 asBytes String.fromUTF8?
  rw [hbytes, String.toUTF8_eq_toByteArray]
  constructor
  · intro h
    split_ifs at h with hvalid
    rw [← Option.some.inj h]
    rfl
  · intro h
    rw [dif_pos (h ▸ s.isValidUTF8)]
    exact congrArg some (String.toByteArray_inj.mp h.symm)

theorem beBytes_succ (n x : Nat) : beBytes (n + 1) x = UInt8.ofNat (x >>> (8 * n)) :: beBytes n x := by
  unfold beBytes
  rw [List.range_succ_eq_map, List.map_cons, List.map_map]
  congr 1
  apply List.map_congr_left
  intro i hi
  have hshift : n + 1 - 1 - (i + 1) = n - 1 - i := by omega
  show UInt8.ofNat (x >>> (8 * (n + 1 - 1 - (i + 1)))) = _
  rw [hshift]

theorem two_pow_eight_mul (n : Nat) : 2 ^ (8 * n) = 256 ^ n := by
  rw [pow_mul]
  rfl

theorem length_beBytes (n x : Nat) : (beBytes n x).length = n := by simp [beBytes]

theorem fromBeBytes_cons (a : UInt8) (b : Bytes) : fromBeBytes (a :: b) = a.toNat * 256 ^ b.length + fromBeBytes b := by
  have hfold : ∀ (b : Bytes) (acc : Nat),
      b.foldl (fun acc x => acc * 256 + x.toNat) acc = acc * 256 ^ b.length + fromBeBytes b := by
    intro b
    unfold fromBeBytes
    induction b with
    | nil => simp
    | cons x b ih =>
      intro acc
      rw [List.foldl_cons, List.foldl_cons, ih, ih (0 * 256 + x.toNat), List.length_cons, pow_succ]
      ring
  exact (hfold b _).trans (by simp)

theorem fromBeBytes_lt (b : Bytes) : fromBeBytes b < 256 ^ b.length := by
  induction b with
  | nil => exact Nat.one_pos
  | cons a b ih =>
    have ha := a.toNat_lt
    rw [fromBeBytes_cons, List.length_cons, pow_succ]
    have hmul : a.toNat * 256 ^ b.length ≤ 255 * 256 ^ b.length := Nat.mul_le_mul_right _ (by omega)
    omega

theorem fromBeBytes_beBytes (n x : Nat) : fromBeBytes (beBytes n x) = x % 256 ^ n := by
  induction n with
  | zero => simp [beBytes, fromBeBytes, Nat.mod_one]
  | succ n ih =>
    have hbyte : (UInt8.ofNat (x >>> (8 * n))).toNat = x / 256 ^ n % 256 := by
      rw [UInt8.toNat_ofNat', Nat.shiftRight_eq_div_pow, two_pow_eight_mul]
    rw [beBytes_succ, fromBeBytes_cons, length_beBytes, ih, hbyte, pow_succ, Nat.mod_mul]
    ring

theorem beBytes_fromBeBytes (b : Bytes) : beBytes b.length (fromBeBytes b) = b := by
  have hmod : ∀ (n x y : Nat), beBytes n (y * 256 ^ n + x) = beBytes n x := by
    intro n
    induction n with
    | zero => simp [beBytes]
    | succ n ih =>
      intro x y
      have hsplit : y * 256 ^ (n + 1) + x = y * 256 * 256 ^ n + x := by ring
      have hpos : 0 < 256 ^ n := Nat.pow_pos (by omega)
      have hdiv : (y * 256 * 256 ^ n + x) / 256 ^ n = x / 256 ^ n + y * 256 := by
        rw [Nat.add_comm, Nat.add_mul_div_right _ _ hpos]
      rw [hsplit, beBytes_succ, beBytes_succ, ih]
      congr 1
      apply UInt8.toNat_inj.mp
      rw [UInt8.toNat_ofNat', UInt8.toNat_ofNat', Nat.shiftRight_eq_div_pow, Nat.shiftRight_eq_div_pow, two_pow_eight_mul,
        hdiv, Nat.add_mul_mod_self_right]
  induction b with
  | nil => rfl
  | cons a b ih =>
    have hlt := fromBeBytes_lt b
    have hpos : 0 < 256 ^ b.length := Nat.pow_pos (by omega)
    have hhead : UInt8.ofNat (fromBeBytes (a :: b) >>> (8 * b.length)) = a := by
      rw [fromBeBytes_cons, Nat.shiftRight_eq_div_pow, two_pow_eight_mul, Nat.add_comm, Nat.add_mul_div_right _ _ hpos,
        Nat.div_eq_of_lt hlt, Nat.zero_add]
      exact UInt8.ofNat_toNat
    rw [List.length_cons, beBytes_succ, hhead, fromBeBytes_cons, hmod, ih]

theorem toNat_headByte {major info : Nat} (hmajor : major < 8) (hinfo : info < 32) :
    (UInt8.ofNat major <<< 5 ||| UInt8.ofNat info).toNat = 32 * major + info := by
  have hor := Nat.two_pow_add_eq_or_of_lt (i := 5) hinfo major
  rw [UInt8.toNat_or, UInt8.toNat_shiftLeft, UInt8.toNat_ofNat', UInt8.toNat_ofNat', Nat.shiftLeft_eq,
    Nat.mod_eq_of_lt (by omega : major < 2 ^ 8), Nat.mod_eq_of_lt (by omega : info < 2 ^ 8)]
  show major * 32 % 256 ||| info = _
  rw [Nat.mod_eq_of_lt (by omega), Nat.mul_comm, ← hor]

theorem toNat_major (a : UInt8) : (a >>> 5).toNat = a.toNat / 32 := by
  rw [UInt8.toNat_shiftRight, Nat.shiftRight_eq_div_pow]
  rfl

theorem toNat_info (a : UInt8) : (a &&& 0x1f).toNat = a.toNat % 32 := by
  rw [UInt8.toNat_and]
  exact Nat.and_two_pow_sub_one_eq_mod a.toNat 5

theorem byte_join {major info : Nat} (hmajor : major < 8) (hinfo : info < 32) :
    ((UInt8.ofNat major <<< 5 ||| UInt8.ofNat info) >>> 5).toNat = major ∧
    ((UInt8.ofNat major <<< 5 ||| UInt8.ofNat info) &&& 0x1f).toNat = info := by
  rw [toNat_major, toNat_info, toNat_headByte hmajor hinfo]
  omega

theorem major_lt (a : UInt8) : (a >>> 5).toNat < 8 := by
  have ha : a.toNat < 256 := a.toNat_lt
  rw [toNat_major]
  omega

/-- A byte is its major type and its additional information. -/
theorem byte_split (a : UInt8) : UInt8.ofNat (a >>> 5).toNat <<< 5 ||| UInt8.ofNat (a &&& 0x1f).toNat = a := by
  have hinfo : (a &&& 0x1f).toNat < 32 := by
    rw [toNat_info]
    omega
  apply UInt8.toNat_inj.mp
  rw [toNat_headByte (major_lt a) hinfo, toNat_major, toNat_info]
  omega

/-! ### Heads -/

/-- From `r` to `r'` lie the bytes `s`, and every position fits a `usize`. -/
abbrev Reads (r : Reader) (s : Bytes) (r' : Reader) : Prop := r.Spans usizeMax s r'

theorem reads_append {r r'' : Reader} {s t : Bytes} : Reads r (s ++ t) r'' ↔ ∃ r', Reads r s r' ∧ Reads r' t r'' :=
  Cursor.spans_append

theorem take_eq_ok {r r' : Reader} {n : Nat} {s : Bytes} : r.take n = .ok (s, r') ↔ s.length = n ∧ Reads r s r' := by
  unfold Reader.take
  constructor
  · intro h
    split_ifs at h with hlimit hlen
    cases h
    have hlength : ((r.buf.drop r.pos).take n).length = n := by
      rw [List.length_take, List.length_drop]
      omega
    refine ⟨hlength, rfl, ?_, ⟨?_, ?_⟩, ?_⟩
    · rw [hlength]
    · show r.pos + n ≤ r.buf.length
      omega
    · show r.pos + n ≤ usizeMax
      omega
    · rw [hlength]
  · intro ⟨hlen, h⟩
    have hpos := h.pos
    have hvalid := h.valid
    unfold Cursor.Valid at hvalid
    rw [h.buf] at hvalid
    have heq : r' = ⟨r.buf, r.pos + n⟩ := by
      rw [← hlen, ← hpos, ← h.buf]
    rw [if_neg (by omega), if_neg (by omega), heq, ← hlen, h.items]

theorem readU8_eq_ok {r r' : Reader} {a : UInt8} : r.readU8 = .ok (a, r') ↔ Reads r [a] r' := by
  unfold Reader.readU8
  rw [bind_eq_ok_iff]
  constructor
  · intro ⟨⟨s, r₁⟩, htake, h⟩
    cases h
    obtain ⟨hlen, hreads⟩ := take_eq_ok.mp htake
    obtain ⟨a, rfl⟩ := List.length_eq_one_iff.mp hlen
    exact hreads
  · intro h
    exact ⟨⟨[a], r'⟩, take_eq_ok.mpr ⟨rfl, h⟩, rfl⟩

/-- A wide argument is read back exactly when it needs its width. -/
theorem readWide_eq_ok {r r' : Reader} {width short arg : Nat} :
    r.readWide width short = .ok (arg, r') ↔
      short < arg ∧ arg < 256 ^ width ∧ Reads r (beBytes width arg) r' := by
  unfold Reader.readWide
  rw [bind_eq_ok_iff]
  constructor
  · intro ⟨⟨s, r₁⟩, htake, h⟩
    dsimp only at h
    split_ifs at h with hshort
    cases h
    obtain ⟨rfl, hreads⟩ := take_eq_ok.mp htake
    exact ⟨by omega, fromBeBytes_lt s, by rwa [beBytes_fromBeBytes]⟩
  · intro ⟨hshort, hlt, hreads⟩
    refine ⟨⟨beBytes width arg, r'⟩, take_eq_ok.mpr ⟨length_beBytes _ _, hreads⟩, ?_⟩
    dsimp only
    rw [fromBeBytes_beBytes, Nat.mod_eq_of_lt hlt, if_neg (by omega)]
    rfl

/-- The shortest form of an argument: the additional information and the bytes that follow. -/
inductive Form (arg : Nat) : Nat → Bytes → Prop
  | here (h : arg ≤ 23) : Form arg arg []
  | one (h : 23 < arg) (hlt : arg < 256 ^ 1) : Form arg 24 (beBytes 1 arg)
  | two (h : 0xFF < arg) (hlt : arg < 256 ^ 2) : Form arg 25 (beBytes 2 arg)
  | four (h : 0xFFFF < arg) (hlt : arg < 256 ^ 4) : Form arg 26 (beBytes 4 arg)
  | eight (h : 0xFFFFFFFF < arg) (hlt : arg < 256 ^ 8) : Form arg 27 (beBytes 8 arg)

theorem exists_form {arg : Nat} (h : arg ≤ u64Max) : ∃ info rest, Form arg info rest := by
  unfold u64Max at h
  by_cases h₁ : arg ≤ 23
  · exact ⟨_, _, .here h₁⟩
  by_cases h₂ : arg ≤ 0xFF
  · exact ⟨_, _, .one (by omega) (by omega)⟩
  by_cases h₃ : arg ≤ 0xFFFF
  · exact ⟨_, _, .two (by omega) (by omega)⟩
  by_cases h₄ : arg ≤ 0xFFFFFFFF
  · exact ⟨_, _, .four (by omega) (by omega)⟩
  · exact ⟨_, _, .eight (by omega) (by omega)⟩

theorem Form.info_lt {arg info : Nat} {rest : Bytes} (h : Form arg info rest) : info < 32 := by
  cases h <;> omega

theorem Form.le {arg info : Nat} {rest : Bytes} (h : Form arg info rest) : arg ≤ u64Max := by
  unfold u64Max
  cases h <;> omega

theorem writeHead_eq {arg info : Nat} {rest : Bytes} (h : Form arg info rest) (major : Nat) :
    writeHead major arg = (UInt8.ofNat major <<< 5 ||| UInt8.ofNat info) :: rest := by
  unfold writeHead
  cases h with
  | here h => rw [if_pos h]
  | one h hlt => rw [if_neg (by omega), if_pos (by omega)]; rfl
  | two h hlt => rw [if_neg (by omega), if_neg (by omega), if_pos (by omega)]; rfl
  | four h hlt => rw [if_neg (by omega), if_neg (by omega), if_neg (by omega), if_pos (by omega)]; rfl
  | eight h hlt => rw [if_neg (by omega), if_neg (by omega), if_neg (by omega), if_neg (by omega)]; rfl

theorem readArg_eq_ok {r r' : Reader} (hr : r.Valid usizeMax) {info arg : Nat} :
    r.readArg info = .ok (arg, r') ↔ ∃ rest, Form arg info rest ∧ Reads r rest r' := by
  unfold Reader.readArg
  constructor
  · intro h
    split_ifs at h with h₁ h₂ h₃ h₄ h₅
    · cases h
      exact ⟨[], .here h₁, Cursor.spans_nil.mpr ⟨rfl, hr⟩⟩
    · obtain ⟨hshort, hlt, hreads⟩ := readWide_eq_ok.mp h
      exact ⟨_, h₂ ▸ .one hshort hlt, hreads⟩
    · obtain ⟨hshort, hlt, hreads⟩ := readWide_eq_ok.mp h
      exact ⟨_, h₃ ▸ .two hshort hlt, hreads⟩
    · obtain ⟨hshort, hlt, hreads⟩ := readWide_eq_ok.mp h
      exact ⟨_, h₄ ▸ .four hshort hlt, hreads⟩
    · obtain ⟨hshort, hlt, hreads⟩ := readWide_eq_ok.mp h
      exact ⟨_, h₅ ▸ .eight hshort hlt, hreads⟩
  · intro ⟨rest, hform, hreads⟩
    cases hform with
    | here h => rw [if_pos h, (Cursor.spans_nil.mp hreads).1]
    | one h hlt => exact readWide_eq_ok.mpr ⟨h, hlt, hreads⟩
    | two h hlt => exact readWide_eq_ok.mpr ⟨h, hlt, hreads⟩
    | four h hlt => exact readWide_eq_ok.mpr ⟨h, hlt, hreads⟩
    | eight h hlt => exact readWide_eq_ok.mpr ⟨h, hlt, hreads⟩

theorem readHead_eq_ok {r r' : Reader} {major arg : Nat} :
    r.readHead = .ok ((major, arg), r') ↔ major < 8 ∧ arg ≤ u64Max ∧ Reads r (writeHead major arg) r' := by
  unfold Reader.readHead
  rw [bind_eq_ok_iff]
  constructor
  · intro ⟨⟨initial, r₁⟩, hinitial, h⟩
    obtain ⟨⟨arg', r₂⟩, harg, h⟩ := bind_eq_ok_iff.mp h
    cases h
    have hfirst := readU8_eq_ok.mp hinitial
    obtain ⟨rest, hform, hrest⟩ := (readArg_eq_ok hfirst.valid).mp harg
    refine ⟨major_lt initial, hform.le, ?_⟩
    rw [writeHead_eq hform, byte_split]
    exact Cursor.spans_cons.mpr ⟨r₁, hfirst, hrest⟩
  · intro ⟨hmajor, harg, hreads⟩
    obtain ⟨info, rest, hform⟩ := exists_form harg
    rw [writeHead_eq hform] at hreads
    obtain ⟨r₁, hfirst, hrest⟩ := Cursor.spans_cons.mp hreads
    obtain ⟨hhigh, hlow⟩ := byte_join hmajor hform.info_lt
    refine ⟨_, readU8_eq_ok.mpr hfirst, bind_eq_ok_iff.mpr ⟨(arg, r'), ?_, ?_⟩⟩
    · rw [hlow]
      exact (readArg_eq_ok hfirst.valid).mpr ⟨rest, hform, hrest⟩
    · rw [hhigh]
      rfl

/-! ### Payloads -/

theorem checkedLen_eq_ok {r : Reader} {arg each n : Nat} :
    r.checkedLen arg each = .ok n ↔
      n = arg ∧ arg ≤ usizeMax ∧ arg * each ≤ usizeMax ∧ arg * each ≤ r.buf.length - r.pos := by
  unfold Reader.checkedLen
  split_ifs
  · constructor
    · intro h
      cases h
    · intro h
      omega
  · constructor
    · intro h
      cases h
    · intro h
      omega
  · constructor
    · intro h
      cases h
    · intro h
      omega
  · constructor
    · intro h
      cases h
      omega
    · intro h
      rw [h.1]

theorem lenArg_of_le {n : Nat} (h : n ≤ u64Max) : lenArg n = n := Nat.min_eq_left h

/-- Bytes of a declared length follow the head exactly when the head declares their number. -/
theorem readPayload_eq_ok {r r' : Reader} {arg : Nat} {s : Bytes} :
    (∃ n, r.checkedLen arg 1 = .ok n ∧ r.take n = .ok (s, r')) ↔ arg = s.length ∧ Reads r s r' := by
  constructor
  · intro ⟨n, hlen, htake⟩
    obtain ⟨rfl, -⟩ := checkedLen_eq_ok.mp hlen
    obtain ⟨hlength, hreads⟩ := take_eq_ok.mp htake
    exact ⟨hlength.symm, hreads⟩
  · intro ⟨harg, hreads⟩
    have hroom := hreads.length_le
    refine ⟨arg, checkedLen_eq_ok.mpr ⟨rfl, ?_, ?_, ?_⟩, take_eq_ok.mpr ⟨harg.symm, hreads⟩⟩
    all_goals omega

theorem readText_eq_ok {r r' : Reader} {arg : Nat} {s : String} :
    r.readText arg = .ok (s, r') ↔ arg = (asBytes s).length ∧ Reads r (asBytes s) r' := by
  unfold Reader.readText
  constructor
  · intro h
    obtain ⟨n, hlen, h⟩ := bind_eq_ok_iff.mp h
    obtain ⟨⟨b, r₁⟩, htake, h⟩ := bind_eq_ok_iff.mp h
    dsimp only at h
    split at h
    · rename_i s' hutf
      cases h
      rw [fromUtf8_eq_some.mp hutf]
      exact readPayload_eq_ok.mp ⟨n, hlen, htake⟩
    · cases h
  · intro h
    obtain ⟨n, hlen, htake⟩ := readPayload_eq_ok.mpr h
    refine bind_eq_ok_iff.mpr ⟨n, hlen, bind_eq_ok_iff.mpr ⟨_, htake, ?_⟩⟩
    dsimp only
    rw [fromUtf8_eq_some.mpr rfl]
    rfl

/-! ### Maps -/

theorem readKey_eq_ok {r r' : Reader} {key : String} : r.readKey = .ok (key, r') ↔ Reads r (encodedKey key) r' := by
  unfold Reader.readKey encodedKey
  rw [bind_eq_ok_iff, reads_append]
  constructor
  · intro ⟨⟨⟨major, arg⟩, r₁⟩, hhead, h⟩
    dsimp only at h
    split_ifs at h with hmajor
    obtain ⟨-, hle, hreads⟩ := readHead_eq_ok.mp hhead
    obtain ⟨harg, htext⟩ := readText_eq_ok.mp h
    rw [not_not.mp hmajor, harg] at hreads
    exact ⟨r₁, by rwa [lenArg_of_le (harg ▸ hle)], htext⟩
  · intro ⟨r₁, hhead, htext⟩
    have hlen : (asBytes key).length ≤ u64Max := htext.length_le.2
    rw [lenArg_of_le hlen] at hhead
    refine ⟨_, readHead_eq_ok.mpr ⟨by omega, hlen, hhead⟩, ?_⟩
    dsimp only
    rw [if_neg (not_not.mpr rfl)]
    exact readText_eq_ok.mpr ⟨rfl, htext⟩

theorem checkKey_eq_ok {prev : Option Bytes} {key : Bytes} :
    Reader.checkKey prev key = .ok () ↔ ∀ p ∈ prev, p < key := by
  unfold Reader.checkKey
  cases prev with
  | none => simp
  | some p =>
    dsimp only
    simp only [Option.mem_def, Option.some.injEq, forall_eq']
    split_ifs with hlt heq
    · have hnot : ¬ p < key := List.lt_asymm hlt
      simp [hnot]
    · have hnot : ¬ p < key := heq ▸ List.lt_irrefl _
      simp [hnot]
    · have habove : p < key := by grind
      simp [habove]

/-- The bytes of an entry. -/
def entryBytes (e : String × CborValue) : Bytes := encodedKey e.1 ++ encode e.2

/-- The keys ascend, above the one before them if there is one. -/
def Ascend (prev : Option Bytes) (entries : List (String × CborValue)) : Prop :=
  (entries.map fun e => encodedKey e.1).Pairwise (· < ·) ∧ ∀ p ∈ prev, ∀ e ∈ entries, p < encodedKey e.1

theorem bytes_lt_trans (p q r : Bytes) : p < q → q < r → p < r := List.lt_trans

theorem readEntries_eq_readKeyed (read : Reader → Except CborError (CborValue × Reader)) (n : Nat) (prev : Option Bytes)
    (r : Reader) :
    Reader.readEntries read n prev r = Cursor.readKeyed encodedKey Reader.checkKey Reader.readKey read n prev r := by
  induction n generalizing prev r with
  | zero => rfl
  | succ n ih =>
    unfold Reader.readEntries Cursor.readKeyed
    simp only [ih]

/-! ### Values -/

theorem encodeItems_eq (items : List CborValue) : encodeItems items = items.flatMap encode := by
  induction items with
  | nil => rfl
  | cons v items ih => rw [encodeItems, ih, List.flatMap_cons]

theorem encodeEntries_eq (entries : List (String × CborValue)) :
    encodeEntries entries = entries.map fun e => (encodedKey e.1, encode e.2) := by
  induction entries with
  | nil => rfl
  | cons e entries ih => rw [encodeEntries, ih, List.map_cons]

/-- Entries in canonical order are encoded in the order given. -/
theorem encode_map {entries : List (String × CborValue)} (h : Ascend none entries) :
    encode (.map entries) = writeHead 5 (lenArg entries.length) ++ entries.flatMap entryBytes := by
  have hsorted : sortEntries (encodeEntries entries) = encodeEntries entries := by
    apply List.Pairwise.insertionSort_eq
    rw [encodeEntries_eq, List.pairwise_map]
    exact (List.pairwise_map.mp h.1).imp List.le_of_lt
  rw [encode, hsorted, encodeEntries_eq, List.flatMap_map]
  rfl

theorem depthItems_le {items : List CborValue} {n : Nat} : depthItems items ≤ n ↔ ∀ v ∈ items, depth v < n := by
  induction items with
  | nil => simp [depthItems]
  | cons v items ih =>
    rw [depthItems, max_le_iff, ih, List.forall_mem_cons]
    rfl

theorem depthEntries_le {entries : List (String × CborValue)} {n : Nat} :
    depthEntries entries ≤ n ↔ ∀ e ∈ entries, depth e.2 < n := by
  induction entries with
  | nil => simp [depthEntries]
  | cons e entries ih =>
    rw [depthEntries, max_le_iff, ih, List.forall_mem_cons]
    rfl

theorem orderedItems_iff {items : List CborValue} : OrderedItems items ↔ ∀ v ∈ items, Ordered v := by
  induction items with
  | nil => simp [OrderedItems]
  | cons v items ih =>
    rw [OrderedItems, ih]
    simp

theorem orderedEntries_iff {entries : List (String × CborValue)} :
    OrderedEntries entries ↔ ∀ e ∈ entries, Ordered e.2 := by
  induction entries with
  | nil => simp [OrderedEntries]
  | cons e entries ih =>
    rw [OrderedEntries, ih]
    simp

theorem one_le_length_writeHead (major arg : Nat) : 1 ≤ (writeHead major arg).length := by
  unfold writeHead
  dsimp only
  split_ifs <;> simp

theorem one_le_length_encode (v : CborValue) : 1 ≤ (encode v).length := by
  have hhead : ∀ (major arg : Nat) (rest : Bytes), 1 ≤ (writeHead major arg ++ rest).length := by
    intro major arg rest
    have hle := one_le_length_writeHead major arg
    rw [List.length_append]
    omega
  cases v with
  | uint n => exact one_le_length_writeHead 0 _
  | bytes b => exact hhead 2 _ _
  | text s => exact hhead 3 _ _
  | array items => exact hhead 4 _ _
  | map entries => exact hhead 5 _ _

theorem length_mul_le_flatMap {α : Type} {f : α → Bytes} {k : Nat} (h : ∀ x, k ≤ (f x).length) (l : List α) :
    l.length * k ≤ (l.flatMap f).length := by
  induction l with
  | nil => simp
  | cons x l ih =>
    have hx := h x
    rw [List.flatMap_cons, List.length_append, List.length_cons, Nat.succ_mul]
    omega

section Containers

variable {β : Type} {enc : β → Bytes} {read : Reader → Except CborError (β × Reader)} {P : β → Prop}
  (hpos : ∀ v, 1 ≤ (enc v).length) (hread : ∀ {c x c'}, read c = .ok (x, c') ↔ P x ∧ Reads c (enc x) c')
include hpos hread

/-- Items follow the head exactly when the head declares their number. -/
theorem readItems_eq_ok {r r' : Reader} {arg : Nat} {items : List β} (hr : r.Valid usizeMax) :
    (∃ n, r.checkedLen arg 1 = .ok n ∧ Cursor.readMany read n r = .ok (items, r')) ↔
      arg = items.length ∧ (∀ v ∈ items, P v) ∧ Reads r (items.flatMap enc) r' := by
  constructor
  · intro ⟨n, hlen, hitems⟩
    obtain ⟨rfl, -⟩ := checkedLen_eq_ok.mp hlen
    obtain ⟨hlength, hall, hreads⟩ := (Cursor.readMany_eq_ok hread hr).mp hitems
    exact ⟨hlength.symm, hall, hreads⟩
  · intro ⟨harg, hall, hreads⟩
    have hroom := hreads.length_le
    have hmin := length_mul_le_flatMap hpos items
    refine ⟨arg, checkedLen_eq_ok.mpr ⟨rfl, ?_, ?_, ?_⟩, ?_⟩
    · omega
    · omega
    · omega
    · exact (Cursor.readMany_eq_ok hread hr).mpr ⟨harg.symm, hall, hreads⟩

/-- Entries follow the head exactly when the head declares their number and their keys ascend. -/
theorem readMap_eq_ok {readKey : Reader → Except CborError (String × Reader)}
    (hkey : ∀ {c k c'}, readKey c = .ok (k, c') ↔ Reads c (encodedKey k) c') {r r' : Reader} {arg : Nat}
    {entries : List (String × β)} (hr : r.Valid usizeMax) :
    (∃ n, r.checkedLen arg 2 = .ok n ∧
      Cursor.readKeyed encodedKey Reader.checkKey readKey read n none r = .ok (entries, r')) ↔
      arg = entries.length ∧ (entries.map fun e => encodedKey e.1).Pairwise (· < ·) ∧ (∀ e ∈ entries, P e.2) ∧
        Reads r (entries.flatMap fun e => encodedKey e.1 ++ enc e.2) r' := by
  constructor
  · intro ⟨n, hlen, hentries⟩
    obtain ⟨rfl, -⟩ := checkedLen_eq_ok.mp hlen
    obtain ⟨hlength, hasc, hrest⟩ := (Cursor.readKeyed_eq_ok bytes_lt_trans checkKey_eq_ok hkey hread hr).mp hentries
    exact ⟨hlength.symm, hasc.1, hrest⟩
  · intro ⟨harg, hasc, hall, hreads⟩
    have hroom := hreads.length_le
    have hentry : ∀ e : String × β, 2 ≤ (encodedKey e.1 ++ enc e.2).length := by
      intro e
      have hhead := one_le_length_writeHead 3 (lenArg (asBytes e.1).length)
      have hvalue := hpos e.2
      rw [encodedKey, List.length_append, List.length_append]
      omega
    have hmin := length_mul_le_flatMap hentry entries
    refine ⟨arg, checkedLen_eq_ok.mpr ⟨rfl, ?_, ?_, ?_⟩, ?_⟩
    · omega
    · omega
    · omega
    · exact (Cursor.readKeyed_eq_ok bytes_lt_trans checkKey_eq_ok hkey hread hr).mpr
        ⟨harg.symm, ⟨hasc, by simp⟩, hall, hreads⟩

end Containers

/-- The reader accepts exactly the encodings of the values that are ordered and nest less than its levels. -/
theorem readValue_eq_ok {levels : Nat} {r r' : Reader} {v : CborValue} :
    Reader.readValue levels r = .ok (v, r') ↔ (depth v < levels ∧ Ordered v) ∧ Reads r (encode v) r' := by
  induction levels generalizing r v r' with
  | zero =>
    constructor
    · intro h
      cases h
    · intro h
      omega
  | succ levels ih =>
    unfold Reader.readValue
    rw [bind_eq_ok_iff]
    constructor
    · intro ⟨⟨⟨major, arg⟩, r₁⟩, hhead, h⟩
      obtain ⟨-, hle, hfirst⟩ := readHead_eq_ok.mp hhead
      dsimp only at h
      split at h
      · cases h
        refine ⟨⟨Nat.zero_lt_succ _, trivial⟩, ?_⟩
        have hnum : (UInt64.ofNat arg).toNat = arg := UInt64.toNat_ofNat_of_lt' (Nat.lt_of_le_of_lt hle (by decide))
        rw [encode, hnum]
        exact hfirst
      · cases h
      · obtain ⟨n, hlen, h⟩ := bind_eq_ok_iff.mp h
        obtain ⟨⟨b, r₂⟩, htake, h⟩ := bind_eq_ok_iff.mp h
        cases h
        obtain ⟨rfl, hpayload⟩ := readPayload_eq_ok.mp ⟨n, hlen, htake⟩
        refine ⟨⟨Nat.zero_lt_succ _, trivial⟩, ?_⟩
        rw [encode, lenArg_of_le hle]
        exact reads_append.mpr ⟨r₁, hfirst, hpayload⟩
      · obtain ⟨⟨s, r₂⟩, htext, h⟩ := bind_eq_ok_iff.mp h
        cases h
        obtain ⟨rfl, hpayload⟩ := readText_eq_ok.mp htext
        refine ⟨⟨Nat.zero_lt_succ _, trivial⟩, ?_⟩
        rw [encode, lenArg_of_le hle]
        exact reads_append.mpr ⟨r₁, hfirst, hpayload⟩
      · obtain ⟨n, hlen, h⟩ := bind_eq_ok_iff.mp h
        obtain ⟨⟨items, r₂⟩, hitems, h⟩ := bind_eq_ok_iff.mp h
        cases h
        obtain ⟨rfl, hall, hrest⟩ := (readItems_eq_ok one_le_length_encode ih hfirst.valid).mp ⟨n, hlen, hitems⟩
        refine ⟨⟨?_, ?_⟩, ?_⟩
        · rw [depth, Nat.lt_succ_iff, depthItems_le]
          exact fun v hv => (hall v hv).1
        · rw [Ordered, orderedItems_iff]
          exact fun v hv => (hall v hv).2
        · rw [encode, lenArg_of_le hle, encodeItems_eq]
          exact reads_append.mpr ⟨r₁, hfirst, hrest⟩
      · obtain ⟨n, hlen, h⟩ := bind_eq_ok_iff.mp h
        obtain ⟨⟨entries, r₂⟩, hentries, h⟩ := bind_eq_ok_iff.mp h
        cases h
        rw [readEntries_eq_readKeyed] at hentries
        obtain ⟨rfl, hasc, hall, hrest⟩ := (readMap_eq_ok one_le_length_encode ih readKey_eq_ok hfirst.valid).mp
          ⟨n, hlen, hentries⟩
        refine ⟨⟨?_, ?_⟩, ?_⟩
        · rw [depth, Nat.lt_succ_iff, depthEntries_le]
          exact fun e he => (hall e he).1
        · rw [Ordered, orderedEntries_iff]
          exact ⟨hasc, fun e he => (hall e he).2⟩
        · rw [encode_map ⟨hasc, by simp⟩, lenArg_of_le hle]
          exact reads_append.mpr ⟨r₁, hfirst, hrest⟩
      · cases h
      · cases h
    · intro ⟨⟨hdepth, hord⟩, hreads⟩
      cases v with
      | uint n =>
        have hle : n.toNat ≤ u64Max := Nat.le_of_lt_succ n.toNat_lt
        refine ⟨_, readHead_eq_ok.mpr ⟨by omega, hle, hreads⟩, ?_⟩
        dsimp only
        rw [UInt64.ofNat_toNat]
        rfl
      | bytes b =>
        rw [encode] at hreads
        obtain ⟨r₁, hfirst, hrest⟩ := reads_append.mp hreads
        have hle : b.length ≤ u64Max := hrest.length_le.2
        rw [lenArg_of_le hle] at hfirst
        obtain ⟨n, hlen, htake⟩ := readPayload_eq_ok.mpr ⟨rfl, hrest⟩
        refine ⟨_, readHead_eq_ok.mpr ⟨by omega, hle, hfirst⟩, ?_⟩
        exact bind_eq_ok_iff.mpr ⟨n, hlen, bind_eq_ok_iff.mpr ⟨_, htake, rfl⟩⟩
      | text s =>
        rw [encode] at hreads
        obtain ⟨r₁, hfirst, hrest⟩ := reads_append.mp hreads
        have hle : (asBytes s).length ≤ u64Max := hrest.length_le.2
        rw [lenArg_of_le hle] at hfirst
        refine ⟨_, readHead_eq_ok.mpr ⟨by omega, hle, hfirst⟩, ?_⟩
        exact bind_eq_ok_iff.mpr ⟨_, readText_eq_ok.mpr ⟨rfl, hrest⟩, rfl⟩
      | array items =>
        rw [depth, Nat.lt_succ_iff, depthItems_le] at hdepth
        rw [Ordered, orderedItems_iff] at hord
        rw [encode, encodeItems_eq] at hreads
        obtain ⟨r₁, hfirst, hrest⟩ := reads_append.mp hreads
        obtain ⟨n, hlen, hitems⟩ := (readItems_eq_ok one_le_length_encode ih hfirst.valid).mpr
          ⟨rfl, fun v hv => ⟨hdepth v hv, hord v hv⟩, hrest⟩
        have hle : items.length ≤ u64Max := (checkedLen_eq_ok.mp hlen).2.1
        rw [lenArg_of_le hle] at hfirst
        refine ⟨_, readHead_eq_ok.mpr ⟨by omega, hle, hfirst⟩, ?_⟩
        exact bind_eq_ok_iff.mpr ⟨n, hlen, bind_eq_ok_iff.mpr ⟨_, hitems, rfl⟩⟩
      | map entries =>
        rw [depth, Nat.lt_succ_iff, depthEntries_le] at hdepth
        rw [Ordered, orderedEntries_iff] at hord
        rw [encode_map ⟨hord.1, by simp⟩] at hreads
        obtain ⟨r₁, hfirst, hrest⟩ := reads_append.mp hreads
        obtain ⟨n, hlen, hentries⟩ := (readMap_eq_ok one_le_length_encode ih readKey_eq_ok hfirst.valid).mpr
          ⟨rfl, hord.1, fun e he => ⟨hdepth e he, hord.2 e he⟩, hrest⟩
        rw [← readEntries_eq_readKeyed] at hentries
        have hle : entries.length ≤ u64Max := (checkedLen_eq_ok.mp hlen).2.1
        rw [lenArg_of_le hle] at hfirst
        refine ⟨_, readHead_eq_ok.mpr ⟨by omega, hle, hfirst⟩, ?_⟩
        exact bind_eq_ok_iff.mpr ⟨n, hlen, bind_eq_ok_iff.mpr ⟨_, hentries, rfl⟩⟩

/-- What a reader at the start of the input has passed over is the input exactly when it is at the end. -/
theorem reads_all {input s : Bytes} {r' : Reader} (h : Reads ⟨input, 0⟩ s r') :
    r'.pos = input.length ↔ s = input := by
  have hpos : r'.pos = 0 + s.length := h.pos
  have hitems : input.take s.length = s := h.items
  constructor
  · intro hend
    have hlen : s.length = input.length := by omega
    rw [← hitems, hlen, List.take_length]
  · intro heq
    rw [hpos, heq, Nat.zero_add]

theorem decodeCanonical_eq_ok {b : Bytes} {v : CborValue} :
    decodeCanonical b = .ok v ↔ Encodable v ∧ encode v = b := by
  unfold decodeCanonical
  rw [bind_eq_ok_iff]
  constructor
  · intro ⟨⟨v', r⟩, hread, h⟩
    dsimp only at h
    split_ifs at h with hend
    cases h
    rw [readValue_eq_ok] at hread
    obtain ⟨⟨hdepth, hord⟩, hreads⟩ := hread
    exact ⟨⟨Nat.le_of_lt_succ hdepth, hord, hreads.length_le.2⟩, (reads_all hreads).mp hend⟩
  · intro ⟨⟨hdepth, hord, hfits⟩, heq⟩
    have hreads : Reads ⟨b, 0⟩ (encode v) ⟨b, b.length⟩ := by
      rw [heq] at hfits ⊢
      exact ⟨rfl, (Nat.zero_add _).symm, ⟨le_rfl, hfits⟩, List.take_length⟩
    refine ⟨(v, ⟨b, b.length⟩), ?_, ?_⟩
    · rw [readValue_eq_ok]
      exact ⟨⟨Nat.lt_succ_of_le hdepth, hord⟩, hreads⟩
    · dsimp only
      rw [if_pos rfl]
      rfl

/-- Decoding accepts exactly the encodings of canonical values within the limits, so it undoes encoding there, and no
two byte strings decode to one value. -/
theorem decodeCanonical_exact :
    (∀ b v, decodeCanonical b = .ok v ↔ Encodable v ∧ encode v = b) ∧
    (∀ v, Encodable v → decodeCanonical (encode v) = .ok v) ∧
    ∀ b b' v, decodeCanonical b = .ok v → decodeCanonical b' = .ok v → b = b' := by
  refine ⟨fun _ _ => decodeCanonical_eq_ok, ?_, ?_⟩
  · intro v hv
    rw [decodeCanonical_eq_ok]
    exact ⟨hv, rfl⟩
  · intro b b' v hb hb'
    rw [decodeCanonical_eq_ok] at hb hb'
    rw [← hb.2, ← hb'.2]

/-- A map with its keys in descending order, and the value that its encoding decodes to. -/
def descending : CborValue := .map [("b", .uint 2), ("a", .uint 1)]

def ascending : CborValue := .map [("a", .uint 1), ("b", .uint 2)]

theorem encodable_ascending : Encodable ascending := by
  refine ⟨by decide, ⟨by decide, trivial, trivial, trivial⟩, by decide⟩

theorem decodeCanonical_exact_ascending : Encodable ascending ∧ decodeCanonical (encode ascending) = .ok ascending :=
  ⟨encodable_ascending, decodeCanonical_exact.2.1 ascending encodable_ascending⟩

/-- The encoder sorts the keys, so a value within the depth limit and with unique keys need not come back. -/
theorem decodeCanonical_sorts : depth descending ≤ maxDepth ∧ ["b", "a"].Nodup ∧
    decodeCanonical (encode descending) = .ok ascending ∧ descending ≠ ascending := by
  have hsame : encode descending = encode ascending := by decide
  refine ⟨by decide, by decide, ?_, ?_⟩
  · rw [hsame, decodeCanonical_eq_ok]
    exact ⟨encodable_ascending, rfl⟩
  · intro h
    unfold descending ascending at h
    simp at h

end Cbor

end IrohRooms
