import IrohRooms.Event.CborExact

/-!
# The second codec

The signed records of the second protocol have a codec of their own: the same profile with one simple value, `null`.
Its head reader takes items of major type 7 apart before it reads an argument, and its errors and the rest of the reader
are those of the first codec. What it accepts is again exactly the image of its encoder, and on values without `null`
the two codecs agree: the values of the first are embedded in those of the second (`ofFirst`), and the embedding keeps
the encoding, the depth and the order of keys.
-/

namespace IrohRooms.CborV2

open Cbor (Reader Reads lenArg writeHead encodedKey asBytes sortEntries usizeMax u64Max)

inductive CborValue
  | uint (n : UInt64)
  | bytes (b : Bytes)
  | text (s : String)
  | array (items : List CborValue)
  | map (entries : List (String × CborValue))
  | null

def maxDepth : Nat := 16

/-! ### Encoder -/

mutual

def encode : CborValue → Bytes
  | .uint n => writeHead 0 n.toNat
  | .bytes b => writeHead 2 (lenArg b.length) ++ b
  | .text s => writeHead 3 (lenArg (asBytes s).length) ++ asBytes s
  | .array items => writeHead 4 (lenArg items.length) ++ encodeItems items
  | .map entries =>
    writeHead 5 (lenArg entries.length) ++ (sortEntries (encodeEntries entries)).flatMap fun e => e.1 ++ e.2
  | .null => [0xf6]

def encodeItems : List CborValue → Bytes
  | [] => []
  | v :: items => encode v ++ encodeItems items

/-- Each entry's encoded key and value, before sorting. -/
def encodeEntries : List (String × CborValue) → List (Bytes × Bytes)
  | [] => []
  | (k, v) :: entries => (encodedKey k, encode v) :: encodeEntries entries

end

/-! ### Strict reader -/

/-- Additional information of major type 7: simple values in the byte itself pass, longer ones and floats do not. -/
def readSimple (r : Reader) (info : Nat) : Except CborError ((Nat × Nat) × Reader) :=
  if info ≤ 23 then .ok ((7, info), r)
  else if info = 24 then do
    let _ ← r.readU8
    .error .floatOrSimple
  else if info = 25 then do
    let _ ← r.take 2
    .error .floatOrSimple
  else if info = 26 then do
    let _ ← r.take 4
    .error .floatOrSimple
  else if info = 27 then do
    let _ ← r.take 8
    .error .floatOrSimple
  else if info ≤ 30 then .error .reservedAdditionalInfo
  else .error .indefiniteLength

/-- The head of an item, as major type and argument. -/
def readHead (r : Reader) : Except CborError ((Nat × Nat) × Reader) := do
  let (initial, r) ← r.readU8
  if (initial >>> 5).toNat = 7 then readSimple r (initial &&& 0x1f).toNat
  else do
    let (arg, r) ← r.readArg (initial &&& 0x1f).toNat
    pure (((initial >>> 5).toNat, arg), r)

/-- A map key, which must be a text. -/
def readKey (r : Reader) : Except CborError (String × Reader) := do
  let ((major, arg), r) ← readHead r
  if major ≠ 3 then .error .nonTextMapKey else r.readText arg

/-- One item with at most `levels` levels; depth `d` of the source has `maxDepth + 1 - d` of them. -/
def readValue : Nat → Reader → Except CborError (CborValue × Reader)
  | 0, _ => .error .depthExceeded
  | levels + 1, r => do
    let ((major, arg), r) ← readHead r
    match major with
    | 0 => pure (.uint (UInt64.ofNat arg), r)
    | 1 => .error .negativeInteger
    | 2 => do
      let n ← r.checkedLen arg 1
      let (b, r) ← r.take n
      pure (.bytes b, r)
    | 3 => do
      let (s, r) ← r.readText arg
      pure (.text s, r)
    | 4 => do
      let n ← r.checkedLen arg 1
      let (items, r) ← Cursor.readMany (readValue levels) n r
      pure (.array items, r)
    | 5 => do
      let n ← r.checkedLen arg 2
      let (entries, r) ← Cursor.readKeyed encodedKey Reader.checkKey readKey (readValue levels) n none r
      pure (.map entries, r)
    | 6 => .error .tag
    | 7 => if arg = 22 then pure (.null, r) else .error .floatOrSimple
    | _ => .error .floatOrSimple

/-- Decode exactly one item that takes up the whole input. -/
def decodeCanonical (input : Bytes) : Except CborError CborValue := do
  let (value, r) ← readValue (maxDepth + 1) ⟨input, 0⟩
  if r.pos = input.length then pure value else .error .trailingData

/-! ### Canonical values -/

mutual

/-- How deep arrays and maps nest around the deepest item. -/
def depth : CborValue → Nat
  | .array items => depthItems items
  | .map entries => depthEntries entries
  | _ => 0

def depthItems : List CborValue → Nat
  | [] => 0
  | v :: items => max (depth v + 1) (depthItems items)

def depthEntries : List (String × CborValue) → Nat
  | [] => 0
  | (_, v) :: entries => max (depth v + 1) (depthEntries entries)

end

mutual

/-- Every map inside lists its keys in ascending canonical order. -/
def Ordered : CborValue → Prop
  | .array items => OrderedItems items
  | .map entries => (entries.map fun e => encodedKey e.1).Pairwise (· < ·) ∧ OrderedEntries entries
  | _ => True

def OrderedItems : List CborValue → Prop
  | [] => True
  | v :: items => Ordered v ∧ OrderedItems items

def OrderedEntries : List (String × CborValue) → Prop
  | [] => True
  | (_, v) :: entries => Ordered v ∧ OrderedEntries entries

end

/-- A canonical value within the depth limit whose encoding fits in memory. -/
structure Encodable (v : CborValue) : Prop where
  depth : depth v ≤ maxDepth
  ordered : Ordered v
  fits : (encode v).length ≤ usizeMax

mutual

/-- A `null` occurs in the value. -/
def hasNull : CborValue → Bool
  | .array items => hasNullItems items
  | .map entries => hasNullEntries entries
  | .null => true
  | _ => false

def hasNullItems : List CborValue → Bool
  | [] => false
  | v :: items => hasNull v || hasNullItems items

def hasNullEntries : List (String × CborValue) → Bool
  | [] => false
  | (_, v) :: entries => hasNull v || hasNullEntries entries

end

mutual

/-- The value of the first codec, in the second. -/
def ofFirst : IrohRooms.CborValue → CborValue
  | .uint n => .uint n
  | .bytes b => .bytes b
  | .text s => .text s
  | .array items => .array (ofFirstItems items)
  | .map entries => .map (ofFirstEntries entries)

def ofFirstItems : List IrohRooms.CborValue → List CborValue
  | [] => []
  | v :: items => ofFirst v :: ofFirstItems items

def ofFirstEntries : List (String × IrohRooms.CborValue) → List (String × CborValue)
  | [] => []
  | (k, v) :: entries => (k, ofFirst v) :: ofFirstEntries entries

end

/-! ### The reader is exact -/

theorem readSimple_eq_ok {r r' : Reader} {info major arg : Nat} :
    readSimple r info = .ok ((major, arg), r') ↔ major = 7 ∧ arg = info ∧ info ≤ 23 ∧ r' = r := by
  have hrefused : ∀ {α : Type} (x : Except CborError α) (y : (Nat × Nat) × Reader),
      (x >>= fun _ => (.error .floatOrSimple : Except CborError ((Nat × Nat) × Reader))) ≠ .ok y := by
    intro α x y h
    obtain ⟨_, -, h⟩ := bind_eq_ok_iff.mp h
    cases h
  unfold readSimple
  constructor
  · intro h
    split_ifs at h with hinfo
    · cases h
      exact ⟨rfl, rfl, hinfo, rfl⟩
    all_goals exact absurd h (hrefused _ _)
  · rintro ⟨rfl, rfl, hinfo, rfl⟩
    rw [if_pos hinfo]

/-- The two head readers differ on major type 7 only, where the second takes arguments in the first byte alone. -/
theorem readHead_eq_ok {r r' : Reader} {major arg : Nat} :
    readHead r = .ok ((major, arg), r') ↔
      major < 8 ∧ arg ≤ Cbor.u64Max ∧ (major = 7 → arg ≤ 23) ∧ Reads r (writeHead major arg) r' := by
  constructor
  · intro h
    obtain ⟨⟨initial, r₁⟩, hinitial, h⟩ := bind_eq_ok_iff.mp h
    dsimp only at h
    split_ifs at h with hseven
    · obtain ⟨rfl, rfl, hinfo, rfl⟩ := readSimple_eq_ok.mp h
      have harg : r'.readArg (initial &&& 0x1f).toNat = .ok ((initial &&& 0x1f).toNat, r') := by
        rw [Reader.readArg, if_pos hinfo]
      have hfirst : r.readHead = .ok ((7, (initial &&& 0x1f).toNat), r') :=
        bind_eq_ok_iff.mpr ⟨_, hinitial, bind_eq_ok_iff.mpr ⟨_, harg, by rw [← hseven]; rfl⟩⟩
      obtain ⟨hmajor, hle, hreads⟩ := Cbor.readHead_eq_ok.mp hfirst
      exact ⟨hmajor, hle, fun _ => hinfo, hreads⟩
    · obtain ⟨hmajor, hle, hreads⟩ := Cbor.readHead_eq_ok.mp (bind_eq_ok_iff.mpr ⟨_, hinitial, h⟩)
      obtain ⟨_, -, h⟩ := bind_eq_ok_iff.mp h
      cases h
      exact ⟨hmajor, hle, fun h => absurd h hseven, hreads⟩
  · intro hread
    obtain ⟨hmajor, hle, hsimple, hreads⟩ := hread
    obtain ⟨⟨initial, r₁⟩, hinitial, h⟩ := bind_eq_ok_iff.mp (Cbor.readHead_eq_ok.mpr ⟨hmajor, hle, hreads⟩)
    refine bind_eq_ok_iff.mpr ⟨_, hinitial, ?_⟩
    dsimp only
    split_ifs with hseven
    · obtain ⟨⟨arg', r₂⟩, harg, h⟩ := bind_eq_ok_iff.mp h
      cases h
      -- an argument up to 23 is the additional information itself
      have hsmall := hsimple hseven
      obtain ⟨rest, hform, hrest⟩ := (Cbor.readArg_eq_ok (Cbor.readU8_eq_ok.mp hinitial).valid).mp harg
      have hinfo : (initial &&& 0x1f).toNat = arg ∧ rest = [] := by
        generalize (initial &&& 0x1f).toNat = info at hform
        cases hform with
        | here h => exact ⟨rfl, rfl⟩
        | one h => omega
        | two h => omega
        | four h => omega
        | eight h => omega
      obtain ⟨rfl, -⟩ := Cursor.spans_nil.mp (hinfo.2 ▸ hrest)
      rw [hseven]
      exact readSimple_eq_ok.mpr ⟨rfl, hinfo.1.symm, hinfo.1 ▸ hsmall, rfl⟩
    · exact h

theorem readKey_eq_ok {r r' : Reader} {key : String} : readKey r = .ok (key, r') ↔ Reads r (encodedKey key) r' := by
  rw [← Cbor.readKey_eq_ok]
  unfold readKey Reader.readKey
  rw [bind_eq_ok_iff, bind_eq_ok_iff]
  constructor
  · intro ⟨⟨⟨major, arg⟩, r₁⟩, hhead, h⟩
    obtain ⟨hmajor, hle, -, hreads⟩ := readHead_eq_ok.mp hhead
    exact ⟨_, Cbor.readHead_eq_ok.mpr ⟨hmajor, hle, hreads⟩, h⟩
  · intro ⟨⟨⟨major, arg⟩, r₁⟩, hhead, h⟩
    obtain ⟨hmajor, hle, hreads⟩ := Cbor.readHead_eq_ok.mp hhead
    refine ⟨_, readHead_eq_ok.mpr ⟨hmajor, hle, ?_, hreads⟩, h⟩
    intro hseven
    subst hseven
    cases h

theorem encodeItems_eq (items : List CborValue) : encodeItems items = items.flatMap encode := by
  induction items with
  | nil => rfl
  | cons v items ih => rw [encodeItems, ih, List.flatMap_cons]

theorem encodeEntries_eq (entries : List (String × CborValue)) :
    encodeEntries entries = entries.map fun e => (encodedKey e.1, encode e.2) := by
  induction entries with
  | nil => rfl
  | cons e entries ih => rw [encodeEntries, ih, List.map_cons]

/-- Entries in canonical order are encoded in the order given. -/
theorem encode_map {entries : List (String × CborValue)}
    (h : (entries.map fun e => encodedKey e.1).Pairwise (· < ·)) : encode (.map entries) =
      writeHead 5 (lenArg entries.length) ++ entries.flatMap fun e => encodedKey e.1 ++ encode e.2 := by
  have hsorted : sortEntries (encodeEntries entries) = encodeEntries entries := by
    apply List.Pairwise.insertionSort_eq
    rw [encodeEntries_eq, List.pairwise_map]
    exact (List.pairwise_map.mp h).imp List.le_of_lt
  rw [encode, hsorted, encodeEntries_eq, List.flatMap_map]

theorem depthItems_le {items : List CborValue} {n : Nat} : depthItems items ≤ n ↔ ∀ v ∈ items, depth v < n := by
  induction items with
  | nil => simp [depthItems]
  | cons v items ih =>
    rw [depthItems, max_le_iff, ih, List.forall_mem_cons]
    rfl

theorem depthEntries_le {entries : List (String × CborValue)} {n : Nat} :
    depthEntries entries ≤ n ↔ ∀ e ∈ entries, depth e.2 < n := by
  induction entries with
  | nil => simp [depthEntries]
  | cons e entries ih =>
    rw [depthEntries, max_le_iff, ih, List.forall_mem_cons]
    rfl

theorem orderedItems_iff {items : List CborValue} : OrderedItems items ↔ ∀ v ∈ items, Ordered v := by
  induction items with
  | nil => simp [OrderedItems]
  | cons v items ih =>
    rw [OrderedItems, ih]
    simp

theorem orderedEntries_iff {entries : List (String × CborValue)} :
    OrderedEntries entries ↔ ∀ e ∈ entries, Ordered e.2 := by
  induction entries with
  | nil => simp [OrderedEntries]
  | cons e entries ih =>
    rw [OrderedEntries, ih]
    simp

theorem one_le_length_encode (v : CborValue) : 1 ≤ (encode v).length := by
  have hhead : ∀ (major arg : Nat) (rest : Bytes), 1 ≤ (writeHead major arg ++ rest).length := by
    intro major arg rest
    have hle := Cbor.one_le_length_writeHead major arg
    rw [List.length_append]
    omega
  cases v with
  | uint n => exact Cbor.one_le_length_writeHead 0 _
  | bytes b => exact hhead 2 _ _
  | text s => exact hhead 3 _ _
  | array items => exact hhead 4 _ _
  | map entries => exact hhead 5 _ _
  | null => exact Nat.le_refl 1

theorem encode_null : encode .null = writeHead 7 22 := by
  decide

/-- The reader accepts exactly the encodings of the values that are ordered and nest less than its levels. -/
theorem readValue_eq_ok {levels : Nat} {r r' : Reader} {v : CborValue} :
    readValue levels r = .ok (v, r') ↔ (depth v < levels ∧ Ordered v) ∧ Reads r (encode v) r' := by
  induction levels generalizing r v r' with
  | zero =>
    constructor
    · intro h
      cases h
    · intro h
      omega
  | succ levels ih =>
    unfold readValue
    rw [bind_eq_ok_iff]
    constructor
    · intro ⟨⟨⟨major, arg⟩, r₁⟩, hhead, h⟩
      obtain ⟨-, hle, -, hfirst⟩ := readHead_eq_ok.mp hhead
      have hjoin : ∀ {rest}, Reads r₁ rest r' → Reads r (writeHead major arg ++ rest) r' :=
        fun hrest => Cbor.reads_append.mpr ⟨r₁, hfirst, hrest⟩
      dsimp only at h
      split at h
      · cases h
        have hnum : (UInt64.ofNat arg).toNat = arg := UInt64.toNat_ofNat_of_lt' (Nat.lt_of_le_of_lt hle (by decide))
        refine ⟨⟨Nat.zero_lt_succ _, trivial⟩, ?_⟩
        rwa [encode, hnum]
      · cases h
      · obtain ⟨n, hlen, h⟩ := bind_eq_ok_iff.mp h
        obtain ⟨⟨b, r₂⟩, htake, h⟩ := bind_eq_ok_iff.mp h
        cases h
        obtain ⟨rfl, hpayload⟩ := Cbor.readPayload_eq_ok.mp ⟨n, hlen, htake⟩
        refine ⟨⟨Nat.zero_lt_succ _, trivial⟩, ?_⟩
        rw [encode, Cbor.lenArg_of_le hle]
        exact hjoin hpayload
      · obtain ⟨⟨s, r₂⟩, htext, h⟩ := bind_eq_ok_iff.mp h
        cases h
        obtain ⟨rfl, hpayload⟩ := Cbor.readText_eq_ok.mp htext
        refine ⟨⟨Nat.zero_lt_succ _, trivial⟩, ?_⟩
        rw [encode, Cbor.lenArg_of_le hle]
        exact hjoin hpayload
      · obtain ⟨n, hlen, h⟩ := bind_eq_ok_iff.mp h
        obtain ⟨⟨items, r₂⟩, hitems, h⟩ := bind_eq_ok_iff.mp h
        cases h
        obtain ⟨rfl, hall, hrest⟩ := (Cbor.readItems_eq_ok one_le_length_encode ih hfirst.valid).mp ⟨n, hlen, hitems⟩
        refine ⟨⟨?_, ?_⟩, ?_⟩
        · rw [depth, Nat.lt_succ_iff, depthItems_le]
          exact fun v hv => (hall v hv).1
        · rw [Ordered, orderedItems_iff]
          exact fun v hv => (hall v hv).2
        · rw [encode, Cbor.lenArg_of_le hle, encodeItems_eq]
          exact hjoin hrest
      · obtain ⟨n, hlen, h⟩ := bind_eq_ok_iff.mp h
        obtain ⟨⟨entries, r₂⟩, hentries, h⟩ := bind_eq_ok_iff.mp h
        cases h
        obtain ⟨rfl, hasc, hall, hrest⟩ := (Cbor.readMap_eq_ok one_le_length_encode ih readKey_eq_ok hfirst.valid).mp
          ⟨n, hlen, hentries⟩
        refine ⟨⟨?_, ?_⟩, ?_⟩
        · rw [depth, Nat.lt_succ_iff, depthEntries_le]
          exact fun e he => (hall e he).1
        · rw [Ordered, orderedEntries_iff]
          exact ⟨hasc, fun e he => (hall e he).2⟩
        · rw [encode_map hasc, Cbor.lenArg_of_le hle]
          exact hjoin hrest
      · cases h
      · split_ifs at h with hnull
        cases h
        refine ⟨⟨Nat.zero_lt_succ _, trivial⟩, ?_⟩
        rwa [encode_null, ← hnull]
      · cases h
    · intro ⟨⟨hdepth, hord⟩, hreads⟩
      have hhead : ∀ {major arg r₁}, major < 7 → arg ≤ u64Max → Reads r (writeHead major arg) r₁ →
          readHead r = .ok ((major, arg), r₁) := fun hmajor hle hfirst =>
        readHead_eq_ok.mpr ⟨by omega, hle, by omega, hfirst⟩
      cases v with
      | uint n =>
        have hle : n.toNat ≤ u64Max := Nat.le_of_lt_succ n.toNat_lt
        refine ⟨_, hhead (by omega) hle hreads, ?_⟩
        dsimp only
        rw [UInt64.ofNat_toNat]
        rfl
      | bytes b =>
        rw [encode] at hreads
        obtain ⟨r₁, hfirst, hrest⟩ := Cbor.reads_append.mp hreads
        have hle : b.length ≤ u64Max := hrest.length_le.2
        rw [Cbor.lenArg_of_le hle] at hfirst
        obtain ⟨n, hlen, htake⟩ := Cbor.readPayload_eq_ok.mpr ⟨rfl, hrest⟩
        refine ⟨_, hhead (by omega) hle hfirst, ?_⟩
        exact bind_eq_ok_iff.mpr ⟨n, hlen, bind_eq_ok_iff.mpr ⟨_, htake, rfl⟩⟩
      | text s =>
        rw [encode] at hreads
        obtain ⟨r₁, hfirst, hrest⟩ := Cbor.reads_append.mp hreads
        have hle : (asBytes s).length ≤ u64Max := hrest.length_le.2
        rw [Cbor.lenArg_of_le hle] at hfirst
        refine ⟨_, hhead (by omega) hle hfirst, ?_⟩
        exact bind_eq_ok_iff.mpr ⟨_, Cbor.readText_eq_ok.mpr ⟨rfl, hrest⟩, rfl⟩
      | array items =>
        rw [depth, Nat.lt_succ_iff, depthItems_le] at hdepth
        rw [Ordered, orderedItems_iff] at hord
        rw [encode, encodeItems_eq] at hreads
        obtain ⟨r₁, hfirst, hrest⟩ := Cbor.reads_append.mp hreads
        obtain ⟨n, hlen, hitems⟩ := (Cbor.readItems_eq_ok one_le_length_encode ih hfirst.valid).mpr
          ⟨rfl, fun v hv => ⟨hdepth v hv, hord v hv⟩, hrest⟩
        have hle : items.length ≤ u64Max := (Cbor.checkedLen_eq_ok.mp hlen).2.1
        rw [Cbor.lenArg_of_le hle] at hfirst
        refine ⟨_, hhead (by omega) hle hfirst, ?_⟩
        exact bind_eq_ok_iff.mpr ⟨n, hlen, bind_eq_ok_iff.mpr ⟨_, hitems, rfl⟩⟩
      | map entries =>
        rw [depth, Nat.lt_succ_iff, depthEntries_le] at hdepth
        rw [Ordered, orderedEntries_iff] at hord
        rw [encode_map hord.1] at hreads
        obtain ⟨r₁, hfirst, hrest⟩ := Cbor.reads_append.mp hreads
        obtain ⟨n, hlen, hentries⟩ := (Cbor.readMap_eq_ok one_le_length_encode ih readKey_eq_ok hfirst.valid).mpr
          ⟨rfl, hord.1, fun e he => ⟨hdepth e he, hord.2 e he⟩, hrest⟩
        have hle : entries.length ≤ u64Max := (Cbor.checkedLen_eq_ok.mp hlen).2.1
        rw [Cbor.lenArg_of_le hle] at hfirst
        refine ⟨_, hhead (by omega) hle hfirst, ?_⟩
        exact bind_eq_ok_iff.mpr ⟨n, hlen, bind_eq_ok_iff.mpr ⟨_, hentries, rfl⟩⟩
      | null =>
        rw [encode_null] at hreads
        exact ⟨_, readHead_eq_ok.mpr ⟨by omega, by decide, by omega, hreads⟩, rfl⟩

theorem decodeCanonical_eq_ok {b : Bytes} {v : CborValue} :
    decodeCanonical b = .ok v ↔ Encodable v ∧ encode v = b := by
  unfold decodeCanonical
  rw [bind_eq_ok_iff]
  constructor
  · intro ⟨⟨v', r⟩, hread, h⟩
    dsimp only at h
    split_ifs at h with hend
    cases h
    rw [readValue_eq_ok] at hread
    obtain ⟨⟨hdepth, hord⟩, hreads⟩ := hread
    exact ⟨⟨Nat.le_of_lt_succ hdepth, hord, hreads.length_le.2⟩, (Cbor.reads_all hreads).mp hend⟩
  · intro ⟨⟨hdepth, hord, hfits⟩, heq⟩
    have hreads : Reads ⟨b, 0⟩ (encode v) ⟨b, b.length⟩ := by
      rw [heq] at hfits ⊢
      exact ⟨rfl, (Nat.zero_add _).symm, ⟨le_rfl, hfits⟩, List.take_length⟩
    refine ⟨(v, ⟨b, b.length⟩), ?_, ?_⟩
    · rw [readValue_eq_ok]
      exact ⟨⟨Nat.lt_succ_of_le hdepth, hord⟩, hreads⟩
    · dsimp only
      rw [if_pos rfl]
      rfl

/-! ### The two codecs -/

theorem length_ofFirstItems (items : List IrohRooms.CborValue) : (ofFirstItems items).length = items.length := by
  induction items with
  | nil => rfl
  | cons v items ih => simp [ofFirstItems, ih]

theorem map_key_ofFirstEntries {γ : Type} (f : String → γ) (entries : List (String × IrohRooms.CborValue)) :
    (ofFirstEntries entries).map (fun e => f e.1) = entries.map fun e => f e.1 := by
  induction entries with
  | nil => rfl
  | cons e entries ih => simp [ofFirstEntries, ih]

theorem length_ofFirstEntries (entries : List (String × IrohRooms.CborValue)) :
    (ofFirstEntries entries).length = entries.length := by
  simpa using congrArg List.length (map_key_ofFirstEntries id entries)

mutual

theorem encode_ofFirst : ∀ v : IrohRooms.CborValue, encode (ofFirst v) = Cbor.encode v
  | .uint _ => rfl
  | .bytes _ => rfl
  | .text _ => rfl
  | .array items => by
    rw [ofFirst, encode, Cbor.encode, length_ofFirstItems, encode_ofFirstItems items]
  | .map entries => by
    rw [ofFirst, encode, Cbor.encode, length_ofFirstEntries, encode_ofFirstEntries entries]

theorem encode_ofFirstItems : ∀ items : List IrohRooms.CborValue,
    encodeItems (ofFirstItems items) = Cbor.encodeItems items
  | [] => rfl
  | v :: items => by
    rw [ofFirstItems, encodeItems, Cbor.encodeItems, encode_ofFirst v, encode_ofFirstItems items]

theorem encode_ofFirstEntries : ∀ entries : List (String × IrohRooms.CborValue),
    encodeEntries (ofFirstEntries entries) = Cbor.encodeEntries entries
  | [] => rfl
  | (k, v) :: entries => by
    rw [ofFirstEntries, encodeEntries, Cbor.encodeEntries, encode_ofFirst v, encode_ofFirstEntries entries]

end

mutual

theorem depth_ofFirst : ∀ v : IrohRooms.CborValue, depth (ofFirst v) = Cbor.depth v
  | .uint _ => rfl
  | .bytes _ => rfl
  | .text _ => rfl
  | .array items => by
    rw [ofFirst, depth, Cbor.depth, depth_ofFirstItems items]
  | .map entries => by
    rw [ofFirst, depth, Cbor.depth, depth_ofFirstEntries entries]

theorem depth_ofFirstItems : ∀ items : List IrohRooms.CborValue, depthItems (ofFirstItems items) = Cbor.depthItems items
  | [] => rfl
  | v :: items => by
    rw [ofFirstItems, depthItems, Cbor.depthItems, depth_ofFirst v, depth_ofFirstItems items]

theorem depth_ofFirstEntries : ∀ entries : List (String × IrohRooms.CborValue),
    depthEntries (ofFirstEntries entries) = Cbor.depthEntries entries
  | [] => rfl
  | (k, v) :: entries => by
    rw [ofFirstEntries, depthEntries, Cbor.depthEntries, depth_ofFirst v, depth_ofFirstEntries entries]

end

mutual

theorem ordered_ofFirst : ∀ v : IrohRooms.CborValue, Ordered (ofFirst v) ↔ Cbor.Ordered v
  | .uint _ => Iff.rfl
  | .bytes _ => Iff.rfl
  | .text _ => Iff.rfl
  | .array items => by
    rw [ofFirst, Ordered, Cbor.Ordered, ordered_ofFirstItems items]
  | .map entries => by
    rw [ofFirst, Ordered, Cbor.Ordered, ordered_ofFirstEntries entries, map_key_ofFirstEntries]

theorem ordered_ofFirstItems : ∀ items : List IrohRooms.CborValue,
    OrderedItems (ofFirstItems items) ↔ Cbor.OrderedItems items
  | [] => Iff.rfl
  | v :: items => by
    rw [ofFirstItems, OrderedItems, Cbor.OrderedItems, ordered_ofFirst v, ordered_ofFirstItems items]

theorem ordered_ofFirstEntries : ∀ entries : List (String × IrohRooms.CborValue),
    OrderedEntries (ofFirstEntries entries) ↔ Cbor.OrderedEntries entries
  | [] => Iff.rfl
  | (k, v) :: entries => by
    rw [ofFirstEntries, OrderedEntries, Cbor.OrderedEntries, ordered_ofFirst v, ordered_ofFirstEntries entries]

end

mutual

theorem hasNull_ofFirst : ∀ v : IrohRooms.CborValue, hasNull (ofFirst v) = false
  | .uint _ => rfl
  | .bytes _ => rfl
  | .text _ => rfl
  | .array items => by
    rw [ofFirst, hasNull, hasNull_ofFirstItems items]
  | .map entries => by
    rw [ofFirst, hasNull, hasNull_ofFirstEntries entries]

theorem hasNull_ofFirstItems : ∀ items : List IrohRooms.CborValue, hasNullItems (ofFirstItems items) = false
  | [] => rfl
  | v :: items => by
    rw [ofFirstItems, hasNullItems, hasNull_ofFirst v, hasNull_ofFirstItems items, Bool.or_self]

theorem hasNull_ofFirstEntries : ∀ entries : List (String × IrohRooms.CborValue),
    hasNullEntries (ofFirstEntries entries) = false
  | [] => rfl
  | (k, v) :: entries => by
    rw [ofFirstEntries, hasNullEntries, hasNull_ofFirst v, hasNull_ofFirstEntries entries, Bool.or_self]

end

mutual

/-- A value without `null` is one of the first codec. -/
theorem exists_ofFirst : ∀ w : CborValue, hasNull w = false → ∃ v, ofFirst v = w
  | .uint n, _ => ⟨.uint n, rfl⟩
  | .bytes b, _ => ⟨.bytes b, rfl⟩
  | .text s, _ => ⟨.text s, rfl⟩
  | .array items, h => by
    rw [hasNull] at h
    obtain ⟨items', rfl⟩ := exists_ofFirstItems items h
    exact ⟨.array items', rfl⟩
  | .map entries, h => by
    rw [hasNull] at h
    obtain ⟨entries', rfl⟩ := exists_ofFirstEntries entries h
    exact ⟨.map entries', rfl⟩
  | .null, h => by cases h

theorem exists_ofFirstItems : ∀ items : List CborValue, hasNullItems items = false → ∃ l, ofFirstItems l = items
  | [], _ => ⟨[], rfl⟩
  | w :: items, h => by
    rw [hasNullItems, Bool.or_eq_false_iff] at h
    obtain ⟨v, rfl⟩ := exists_ofFirst w h.1
    obtain ⟨l, rfl⟩ := exists_ofFirstItems items h.2
    exact ⟨v :: l, rfl⟩

theorem exists_ofFirstEntries : ∀ entries : List (String × CborValue), hasNullEntries entries = false →
    ∃ l, ofFirstEntries l = entries
  | [], _ => ⟨[], rfl⟩
  | (k, w) :: entries, h => by
    rw [hasNullEntries, Bool.or_eq_false_iff] at h
    obtain ⟨v, rfl⟩ := exists_ofFirst w h.1
    obtain ⟨l, rfl⟩ := exists_ofFirstEntries entries h.2
    exact ⟨(k, v) :: l, rfl⟩

end

theorem encodable_ofFirst (v : IrohRooms.CborValue) : Encodable (ofFirst v) ↔ Cbor.Encodable v := by
  constructor
  · intro ⟨hdepth, hord, hfits⟩
    exact ⟨depth_ofFirst v ▸ hdepth, (ordered_ofFirst v).mp hord, encode_ofFirst v ▸ hfits⟩
  · intro ⟨hdepth, hord, hfits⟩
    exact ⟨(depth_ofFirst v).symm ▸ hdepth, (ordered_ofFirst v).mpr hord, (encode_ofFirst v).symm ▸ hfits⟩

/-- On values without `null` the decoders agree. -/
theorem decodeCanonical_ofFirst {b : Bytes} {v : IrohRooms.CborValue} :
    decodeCanonical b = .ok (ofFirst v) ↔ Cbor.decodeCanonical b = .ok v := by
  rw [decodeCanonical_eq_ok, Cbor.decodeCanonical_eq_ok, encodable_ofFirst, encode_ofFirst]

/-- The second decoder accepts exactly the canonical encodings, and the first accepts those of them whose value has no
`null`, with the same value, and nothing else. -/
theorem decodeCanonical_agrees (b : Bytes) :
    ((∃ w, decodeCanonical b = .ok w) ↔ ∃ w, Encodable w ∧ encode w = b) ∧
    (∀ w, decodeCanonical b = .ok w → encode w = b ∧
      (hasNull w = false → ∃ v, ofFirst v = w ∧ Cbor.decodeCanonical b = .ok v) ∧
      (hasNull w = true → ∃ e, Cbor.decodeCanonical b = .error e)) ∧
    ∀ v, Cbor.decodeCanonical b = .ok v → decodeCanonical b = .ok (ofFirst v) := by
  refine ⟨exists_congr fun w => decodeCanonical_eq_ok, fun w hw => ⟨(decodeCanonical_eq_ok.mp hw).2, ?_, ?_⟩,
    fun v hv => decodeCanonical_ofFirst.mpr hv⟩
  · intro hnull
    obtain ⟨v, rfl⟩ := exists_ofFirst w hnull
    exact ⟨v, rfl, decodeCanonical_ofFirst.mp hw⟩
  · intro hnull
    cases hfirst : Cbor.decodeCanonical b with
    | error e => exact ⟨e, rfl⟩
    | ok v =>
      rw [← decodeCanonical_ofFirst, hw, Except.ok.injEq] at hfirst
      rw [hfirst, hasNull_ofFirst] at hnull
      cases hnull

end IrohRooms.CborV2
