import Mathlib.Data.List.Sort
import IrohRooms.Event.Ids
import IrohRooms.Lib.Cursor

/-!
# Deterministic CBOR

The canonical encoder and the strict reader of the signed-event boundary, over the closed profile of unsigned integers,
byte strings, texts, arrays and text-keyed maps. The reader is a cursor into the input; its depth argument appears as
the number of nesting levels left, which is what the recursion goes down on. A `usize` has 64 bits.
-/

namespace IrohRooms

inductive CborValue
  | uint (n : UInt64)
  | bytes (b : Bytes)
  | text (s : String)
  | array (items : List CborValue)
  | map (entries : List (String × CborValue))

inductive CborError
  | unexpectedEof | trailingData | indefiniteLength | nonShortestInt | negativeInteger | reservedAdditionalInfo
  | tag | floatOrSimple | nonTextMapKey | unsortedMapKey | duplicateMapKey | invalidUtf8 | depthExceeded
  | lengthOverflow
  deriving DecidableEq, Repr

namespace Cbor

def maxDepth : Nat := 16

def u64Max : Nat := 2 ^ 64 - 1

def usizeMax : Nat := 2 ^ 64 - 1

/-- The bytes of a string. -/
def asBytes (s : String) : Bytes := s.toUTF8.data.toList

def fromUtf8 (b : Bytes) : Option String := String.fromUTF8? ⟨b.toArray⟩

/-! ### Encoder -/

/-- The length argument of a head, saturated. -/
def lenArg (len : Nat) : Nat := min len u64Max

/-- The head of an item: major type and shortest-form argument. -/
def writeHead (major arg : Nat) : Bytes :=
  let high := UInt8.ofNat major <<< 5
  if arg ≤ 0x17 then [high ||| UInt8.ofNat arg]
  else if arg ≤ 0xFF then (high ||| 0x18) :: beBytes 1 arg
  else if arg ≤ 0xFFFF then (high ||| 0x19) :: beBytes 2 arg
  else if arg ≤ 0xFFFFFFFF then (high ||| 0x1A) :: beBytes 4 arg
  else (high ||| 0x1B) :: beBytes 8 arg

/-- The encoded form of a text map key, by which entries are sorted. -/
def encodedKey (key : String) : Bytes := writeHead 3 (lenArg (asBytes key).length) ++ asBytes key

/-- Sort encoded entries by their keys; the sort is stable. -/
def sortEntries (entries : List (Bytes × Bytes)) : List (Bytes × Bytes) :=
  entries.insertionSort fun a b => a.1 ≤ b.1

mutual

def encode : CborValue → Bytes
  | .uint n => writeHead 0 n.toNat
  | .bytes b => writeHead 2 (lenArg b.length) ++ b
  | .text s => writeHead 3 (lenArg (asBytes s).length) ++ asBytes s
  | .array items => writeHead 4 (lenArg items.length) ++ encodeItems items
  | .map entries =>
    writeHead 5 (lenArg entries.length) ++ (sortEntries (encodeEntries entries)).flatMap fun e => e.1 ++ e.2

def encodeItems : List CborValue → Bytes
  | [] => []
  | v :: items => encode v ++ encodeItems items

/-- Each entry's encoded key and value, before sorting. -/
def encodeEntries : List (String × CborValue) → List (Bytes × Bytes)
  | [] => []
  | (k, v) :: entries => (encodedKey k, encode v) :: encodeEntries entries

end

/-! ### Strict reader -/

abbrev Reader := Cursor UInt8

/-- Big-endian number of bytes. -/
def fromBeBytes (b : Bytes) : Nat := b.foldl (fun acc x => acc * 256 + x.toNat) 0

namespace Reader

def take (r : Reader) (n : Nat) : Except CborError (Bytes × Reader) :=
  if r.pos + n > usizeMax then .error .lengthOverflow
  else if r.pos + n > r.buf.length then .error .unexpectedEof
  else .ok ((r.buf.drop r.pos).take n, ⟨r.buf, r.pos + n⟩)

def readU8 (r : Reader) : Except CborError (UInt8 × Reader) := do
  let (b, r) ← take r 1
  pure (b.headD 0, r)

/-- An argument of `width` bytes, too long for one up to `short`. -/
def readWide (r : Reader) (width short : Nat) : Except CborError (Nat × Reader) := do
  let (b, r) ← take r width
  if fromBeBytes b ≤ short then .error .nonShortestInt else pure (fromBeBytes b, r)

/-- The argument that the additional information announces. -/
def readArg (r : Reader) (info : Nat) : Except CborError (Nat × Reader) :=
  if info ≤ 23 then .ok (info, r)
  else if info = 24 then readWide r 1 23
  else if info = 25 then readWide r 2 0xFF
  else if info = 26 then readWide r 4 0xFFFF
  else if info = 27 then readWide r 8 0xFFFFFFFF
  else if info ≤ 30 then .error .reservedAdditionalInfo
  else .error .indefiniteLength

/-- The head of an item, as major type and argument. -/
def readHead (r : Reader) : Except CborError ((Nat × Nat) × Reader) := do
  let (initial, r) ← readU8 r
  let (arg, r) ← readArg r (initial &&& 0x1f).toNat
  pure (((initial >>> 5).toNat, arg), r)

/-- A declared count, refused when the rest of the input can not back it. -/
def checkedLen (r : Reader) (arg minBytesEach : Nat) : Except CborError Nat :=
  if arg > usizeMax then .error .lengthOverflow
  else if arg * minBytesEach > usizeMax then .error .lengthOverflow
  else if arg * minBytesEach > r.buf.length - r.pos then .error .unexpectedEof
  else .ok arg

/-- The payload of a text of declared length. -/
def readText (r : Reader) (arg : Nat) : Except CborError (String × Reader) := do
  let n ← checkedLen r arg 1
  let (b, r) ← take r n
  match fromUtf8 b with
  | some s => pure (s, r)
  | none => .error .invalidUtf8

/-- A map key, which must be a text. -/
def readKey (r : Reader) : Except CborError (String × Reader) := do
  let ((major, arg), r) ← readHead r
  if major ≠ 3 then .error .nonTextMapKey else readText r arg

/-- Compare an encoded key with the one before. -/
def checkKey (prevKey : Option Bytes) (keyEnc : Bytes) : Except CborError Unit :=
  match prevKey with
  | some prev =>
    if keyEnc < prev then .error .unsortedMapKey
    else if keyEnc = prev then .error .duplicateMapKey
    else .ok ()
  | none => .ok ()

/-- The entries of a map, each key above the one before. -/
def readEntries (read : Reader → Except CborError (CborValue × Reader)) :
    Nat → Option Bytes → Reader → Except CborError (List (String × CborValue) × Reader)
  | 0, _, r => .ok ([], r)
  | n + 1, prevKey, r => do
    let (key, r) ← readKey r
    checkKey prevKey (encodedKey key)
    let (value, r) ← read r
    let (entries, r) ← readEntries read n (some (encodedKey key)) r
    pure ((key, value) :: entries, r)

/-- One item with at most `levels` levels; depth `d` of the source has `maxDepth + 1 - d` of them. -/
def readValue : Nat → Reader → Except CborError (CborValue × Reader)
  | 0, _ => .error .depthExceeded
  | levels + 1, r => do
    let ((major, arg), r) ← readHead r
    match major with
    | 0 => pure (.uint (UInt64.ofNat arg), r)
    | 1 => .error .negativeInteger
    | 2 => do
      let n ← checkedLen r arg 1
      let (b, r) ← take r n
      pure (.bytes b, r)
    | 3 => do
      let (s, r) ← readText r arg
      pure (.text s, r)
    | 4 => do
      let n ← checkedLen r arg 1
      let (items, r) ← Cursor.readMany (readValue levels) n r
      pure (.array items, r)
    | 5 => do
      let n ← checkedLen r arg 2
      let (entries, r) ← readEntries (readValue levels) n none r
      pure (.map entries, r)
    | 6 => .error .tag
    | _ => .error .floatOrSimple

end Reader

/-- Decode exactly one item that takes up the whole input. -/
def decodeCanonical (input : Bytes) : Except CborError CborValue := do
  let (value, r) ← Reader.readValue (maxDepth + 1) ⟨input, 0⟩
  if r.pos = input.length then pure value else .error .trailingData

/-! ### Canonical values -/

mutual

/-- How deep arrays and maps nest around the deepest item. -/
def depth : CborValue → Nat
  | .array items => depthItems items
  | .map entries => depthEntries entries
  | _ => 0

def depthItems : List CborValue → Nat
  | [] => 0
  | v :: items => max (depth v + 1) (depthItems items)

def depthEntries : List (String × CborValue) → Nat
  | [] => 0
  | (_, v) :: entries => max (depth v + 1) (depthEntries entries)

end

mutual

/-- Every map inside lists its keys in ascending canonical order. -/
def Ordered : CborValue → Prop
  | .array items => OrderedItems items
  | .map entries => (entries.map fun e => encodedKey e.1).Pairwise (· < ·) ∧ OrderedEntries entries
  | _ => True

def OrderedItems : List CborValue → Prop
  | [] => True
  | v :: items => Ordered v ∧ OrderedItems items

def OrderedEntries : List (String × CborValue) → Prop
  | [] => True
  | (_, v) :: entries => Ordered v ∧ OrderedEntries entries

end

/-- A canonical value within the depth limit whose encoding fits in memory. -/
structure Encodable (v : CborValue) : Prop where
  depth : depth v ≤ maxDepth
  ordered : Ordered v
  fits : (encode v).length ≤ usizeMax

end Cbor

end IrohRooms
