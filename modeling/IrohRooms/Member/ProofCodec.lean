import IrohRooms.Governance.CborV2
import IrohRooms.Member.Position

/-!
# The wire form of inclusion proofs

A proof travels as canonical CBOR and is read back by a reader of its own, which expects the one layout and checks the
shape of the path at the end. Its additions and indexing are modelled with what they do out of range (`Failure`), so
that it can be said that they never are; everything else that goes wrong is refused as an invalid proof.
-/

namespace IrohRooms.Member

open Governance
open Cbor (Reads writeHead lenArg encodedKey asBytes fromBeBytes usizeMax)

/-! ### Encoder -/

def SiblingSide.text : SiblingSide → String
  | .left => "left"
  | .right => "right"

def ProofStep.toCborValue (step : ProofStep) : CborV2.CborValue :=
  .map [("side", .text step.side.text), ("hash", .bytes step.hash.asBytes)]

def InclusionProof.toCborValue (p : InclusionProof) : CborV2.CborValue :=
  .map [("leaf_count", .uint p.leafCount), ("leaf_index", .uint p.leafIndex),
    ("siblings", .array (p.siblings.map ProofStep.toCborValue))]

def InclusionProof.canonicalBytes (p : InclusionProof) : Bytes := CborV2.encode p.toCborValue

/-! ### Reader -/

/-- How a call ends without a value: it refuses the input, or it panics in an addition or in indexing. -/
inductive Failure
  | reject (reason : Reject)
  | overflow
  | outOfBounds

def refused {α : Type} : Except Failure α := .error (.reject .invalidMerkleProof)

abbrev InclusionProofReader := Cursor UInt8

namespace InclusionProofReader

def index (b : Bytes) (i : Nat) : Except Failure UInt8 :=
  match b[i]? with
  | some a => .ok a
  | none => .error .outOfBounds

def take (r : InclusionProofReader) (count : Nat) : Except Failure (Bytes × InclusionProofReader) :=
  if r.pos + count > usizeMax then refused
  else if r.pos + count > r.buf.length then refused
  else .ok ((r.buf.drop r.pos).take count, ⟨r.buf, r.pos + count⟩)

def readByte (r : InclusionProofReader) : Except Failure (UInt8 × InclusionProofReader) := do
  let (b, r) ← take r 1
  let a ← index b 0
  pure (a, r)

/-- The number of the first `width` bytes, each indexed. -/
def bigEndian (b : Bytes) (width : Nat) : Except Failure Nat := do
  let digits ← (List.range width).mapM (index b)
  pure (fromBeBytes digits)

/-- An argument of `width` bytes, too long for one up to `short`. -/
def readWide (r : InclusionProofReader) (width short : Nat) : Except Failure (Nat × InclusionProofReader) := do
  let (b, r) ← take r width
  let value ← bigEndian b width
  if value ≤ short then refused else pure (value, r)

/-- The argument that the additional information announces. -/
def readArgument (r : InclusionProofReader) (info : Nat) : Except Failure (Nat × InclusionProofReader) :=
  if info ≤ 23 then .ok (info, r)
  else if info = 24 then readWide r 1 23
  else if info = 25 then readWide r 2 0xFF
  else if info = 26 then readWide r 4 0xFFFF
  else if info = 27 then readWide r 8 0xFFFFFFFF
  else refused

def readHead (r : InclusionProofReader) : Except Failure ((Nat × Nat) × InclusionProofReader) := do
  let (initial, r) ← readByte r
  let (argument, r) ← readArgument r (initial &&& 0x1f).toNat
  pure (((initial >>> 5).toNat, argument), r)

def expectHead (r : InclusionProofReader) (major argument : Nat) : Except Failure InclusionProofReader := do
  let (head, r) ← readHead r
  if head = (major, argument) then pure r else refused

def expectText (r : InclusionProofReader) (expected : Bytes) : Except Failure InclusionProofReader := do
  let r ← expectHead r 3 expected.length
  let (b, r) ← take r expected.length
  if b = expected then pure r else refused

def readUint (r : InclusionProofReader) : Except Failure (UInt64 × InclusionProofReader) := do
  let ((major, value), r) ← readHead r
  if major = 0 then pure (UInt64.ofNat value, r) else refused

/-- The payload of a side whose text has the given length. -/
def readSide (r : InclusionProofReader) (length : Nat) : Except Failure (SiblingSide × InclusionProofReader) :=
  if length = 4 then do
    let (b, r) ← take r 4
    if b = asBytes "left" then pure (.left, r) else refused
  else if length = 5 then do
    let (b, r) ← take r 5
    if b = asBytes "right" then pure (.right, r) else refused
  else refused

/-- A hash takes up thirty-two bytes. -/
def hashOf (b : Bytes) : Except Failure Digest :=
  match Id.ofBytes b with
  | some hash => .ok hash
  | none => refused

def readStep (r : InclusionProofReader) : Except Failure (ProofStep × InclusionProofReader) := do
  let r ← expectHead r 5 2
  let r ← expectText r (asBytes "hash")
  let r ← expectHead r 2 32
  let (b, r) ← take r 32
  let hash ← hashOf b
  let r ← expectText r (asBytes "side")
  let ((major, length), r) ← readHead r
  if major ≠ 3 then refused
  else do
    let (side, r) ← readSide r length
    pure (⟨side, hash⟩, r)

end InclusionProofReader

/-! ### The shape check with the additions of `u64` -/

namespace Checked

def add (a b : Nat) : Except Failure Nat := if a + b ≤ Cbor.u64Max then .ok (a + b) else .error .overflow

def paired (leafCount leafIndex : Nat) : Except Failure Bool :=
  if leafIndex % 2 = 1 then .ok true
  else do
    let next ← add leafIndex 1
    pure (decide (next < leafCount))

def siblingCountLoop : Nat → Nat → Nat → Nat → Except Failure Nat
  | 0, _, _, steps => .ok steps
  | fuel + 1, leafCount, leafIndex, steps =>
    if leafCount > 1 then do
      let sibling ← paired leafCount leafIndex
      let steps ← (if sibling then add steps 1 else .ok steps)
      let leafCount ← add (leafCount / 2) (leafCount % 2)
      siblingCountLoop fuel leafCount (leafIndex / 2) steps
    else .ok steps

def expectedSiblingCount (leafCount leafIndex : Nat) : Except Failure Nat :=
  if leafCount = 0 then .ok 0 else siblingCountLoop leafCount leafCount leafIndex 0

def expectedSide (leafCount leafIndex : Nat) : Except Failure (Option SiblingSide) :=
  if leafIndex % 2 = 1 then .ok (some .left)
  else do
    let next ← add leafIndex 1
    pure (if next < leafCount then some .right else none)

def validateSides : Nat → Nat → Nat → List ProofStep → Except Failure Unit
  | fuel + 1, leafCount, leafIndex, steps =>
    if leafCount > 1 then do
      let side ← expectedSide leafCount leafIndex
      match side, steps with
      | none, steps => do
        let above ← add (leafCount / 2) (leafCount % 2)
        validateSides fuel above (leafIndex / 2) steps
      | some _, [] => refused
      | some side, step :: steps =>
        if step.side ≠ side then refused
        else do
          let above ← add (leafCount / 2) (leafCount % 2)
          validateSides fuel above (leafIndex / 2) steps
    else if steps ≠ [] then refused
    else .ok ()
  | 0, _, _, steps => if steps ≠ [] then refused else .ok ()

def validateInclusionStructure (proof : InclusionProof) : Except Failure Unit := do
  let leafCount := proof.leafCount.toNat
  let leafIndex := proof.leafIndex.toNat
  if leafCount = 0 ∨ leafIndex ≥ leafCount ∨ proof.siblings.length > maxLevels then refused
  else do
    let expected ← expectedSiblingCount leafCount leafIndex
    if proof.siblings.length ≠ expected then refused
    else validateSides leafCount leafCount leafIndex proof.siblings

end Checked

open InclusionProofReader in
/-- The start of a proof up to the number of its siblings. -/
def readSiblingCount (input : Bytes) : Except Failure (Nat × InclusionProofReader) := do
  let r ← expectHead ⟨input, 0⟩ 5 3
  let r ← expectText r (asBytes "siblings")
  let ((major, siblingCount), r) ← readHead r
  if major ≠ 4 ∨ siblingCount > maxLevels then refused else pure (siblingCount, r)

open InclusionProofReader in
def decodeInclusionProof (input : Bytes) : Except Failure InclusionProof := do
  let (siblingCount, r) ← readSiblingCount input
  let (siblings, r) ← Cursor.readMany readStep siblingCount r
  let r ← expectText r (asBytes "leaf_count")
  let (leafCount, r) ← readUint r
  let r ← expectText r (asBytes "leaf_index")
  let (leafIndex, r) ← readUint r
  if r.pos ≠ input.length then refused
  else do
    Checked.validateInclusionStructure ⟨leafCount, leafIndex, siblings⟩
    pure ⟨leafCount, leafIndex, siblings⟩

/-- The siblings for which room is reserved before the first of them is read; nothing else is allocated. -/
def reserved (input : Bytes) : Nat :=
  match readSiblingCount input with
  | .ok (siblingCount, _) => siblingCount
  | .error _ => 0

/-! ### The machine's arithmetic is exact -/

theorem Checked.add_eq {a b : Nat} (h : a + b ≤ Cbor.u64Max) : Checked.add a b = .ok (a + b) := if_pos h

theorem Checked.expectedSide_eq {count i : Nat} (hi : i < count) (hcount : count ≤ Cbor.u64Max) :
    Checked.expectedSide count i = .ok (Member.expectedSide count i) := by
  unfold Checked.expectedSide Member.expectedSide
  split_ifs with hodd hright
  · rfl
  · rw [Checked.add_eq (by omega)]
    exact congrArg Except.ok (if_pos hright)
  · rw [Checked.add_eq (by omega)]
    exact congrArg Except.ok (if_neg hright)

/-- Steps and nodes together never outnumber the leaves. -/
theorem Checked.siblingCountLoop_eq {fuel count i steps : Nat} (hi : i < count) (hroom : steps + count ≤ Cbor.u64Max) :
    Checked.siblingCountLoop fuel count i steps = .ok (Member.siblingCountLoop fuel count i steps) := by
  induction fuel generalizing count i steps with
  | zero => rfl
  | succ fuel ih =>
    unfold Checked.siblingCountLoop Member.siblingCountLoop
    by_cases hone : count > 1
    · have hpaired : Checked.paired count i = .ok (if i % 2 = 1 then true else decide (i + 1 < count)) := by
        unfold Checked.paired
        split_ifs
        · rfl
        · rw [Checked.add_eq (by omega)]
          rfl
      rw [if_pos hone, if_pos hone, hpaired]
      dsimp only
      generalize (if i % 2 = 1 then true else decide (i + 1 < count)) = sibling
      have hhalf : Checked.add (count / 2) (count % 2) = .ok (count / 2 + count % 2) := Checked.add_eq (by omega)
      cases sibling with
      | true =>
        rw [← ih (by omega) (by simp only [if_true]; omega)]
        simp [Checked.add_eq (show steps + 1 ≤ Cbor.u64Max by omega), hhalf, bind, Except.bind]
      | false =>
        rw [← ih (by omega) (by simp only [Bool.false_eq_true, if_false]; omega)]
        simp [hhalf, bind, Except.bind]
    · rw [if_neg hone, if_neg hone]

/-- An error of the plain shape check, as a failure. -/
def toFailure {α : Type} (x : Except Reject α) : Except Failure α := x.mapError .reject

theorem Checked.validateSides_eq {fuel count i : Nat} {steps : List ProofStep} (hi : i < count)
    (hcount : count ≤ Cbor.u64Max) :
    Checked.validateSides fuel count i steps = toFailure (Member.validateSides fuel count i steps) := by
  induction fuel generalizing count i steps with
  | zero =>
    unfold Checked.validateSides Member.validateSides
    split_ifs <;> rfl
  | succ fuel ih =>
    unfold Checked.validateSides Member.validateSides
    by_cases hone : count > 1
    · have hhalf : Checked.add (count / 2) (count % 2) = .ok (count / 2 + count % 2) := Checked.add_eq (by omega)
      have hrest : ∀ steps, (do
          let above ← Checked.add (count / 2) (count % 2)
          Checked.validateSides fuel above (i / 2) steps) =
          toFailure (Member.validateSides fuel (count / 2 + count % 2) (i / 2) steps) := by
        intro steps
        rw [hhalf, ← ih (by omega) (by omega)]
        rfl
      rw [if_pos hone, if_pos hone, Checked.expectedSide_eq hi hcount]
      cases Member.expectedSide count i with
      | none => exact hrest steps
      | some side =>
        cases steps with
        | nil => rfl
        | cons step steps =>
          simp only [bind, Except.bind]
          split_ifs
          · rfl
          · exact hrest steps
    · rw [if_neg hone, if_neg hone]
      split_ifs <;> rfl

theorem Checked.validateInclusionStructure_eq (p : InclusionProof) :
    Checked.validateInclusionStructure p = toFailure (Member.validateInclusionStructure p) := by
  have hcount : p.leafCount.toNat ≤ Cbor.u64Max := Nat.le_of_lt_succ p.leafCount.toNat_lt
  unfold Checked.validateInclusionStructure Member.validateInclusionStructure
  dsimp only
  by_cases hshape : p.leafCount.toNat = 0 ∨ p.leafIndex.toNat ≥ p.leafCount.toNat ∨ p.siblings.length > maxLevels
  · rw [if_pos hshape, if_pos (by tauto)]
    rfl
  · have hexpected : Checked.expectedSiblingCount p.leafCount.toNat p.leafIndex.toNat =
        .ok (Member.expectedSiblingCount p.leafCount.toNat p.leafIndex.toNat) := by
      unfold Checked.expectedSiblingCount Member.expectedSiblingCount
      rw [if_neg (by omega), if_neg (by omega), Checked.siblingCountLoop_eq (by omega) (by omega)]
    rw [if_neg hshape, hexpected]
    simp only [bind, Except.bind]
    by_cases hlen : p.siblings.length ≠ Member.expectedSiblingCount p.leafCount.toNat p.leafIndex.toNat
    · rw [if_pos hlen, if_pos (by tauto)]
      rfl
    · rw [if_neg hlen, if_neg (by tauto), Checked.validateSides_eq (by omega) hcount]

/-! ### The reader and the head reader of the codec -/

/-- What the codec refuses the reader refuses, with its one error. -/
def refuse {α : Type} : Except CborError α → Except Failure α
  | .ok a => .ok a
  | .error _ => refused

theorem refuse_eq_ok {α : Type} {x : Except CborError α} {a : α} : refuse x = .ok a ↔ x = .ok a := by
  cases x with
  | ok b => simp [refuse]
  | error e => simp [refuse, refused]

theorem refuse_bind {α β : Type} {x : Except CborError α} {f : α → Except CborError β} {g : α → Except Failure β}
    (h : ∀ a, x = .ok a → g a = refuse (f a)) : (refuse x >>= g) = refuse (x >>= f) := by
  cases x with
  | ok a => exact h a rfl
  | error e => rfl

theorem ite_refused {α : Type} {c : Prop} [Decidable c] {x : Except Failure α} {a : α} :
    (if c then x else refused) = .ok a ↔ c ∧ x = .ok a := by
  split_ifs with hc <;> simp [hc, refused]

theorem refused_ite {α : Type} {c : Prop} [Decidable c] {x : Except Failure α} {a : α} :
    (if c then refused else x) = .ok a ↔ ¬ c ∧ x = .ok a := by
  split_ifs with hc <;> simp [hc, refused]

namespace InclusionProofReader

variable {r r' : InclusionProofReader}

theorem take_eq (r : InclusionProofReader) (count : Nat) : take r count = refuse (Cbor.Reader.take r count) := by
  unfold take Cbor.Reader.take
  split_ifs <;> rfl

theorem index_ok {b : Bytes} {i : Nat} (h : i < b.length) : index b i = .ok b[i] := by
  rw [index, List.getElem?_eq_getElem h]

theorem readByte_eq (r : InclusionProofReader) : readByte r = refuse (Cbor.Reader.readU8 r) := by
  unfold readByte Cbor.Reader.readU8
  rw [take_eq]
  apply refuse_bind
  intro ⟨b, r₁⟩ htake
  obtain ⟨a, rfl⟩ := List.length_eq_one_iff.mp (Cbor.take_eq_ok.mp htake).1
  rfl

/-- Indexing stays inside what was taken. -/
theorem bigEndian_eq (b : Bytes) : bigEndian b b.length = .ok (fromBeBytes b) := by
  have hdigits : ∀ l : List Nat, (∀ i ∈ l, i < b.length) → l.mapM (index b) = .ok (l.map fun i => b.getD i 0) := by
    intro l hl
    induction l with
    | nil => rfl
    | cons i l ih =>
      have hi : i < b.length := hl i List.mem_cons_self
      rw [List.mapM_cons, index_ok hi, ih fun j hj => hl j (List.mem_cons_of_mem _ hj), List.map_cons,
        List.getD_eq_getElem?_getD, List.getElem?_eq_getElem hi]
      rfl
  have hall : (List.range b.length).map (fun i => b.getD i 0) = b := by
    apply List.ext_getElem
    · simp
    · intro i hi hi'
      simp [List.getElem?_eq_getElem hi']
  unfold bigEndian
  rw [hdigits _ fun i hi => List.mem_range.mp hi, hall]
  rfl

theorem readWide_eq (r : InclusionProofReader) (width short : Nat) :
    readWide r width short = refuse (Cbor.Reader.readWide r width short) := by
  unfold readWide Cbor.Reader.readWide
  rw [take_eq]
  apply refuse_bind
  intro ⟨b, r₁⟩ htake
  have hlen := (Cbor.take_eq_ok.mp htake).1
  dsimp only
  rw [← hlen, bigEndian_eq]
  show (if fromBeBytes b ≤ short then _ else _) = _
  split_ifs <;> rfl

theorem readArgument_eq (r : InclusionProofReader) (info : Nat) :
    readArgument r info = refuse (Cbor.Reader.readArg r info) := by
  unfold readArgument Cbor.Reader.readArg
  split_ifs
  · rfl
  · exact readWide_eq r 1 _
  · exact readWide_eq r 2 _
  · exact readWide_eq r 4 _
  · exact readWide_eq r 8 _
  · rfl
  · rfl

theorem readHead_eq (r : InclusionProofReader) : readHead r = refuse (Cbor.Reader.readHead r) := by
  unfold readHead Cbor.Reader.readHead
  rw [readByte_eq]
  apply refuse_bind
  intro ⟨initial, r₁⟩ _
  dsimp only
  rw [readArgument_eq]
  apply refuse_bind
  intro ⟨argument, r₂⟩ _
  rfl

theorem readHead_eq_ok {major argument : Nat} : readHead r = .ok ((major, argument), r') ↔
    major < 8 ∧ argument ≤ Cbor.u64Max ∧ Reads r (writeHead major argument) r' := by
  rw [readHead_eq, refuse_eq_ok, Cbor.readHead_eq_ok]

theorem take_eq_ok {count : Nat} {b : Bytes} : take r count = .ok (b, r') ↔ b.length = count ∧ Reads r b r' := by
  rw [take_eq, refuse_eq_ok, Cbor.take_eq_ok]

/-! ### The reader is exact -/

theorem expectHead_eq_ok {major argument : Nat} (hmajor : major < 8) (hargument : argument ≤ Cbor.u64Max) :
    expectHead r major argument = .ok r' ↔ Reads r (writeHead major argument) r' := by
  unfold expectHead
  rw [bind_eq_ok_iff]
  constructor
  · intro ⟨⟨head, r₁⟩, hhead, h⟩
    obtain ⟨hexpected, h⟩ := ite_refused.mp h
    cases h
    rw [hexpected] at hhead
    exact (readHead_eq_ok.mp hhead).2.2
  · intro h
    exact ⟨_, readHead_eq_ok.mpr ⟨hmajor, hargument, h⟩, if_pos rfl⟩

theorem expectText_eq_ok {s : String} (hs : (asBytes s).length ≤ Cbor.u64Max) :
    expectText r (asBytes s) = .ok r' ↔ Reads r (encodedKey s) r' := by
  unfold expectText
  rw [encodedKey, Cbor.lenArg_of_le hs, Cbor.reads_append, bind_eq_ok_iff]
  apply exists_congr
  intro r₁
  rw [expectHead_eq_ok (by omega) hs, bind_eq_ok_iff]
  apply and_congr_right
  intro _
  constructor
  · intro htext
    obtain ⟨⟨b, r₂⟩, htake, h⟩ := htext
    obtain ⟨hb, h⟩ := ite_refused.mp h
    cases h
    rw [← hb]
    exact (take_eq_ok.mp htake).2
  · intro h
    exact ⟨_, take_eq_ok.mpr ⟨rfl, h⟩, if_pos rfl⟩

theorem readUint_eq_ok {n : UInt64} : readUint r = .ok (n, r') ↔ Reads r (CborV2.encode (.uint n)) r' := by
  unfold readUint
  rw [CborV2.encode, bind_eq_ok_iff]
  constructor
  · intro ⟨⟨⟨major, value⟩, r₁⟩, hhead, h⟩
    obtain ⟨hmajor, h⟩ := ite_refused.mp h
    cases h
    obtain ⟨-, hle, hreads⟩ := readHead_eq_ok.mp hhead
    have hvalue : (UInt64.ofNat value).toNat = value := UInt64.toNat_ofNat_of_lt' (Nat.lt_of_le_of_lt hle (by decide))
    rwa [hvalue, ← hmajor]
  · intro h
    refine ⟨_, readHead_eq_ok.mpr ⟨by omega, Nat.le_of_lt_succ n.toNat_lt, h⟩, ?_⟩
    dsimp only
    rw [if_pos rfl, UInt64.ofNat_toNat]
    rfl

theorem readSide_eq_ok {length : Nat} {side : SiblingSide} :
    readSide r length = .ok (side, r') ↔ length = (asBytes side.text).length ∧ Reads r (asBytes side.text) r' := by
  have hleft : (asBytes SiblingSide.left.text).length = 4 := by decide
  have hright : (asBytes SiblingSide.right.text).length = 5 := by decide
  unfold readSide
  constructor
  · intro h
    split_ifs at h with hfour hfive
    · obtain ⟨⟨b, r₁⟩, htake, h⟩ := bind_eq_ok_iff.mp h
      obtain ⟨hb, h⟩ := ite_refused.mp h
      cases h
      exact ⟨hfour.trans hleft.symm, hb ▸ (take_eq_ok.mp htake).2⟩
    · obtain ⟨⟨b, r₁⟩, htake, h⟩ := bind_eq_ok_iff.mp h
      obtain ⟨hb, h⟩ := ite_refused.mp h
      cases h
      exact ⟨hfive.trans hright.symm, hb ▸ (take_eq_ok.mp htake).2⟩
    · cases h
  · intro ⟨hlength, hreads⟩
    cases side with
    | left =>
      rw [if_pos (hlength.trans hleft)]
      exact bind_eq_ok_iff.mpr ⟨_, take_eq_ok.mpr ⟨hleft, hreads⟩, if_pos rfl⟩
    | right =>
      rw [if_neg (by omega), if_pos (hlength.trans hright)]
      exact bind_eq_ok_iff.mpr ⟨_, take_eq_ok.mpr ⟨hright, hreads⟩, if_pos rfl⟩

/-- The encoder sorts the fields of a step. -/
theorem encode_step (step : ProofStep) : CborV2.encode step.toCborValue =
    writeHead 5 2 ++ (encodedKey "hash" ++ (writeHead 2 32 ++ (step.hash.asBytes ++
      (encodedKey "side" ++ (writeHead 3 (asBytes step.side.text).length ++ asBytes step.side.text))))) := by
  have hlen : lenArg step.hash.asBytes.length = 32 := by
    rw [Id.length_asBytes]
    rfl
  have hside : lenArg (asBytes step.side.text).length = (asBytes step.side.text).length := by
    cases step.side <;> decide
  have hbefore : ¬ encodedKey "side" ≤ encodedKey "hash" := by decide
  simp [ProofStep.toCborValue, CborV2.encode, CborV2.encodeEntries, Cbor.sortEntries, hbefore, hlen, hside,
    show lenArg 2 = 2 from rfl]

theorem readStep_eq_ok {step : ProofStep} :
    readStep r = .ok (step, r') ↔ True ∧ Reads r (CborV2.encode step.toCborValue) r' := by
  rw [true_and, encode_step]
  unfold readStep
  have hkey : ∀ {s t u}, (asBytes s).length ≤ Cbor.u64Max →
      (expectText t (asBytes s) = .ok u ↔ Reads t (encodedKey s) u) :=
    fun hs => expectText_eq_ok hs
  constructor
  · intro h
    obtain ⟨r₁, hmap, h⟩ := bind_eq_ok_iff.mp h
    obtain ⟨r₂, hhash, h⟩ := bind_eq_ok_iff.mp h
    obtain ⟨r₃, hbytes, h⟩ := bind_eq_ok_iff.mp h
    obtain ⟨⟨b, r₄⟩, htake, h⟩ := bind_eq_ok_iff.mp h
    obtain ⟨hash, hhashOf, h⟩ := bind_eq_ok_iff.mp h
    obtain ⟨r₅, hside, h⟩ := bind_eq_ok_iff.mp h
    obtain ⟨⟨⟨major, length⟩, r₆⟩, hhead, h⟩ := bind_eq_ok_iff.mp h
    obtain ⟨hmajor, h⟩ := refused_ite.mp h
    obtain ⟨⟨side, r₇⟩, htext, h⟩ := bind_eq_ok_iff.mp h
    cases h
    unfold hashOf at hhashOf
    split at hhashOf
    · rename_i hash' hid
      cases hhashOf
      rw [Id.ofBytes_eq_some] at hid
      obtain ⟨hlength, hlast⟩ := readSide_eq_ok.mp htext
      obtain ⟨-, -, hthree⟩ := readHead_eq_ok.mp hhead
      rw [not_not.mp hmajor, hlength] at hthree
      rw [hid] at htake
      exact Cbor.reads_append.mpr ⟨r₁, (expectHead_eq_ok (by omega) (by decide)).mp hmap, Cbor.reads_append.mpr ⟨r₂,
        (hkey (by decide)).mp hhash, Cbor.reads_append.mpr ⟨r₃, (expectHead_eq_ok (by omega) (by decide)).mp hbytes,
        Cbor.reads_append.mpr ⟨r₄, (take_eq_ok.mp htake).2, Cbor.reads_append.mpr ⟨r₅, (hkey (by decide)).mp hside,
        Cbor.reads_append.mpr ⟨r₆, hthree, hlast⟩⟩⟩⟩⟩⟩
    · cases hhashOf
  · intro h
    obtain ⟨r₁, hmap, h⟩ := Cbor.reads_append.mp h
    obtain ⟨r₂, hhash, h⟩ := Cbor.reads_append.mp h
    obtain ⟨r₃, hbytes, h⟩ := Cbor.reads_append.mp h
    obtain ⟨r₄, htake, h⟩ := Cbor.reads_append.mp h
    obtain ⟨r₅, hside, h⟩ := Cbor.reads_append.mp h
    obtain ⟨r₆, hhead, hlast⟩ := Cbor.reads_append.mp h
    have hlength : (asBytes step.side.text).length ≤ Cbor.u64Max := by
      cases step.side <;> decide
    have hhashOf : hashOf step.hash.asBytes = .ok step.hash := by
      rw [hashOf, Id.ofBytes_eq_some.mpr rfl]
    refine bind_eq_ok_iff.mpr ⟨r₁, (expectHead_eq_ok (by omega) (by decide)).mpr hmap, bind_eq_ok_iff.mpr ⟨r₂,
      (hkey (by decide)).mpr hhash, bind_eq_ok_iff.mpr ⟨r₃, (expectHead_eq_ok (by omega) (by decide)).mpr hbytes,
      bind_eq_ok_iff.mpr ⟨_, take_eq_ok.mpr ⟨Id.length_asBytes _, htake⟩, bind_eq_ok_iff.mpr ⟨_, hhashOf,
      bind_eq_ok_iff.mpr ⟨r₅, (hkey (by decide)).mpr hside, bind_eq_ok_iff.mpr ⟨_, readHead_eq_ok.mpr
      ⟨by omega, hlength, hhead⟩, ?_⟩⟩⟩⟩⟩⟩⟩
    dsimp only
    rw [if_neg (not_not.mpr rfl)]
    exact bind_eq_ok_iff.mpr ⟨_, readSide_eq_ok.mpr ⟨rfl, hlast⟩, rfl⟩

end InclusionProofReader

open InclusionProofReader

/-- The start of a proof, up to the number of its siblings. -/
def opening (siblingCount : Nat) : Bytes := writeHead 5 3 ++ (encodedKey "siblings" ++ writeHead 4 siblingCount)

theorem readSiblingCount_eq_ok {input : Bytes} {siblingCount : Nat} {r : InclusionProofReader} :
    readSiblingCount input = .ok (siblingCount, r) ↔
      siblingCount ≤ maxLevels ∧ Reads ⟨input, 0⟩ (opening siblingCount) r := by
  unfold readSiblingCount opening
  constructor
  · intro h
    obtain ⟨r₁, hmap, h⟩ := bind_eq_ok_iff.mp h
    obtain ⟨r₂, hkey, h⟩ := bind_eq_ok_iff.mp h
    obtain ⟨⟨⟨major, count⟩, r₃⟩, hhead, h⟩ := bind_eq_ok_iff.mp h
    obtain ⟨hcount, h⟩ := refused_ite.mp h
    cases h
    push Not at hcount
    obtain ⟨-, -, harray⟩ := readHead_eq_ok.mp hhead
    rw [hcount.1] at harray
    exact ⟨hcount.2, Cbor.reads_append.mpr ⟨r₁, (expectHead_eq_ok (by omega) (by decide)).mp hmap, Cbor.reads_append.mpr
      ⟨r₂, (expectText_eq_ok (by decide)).mp hkey, harray⟩⟩⟩
  · intro ⟨hcount, hreads⟩
    obtain ⟨r₁, hmap, hreads⟩ := Cbor.reads_append.mp hreads
    obtain ⟨r₂, hkey, harray⟩ := Cbor.reads_append.mp hreads
    have hle : siblingCount ≤ Cbor.u64Max := hcount.trans (by decide)
    exact bind_eq_ok_iff.mpr ⟨r₁, (expectHead_eq_ok (by omega) (by decide)).mpr hmap, bind_eq_ok_iff.mpr ⟨r₂,
      (expectText_eq_ok (by decide)).mpr hkey, bind_eq_ok_iff.mpr ⟨_, readHead_eq_ok.mpr ⟨by omega, hle, harray⟩,
      refused_ite.mpr ⟨by omega, rfl⟩⟩⟩⟩

/-- The encoder sorts the fields of a proof. -/
theorem canonicalBytes_eq (p : InclusionProof) (hlen : p.siblings.length ≤ Cbor.u64Max) : p.canonicalBytes =
    opening p.siblings.length ++ (p.siblings.flatMap (fun step => CborV2.encode step.toCborValue) ++
      (encodedKey "leaf_count" ++ (CborV2.encode (.uint p.leafCount) ++
        (encodedKey "leaf_index" ++ CborV2.encode (.uint p.leafIndex))))) := by
  have hcount : ¬ encodedKey "leaf_count" ≤ encodedKey "siblings" := by decide
  have hindex : ¬ encodedKey "leaf_index" ≤ encodedKey "siblings" := by decide
  have hfields : encodedKey "leaf_count" ≤ encodedKey "leaf_index" := by decide
  simp [InclusionProof.canonicalBytes, InclusionProof.toCborValue, CborV2.encode, CborV2.encodeEntries, Cbor.sortEntries,
    CborV2.encodeItems_eq, List.flatMap_map, opening, hcount, hindex, hfields, Cbor.lenArg_of_le hlen,
    show lenArg 3 = 3 from rfl]

theorem length_writeHead_le (major arg : Nat) : (writeHead major arg).length ≤ 9 := by
  unfold writeHead
  dsimp only
  split_ifs <;> simp [Cbor.length_beBytes]

theorem length_encode_step_le (step : ProofStep) : (CborV2.encode step.toCborValue).length ≤ 128 := by
  have hmap := length_writeHead_le 5 2
  have hbytes := length_writeHead_le 2 32
  have htext := length_writeHead_le 3 (asBytes step.side.text).length
  have hhash : (encodedKey "hash").length = 5 := by decide
  have hside : (encodedKey "side").length = 5 := by decide
  have hlast : (asBytes step.side.text).length ≤ 5 := by
    cases step.side <;> decide
  rw [encode_step]
  simp only [List.length_append, Id.length_asBytes, hhash, hside]
  omega

/-- A proof of the right shape is short. -/
theorem length_canonicalBytes_le {p : InclusionProof} (hmax : p.siblings.length ≤ maxLevels) :
    p.canonicalBytes.length ≤ usizeMax := by
  have hsteps : (p.siblings.flatMap fun step => CborV2.encode step.toCborValue).length ≤ p.siblings.length * 128 := by
    induction p.siblings with
    | nil => simp
    | cons step steps ih =>
      have hstep := length_encode_step_le step
      rw [List.flatMap_cons, List.length_append, List.length_cons]
      omega
  have hmap := length_writeHead_le 5 3
  have harray := length_writeHead_le 4 p.siblings.length
  have hcount := length_writeHead_le 0 p.leafCount.toNat
  have hindex := length_writeHead_le 0 p.leafIndex.toNat
  have hkeys : (encodedKey "siblings").length = 9 ∧ (encodedKey "leaf_count").length = 11 ∧
      (encodedKey "leaf_index").length = 11 := by decide
  have hbig : 8192 + 67 ≤ usizeMax := by decide
  unfold maxLevels at hmax
  rw [canonicalBytes_eq p (hmax.trans (by decide)), opening]
  simp only [List.length_append, CborV2.encode, hkeys]
  omega

theorem decodeInclusionProof_eq_ok {b : Bytes} {p : InclusionProof} : decodeInclusionProof b = .ok p ↔
    validateInclusionStructure p = .ok () ∧ b = p.canonicalBytes := by
  have hvalid : ∀ p, Checked.validateInclusionStructure p = .ok () ↔ validateInclusionStructure p = .ok () := by
    intro p
    rw [Checked.validateInclusionStructure_eq, toFailure]
    cases validateInclusionStructure p <;> simp [Except.mapError]
  have hfits : ∀ {n}, n ≤ maxLevels → n ≤ Cbor.u64Max := fun h => h.trans (by decide)
  unfold decodeInclusionProof
  constructor
  · intro h
    obtain ⟨⟨siblingCount, r₁⟩, hopening, h⟩ := bind_eq_ok_iff.mp h
    obtain ⟨⟨siblings, r₂⟩, hsteps, h⟩ := bind_eq_ok_iff.mp h
    obtain ⟨r₃, hcountKey, h⟩ := bind_eq_ok_iff.mp h
    obtain ⟨⟨leafCount, r₄⟩, hcount, h⟩ := bind_eq_ok_iff.mp h
    obtain ⟨r₅, hindexKey, h⟩ := bind_eq_ok_iff.mp h
    obtain ⟨⟨leafIndex, r₆⟩, hindex, h⟩ := bind_eq_ok_iff.mp h
    obtain ⟨hend, h⟩ := refused_ite.mp h
    obtain ⟨_, hshape, h⟩ := bind_eq_ok_iff.mp h
    cases h
    obtain ⟨hmax, hfirst⟩ := readSiblingCount_eq_ok.mp hopening
    obtain ⟨rfl, -, hsteps⟩ := (Cursor.readMany_eq_ok readStep_eq_ok hfirst.valid).mp hsteps
    refine ⟨(hvalid _).mp hshape, ?_⟩
    rw [canonicalBytes_eq _ (hfits hmax)]
    -- the bytes passed over are the whole input
    refine ((Cbor.reads_all ?_).mp (not_not.mp hend)).symm
    exact Cbor.reads_append.mpr ⟨r₁, hfirst, Cbor.reads_append.mpr ⟨r₂, hsteps, Cbor.reads_append.mpr ⟨r₃,
      (expectText_eq_ok (by decide)).mp hcountKey, Cbor.reads_append.mpr ⟨r₄, readUint_eq_ok.mp hcount,
      Cbor.reads_append.mpr ⟨r₅, (expectText_eq_ok (by decide)).mp hindexKey, readUint_eq_ok.mp hindex⟩⟩⟩⟩⟩
  · intro ⟨hshape, hb⟩
    obtain ⟨-, hmax, -⟩ := (validateInclusionStructure_iff p).mp hshape
    have hall : Reads ⟨b, 0⟩ p.canonicalBytes ⟨b, b.length⟩ := by
      rw [← hb]
      exact ⟨rfl, (Nat.zero_add _).symm, ⟨le_rfl, hb ▸ length_canonicalBytes_le hmax⟩, List.take_length⟩
    rw [canonicalBytes_eq _ (hfits hmax)] at hall
    obtain ⟨r₁, hfirst, hall⟩ := Cbor.reads_append.mp hall
    obtain ⟨r₂, hsteps, hall⟩ := Cbor.reads_append.mp hall
    obtain ⟨r₃, hcountKey, hall⟩ := Cbor.reads_append.mp hall
    obtain ⟨r₄, hcount, hall⟩ := Cbor.reads_append.mp hall
    obtain ⟨r₅, hindexKey, hindex⟩ := Cbor.reads_append.mp hall
    have hmany := (Cursor.readMany_eq_ok readStep_eq_ok hfirst.valid).mpr ⟨rfl, fun _ _ => trivial, hsteps⟩
    exact bind_eq_ok_iff.mpr ⟨_, readSiblingCount_eq_ok.mpr ⟨hmax, hfirst⟩, bind_eq_ok_iff.mpr ⟨_, hmany,
      bind_eq_ok_iff.mpr ⟨r₃, (expectText_eq_ok (by decide)).mpr hcountKey, bind_eq_ok_iff.mpr ⟨_,
      readUint_eq_ok.mpr hcount, bind_eq_ok_iff.mpr ⟨r₅, (expectText_eq_ok (by decide)).mpr hindexKey,
      bind_eq_ok_iff.mpr ⟨_, readUint_eq_ok.mpr hindex, refused_ite.mpr ⟨not_not.mpr rfl, bind_eq_ok_iff.mpr
      ⟨(), (hvalid p).mpr hshape, rfl⟩⟩⟩⟩⟩⟩⟩⟩

/-! ### Refusals -/

/-- A call that fails only by refusing its input. -/
def Clean {α : Type} (x : Except Failure α) : Prop := ∀ e, x = .error e → e = .reject .invalidMerkleProof

section Clean

variable {α β : Type}

theorem clean_ok (a : α) : Clean (.ok a : Except Failure α) := by
  intro e h
  cases h

theorem clean_refused : Clean (refused : Except Failure α) := by
  intro e h
  cases h
  rfl

theorem clean_refuse (x : Except CborError α) : Clean (refuse x) := by
  cases x with
  | ok a => exact clean_ok a
  | error e => exact clean_refused

theorem Clean.bind {x : Except Failure α} {f : α → Except Failure β} (hx : Clean x) (hf : ∀ a, Clean (f a)) :
    Clean (x >>= f) := by
  cases x with
  | ok a => exact hf a
  | error e =>
    intro e' h
    cases h
    exact hx e rfl

theorem Clean.ite {c : Prop} [Decidable c] {x y : Except Failure α} (hx : Clean x) (hy : Clean y) :
    Clean (if c then x else y) := by
  split_ifs
  · exact hx
  · exact hy

end Clean

theorem clean_toFailure {α : Type} {x : Except Reject α} (h : ∀ e, x = .error e → e = .invalidMerkleProof) :
    Clean (toFailure x) := by
  cases x with
  | ok a => exact clean_ok a
  | error e =>
    rw [h e rfl]
    exact clean_refused

theorem validateSides_error {fuel count i : Nat} {steps : List ProofStep} {e : Reject}
    (h : validateSides fuel count i steps = .error e) : e = .invalidMerkleProof := by
  induction fuel generalizing count i steps with
  | zero =>
    unfold validateSides at h
    split_ifs at h
    cases h
    rfl
  | succ fuel ih =>
    unfold validateSides at h
    by_cases hone : count > 1
    · rw [if_pos hone] at h
      cases hside : expectedSide count i with
      | none =>
        rw [hside] at h
        exact ih h
      | some side =>
        rw [hside] at h
        cases steps with
        | nil =>
          cases h
          rfl
        | cons step steps =>
          dsimp only at h
          split_ifs at h
          · cases h
            rfl
          · exact ih h
    · rw [if_neg hone] at h
      split_ifs at h
      cases h
      rfl

theorem clean_validate (p : InclusionProof) : Clean (Checked.validateInclusionStructure p) := by
  rw [Checked.validateInclusionStructure_eq]
  apply clean_toFailure
  intro e h
  unfold validateInclusionStructure at h
  dsimp only at h
  split_ifs at h
  · cases h
    rfl
  · exact validateSides_error h

namespace InclusionProofReader

theorem clean_take (r : InclusionProofReader) (count : Nat) : Clean (take r count) := by
  rw [take_eq]
  exact clean_refuse _

theorem clean_readHead (r : InclusionProofReader) : Clean (readHead r) := by
  rw [readHead_eq]
  exact clean_refuse _

theorem clean_expectHead (r : InclusionProofReader) (major argument : Nat) : Clean (expectHead r major argument) :=
  (clean_readHead r).bind fun _ => .ite (clean_ok _) clean_refused

theorem clean_expectText (r : InclusionProofReader) (expected : Bytes) : Clean (expectText r expected) :=
  (clean_expectHead _ _ _).bind fun _ => (clean_take _ _).bind fun _ => .ite (clean_ok _) clean_refused

theorem clean_readUint (r : InclusionProofReader) : Clean (readUint r) :=
  (clean_readHead r).bind fun _ => .ite (clean_ok _) clean_refused

theorem clean_readSide (r : InclusionProofReader) (length : Nat) : Clean (readSide r length) := by
  have htext : ∀ (n : Nat) (b : Bytes) (side : SiblingSide), Clean (take r n >>= fun x =>
      if x.1 = b then (.ok (side, x.2) : Except Failure (SiblingSide × InclusionProofReader)) else refused) :=
    fun n b side => (clean_take r n).bind fun _ => .ite (clean_ok _) clean_refused
  exact .ite (htext 4 _ _) (.ite (htext 5 _ _) clean_refused)

theorem clean_hashOf (b : Bytes) : Clean (hashOf b) := by
  unfold hashOf
  split
  · exact clean_ok _
  · exact clean_refused

theorem clean_readStep (r : InclusionProofReader) : Clean (readStep r) := by
  refine (clean_expectHead _ _ _).bind fun _ => (clean_expectText _ _).bind fun _ => (clean_expectHead _ _ _).bind fun _ =>
    (clean_take _ _).bind fun _ => (clean_hashOf _).bind fun _ => (clean_expectText _ _).bind fun _ =>
    (clean_readHead _).bind fun _ => .ite clean_refused ?_
  exact (clean_readSide _ _).bind fun _ => clean_ok _

theorem clean_readSteps (n : Nat) (r : InclusionProofReader) : Clean (Cursor.readMany readStep n r) := by
  induction n generalizing r with
  | zero => exact clean_ok _
  | succ n ih => exact (clean_readStep r).bind fun _ => (ih _).bind fun _ => clean_ok _

end InclusionProofReader

theorem clean_decodeInclusionProof (b : Bytes) : Clean (decodeInclusionProof b) := by
  have hopening : Clean (readSiblingCount b) := (clean_expectHead _ _ _).bind fun _ => (clean_expectText _ _).bind fun _ =>
    (clean_readHead _).bind fun _ => .ite clean_refused (clean_ok _)
  refine hopening.bind fun _ => (clean_readSteps _ _).bind fun _ => (clean_expectText _ _).bind fun _ =>
    (clean_readUint _).bind fun _ => (clean_expectText _ _).bind fun _ => (clean_readUint _).bind fun _ =>
    .ite clean_refused ?_
  exact (clean_validate _).bind fun _ => clean_ok _

/-- Room is reserved only for a number of siblings that the input announces after eleven bytes, and for few. -/
theorem reserved_le (b : Bytes) : reserved b ≤ maxLevels ∧ reserved b ≤ 6 * b.length := by
  unfold reserved
  cases h : readSiblingCount b with
  | error e => exact ⟨Nat.zero_le _, Nat.zero_le _⟩
  | ok found =>
    obtain ⟨siblingCount, r⟩ := found
    obtain ⟨hmax, hreads⟩ := readSiblingCount_eq_ok.mp h
    have hroom : (opening siblingCount).length ≤ b.length - 0 := hreads.length_le.1
    have hmap := Cbor.one_le_length_writeHead 5 3
    have harray := Cbor.one_le_length_writeHead 4 siblingCount
    have hkey : (encodedKey "siblings").length = 9 := by decide
    rw [opening, List.length_append, List.length_append, hkey] at hroom
    unfold maxLevels at hmax
    exact ⟨hmax, by dsimp only; omega⟩

/-- The decoder accepts exactly the encodings of proofs of the right shape. Whatever the input, it only ever fails by
refusing it, and it reserves room for no more siblings than a path can have and the length of the input allows. -/
theorem decodeInclusionProof_exact (b : Bytes) :
    (∀ p, decodeInclusionProof b = .ok p ↔ validateInclusionStructure p = .ok () ∧ b = p.canonicalBytes) ∧
    (∀ e, decodeInclusionProof b = .error e → e = .reject .invalidMerkleProof) ∧
    reserved b ≤ maxLevels ∧ reserved b ≤ 6 * b.length :=
  ⟨fun _ => decodeInclusionProof_eq_ok, clean_decodeInclusionProof b, reserved_le b⟩

end IrohRooms.Member
