import IrohRooms.Event.CborExact
import IrohRooms.Event.Codec

/-!
# What the field reader takes in

A map is encoded by its keys and the bytes of their values, in whatever order they are listed (`mapBytes_perm`). A strict
read that succeeds has asked for every key of the map, so the encoding of the map is that of the entries it asked for.
`Renders` says of a reader what these entries are, and has one rule for each way readers are put together.
-/

namespace IrohRooms

/-! ### The bytes of a map -/

namespace Cbor

instance : Std.Total fun a b : Bytes × Bytes => a.1 ≤ b.1 := ⟨fun a b => List.le_total a.1 b.1⟩

instance : IsTrans (Bytes × Bytes) fun a b => a.1 ≤ b.1 := ⟨fun _ _ _ => List.le_trans⟩

/-- The entries of a map with their values encoded. -/
def render (entries : List (String × CborValue)) : List (String × Bytes) := entries.map fun e => (e.1, encode e.2)

@[simp] theorem render_append (l l' : List (String × CborValue)) : render (l ++ l') = render l ++ render l' :=
  List.map_append

@[simp] theorem render_cons (e : String × CborValue) (l : List (String × CborValue)) :
    render (e :: l) = (e.1, encode e.2) :: render l := rfl

@[simp] theorem render_nil : render [] = [] := rfl

/-- The encoding of a map from the encodings of its values. -/
def mapBytes (l : List (String × Bytes)) : Bytes :=
  writeHead 5 (lenArg l.length) ++ (sortEntries (l.map fun e => (encodedKey e.1, e.2))).flatMap fun e => e.1 ++ e.2

theorem encode_map_eq (entries : List (String × CborValue)) : encode (.map entries) = mapBytes (render entries) := by
  rw [encode, encodeEntries_eq, mapBytes, render, List.map_map, List.length_map]
  rfl

theorem Form.length_eq {arg arg' info : Nat} {rest rest' : Bytes} (h : Form arg info rest) (h' : Form arg' info rest') :
    rest.length = rest'.length := by
  cases h <;> cases h' <;> first | omega | rw [length_beBytes, length_beBytes]

/-- Keys are told apart by their encoded forms. -/
theorem encodedKey_injective : Function.Injective encodedKey := by
  intro k k' h
  obtain ⟨info, rest, hform⟩ := exists_form (Nat.min_le_right (asBytes k).length u64Max)
  obtain ⟨info', rest', hform'⟩ := exists_form (Nat.min_le_right (asBytes k').length u64Max)
  unfold encodedKey lenArg at h
  rw [writeHead_eq hform, writeHead_eq hform', List.cons_append, List.cons_append, List.cons.injEq] at h
  have hinfo : info = info' := by
    rw [← (byte_join (by omega : 3 < 8) hform.info_lt).2, h.1, (byte_join (by omega : 3 < 8) hform'.info_lt).2]
  subst hinfo
  have hbytes : asBytes k = asBytes k' := (List.append_inj h.2 (hform.length_eq hform')).2
  exact Option.some.inj ((fromUtf8_eq_some.mpr hbytes).symm.trans (fromUtf8_eq_some.mpr rfl))

/-- No key is listed twice. -/
def KeysOnce (l : List (String × Bytes)) : Prop := (l.map fun e => encodedKey e.1).Nodup

theorem sortEntries_perm {l l' : List (Bytes × Bytes)} (hperm : l.Perm l') (honce : (l.map Prod.fst).Nodup) :
    sortEntries l = sortEntries l' := by
  have hsorted : ∀ l : List (Bytes × Bytes), (sortEntries l).Pairwise fun a b => a.1 ≤ b.1 :=
    fun l => List.pairwise_insertionSort _ l
  have hsame : (sortEntries l).Perm (sortEntries l') :=
    ((List.perm_insertionSort _ l).trans hperm).trans (List.perm_insertionSort _ l').symm
  refine List.Perm.eq_of_pairwise ?_ (hsorted l) (hsorted l') hsame
  intro a b ha hb hab hba
  have hmem : a ∈ l := (List.perm_insertionSort _ l).mem_iff.mp ha
  have hmem' : b ∈ l := hperm.mem_iff.mpr ((List.perm_insertionSort _ l').mem_iff.mp hb)
  exact List.inj_on_of_nodup_map honce hmem hmem' (List.le_antisymm hab hba)

theorem mapBytes_perm {l l' : List (String × Bytes)} (hperm : l.Perm l') (honce : KeysOnce l) :
    mapBytes l = mapBytes l' := by
  have honce' : ((l.map fun e => (encodedKey e.1, e.2)).map Prod.fst).Nodup := by
    rw [List.map_map]
    exact honce
  rw [mapBytes, mapBytes, hperm.length_eq, sortEntries_perm (hperm.map _) honce']

theorem KeysOnce.perm {l l' : List (String × Bytes)} (h : KeysOnce l) (hperm : l.Perm l') : KeysOnce l' :=
  (hperm.map _).nodup_iff.mp h

/-- Where a key is sorted in does not depend on its value. -/
theorem sortEntries_cons (k : Bytes) (l : List (Bytes × Bytes)) : ∃ before after, ∀ x,
    sortEntries ((k, x) :: l) = before ++ (k, x) :: after := by
  refine ⟨(sortEntries l).takeWhile fun b => ¬ k ≤ b.1, (sortEntries l).dropWhile fun b => ¬ k ≤ b.1, fun x => ?_⟩
  exact List.orderedInsert_eq_take_drop _ _ _

/-- Two maps that differ in one value are told apart by it. -/
theorem mapBytes_cons_inj {k : String} {x y : Bytes} {l : List (String × Bytes)} :
    mapBytes ((k, x) :: l) = mapBytes ((k, y) :: l) ↔ x = y := by
  constructor
  · intro h
    obtain ⟨before, after, hsort⟩ := sortEntries_cons (encodedKey k) (l.map fun e => (encodedKey e.1, e.2))
    unfold mapBytes at h
    rw [List.map_cons, List.map_cons, hsort, hsort, List.length_cons, List.length_cons, List.append_cancel_left_eq,
      List.flatMap_append, List.flatMap_append, List.append_cancel_left_eq, List.flatMap_cons, List.flatMap_cons,
      List.append_cancel_right_eq, List.append_cancel_left_eq] at h
    exact h
  · intro h
    rw [h]

end Cbor

/-! ### Readers -/

open Cbor

@[simp] theorem okOr_eq_ok {α : Type} {o : Option α} {reason : RejectReason} {a : α} :
    okOr o reason = .ok a ↔ o = some a := by
  cases o <;> simp [okOr]

theorem ensure_eq_ok {c : Prop} [Decidable c] {u : Unit} : ensure c = .ok u ↔ c := by
  unfold ensure
  split_ifs with h <;> simp [h]

/-- What is read encodes as it was written. -/
def Exact {α : Type} (read : CborValue → Except RejectReason α) (write : α → CborValue) : Prop :=
  ∀ v a, read v = .ok a → encode (write a) = encode v

namespace Fields

/-- Only entries of these keys are marked. -/
structure Covered (f : Fields) (keys : List String) : Prop where
  length : f.consumed.length = f.entries.length
  marked : ∀ (i : Nat) (e : String × CborValue), f.entries[i]? = some e → f.consumed[i]? = some true → e.1 ∈ keys

theorem covered_new (entries : List (String × CborValue)) :
    Covered ⟨entries, List.replicate entries.length false⟩ [] := by
  refine ⟨List.length_replicate, fun i e _ h => ?_⟩
  rw [List.getElem?_replicate] at h
  split_ifs at h
  cases h

/-- If everything was marked, every key was asked for. -/
theorem Covered.finish {f : Fields} {keys : List String} (h : f.Covered keys) (hfinish : f.finish = .ok ()) :
    ∀ e ∈ f.entries, e.1 ∈ keys := by
  intro e he
  obtain ⟨i, hi⟩ := List.mem_iff_getElem?.mp he
  unfold Fields.finish at hfinish
  split_ifs at hfinish with hall
  have hlt : i < f.consumed.length := by
    rw [h.length]
    exact (List.getElem?_eq_some_iff.mp hi).1
  refine h.marked i e hi ?_
  rw [List.getElem?_eq_getElem hlt]
  exact congrArg some (List.all_eq_true.mp hall _ (List.getElem_mem hlt))

/-- The entries that are found under the keys, in the order they are asked for. -/
def asked (entries : List (String × CborValue)) (keys : List String) : List (String × CborValue) :=
  keys.filterMap fun k => (entries.lookup k).map fun v => (k, v)

/-- A reader asks for the keys, marks nothing else, and its result stands in relation `S` to the entries found. -/
def Asks {α : Type} (read : FieldReader α) (keys : List String) (S : α → List (String × CborValue) → Prop) : Prop :=
  ∀ f a f', read f = .ok (a, f') → f'.entries = f.entries ∧ (∀ ks, f.Covered ks → f'.Covered (ks ++ keys)) ∧
    S a (asked f.entries keys)

/-- The same with the values found taken by their encoding. -/
def Renders {α : Type} (read : FieldReader α) (keys : List String) (S : α → List (String × Bytes) → Prop) : Prop :=
  Asks read keys fun a out => S a (render out)

section Rules

variable {α β : Type} {read : FieldReader α} {next : α → FieldReader β} {keys : List String}

theorem Asks.pure {a : α} {S : α → List (String × CborValue) → Prop} (h : S a []) : Asks (Pure.pure a) [] S := by
  intro f a' f' hread
  cases hread
  exact ⟨rfl, fun ks hks => by rwa [List.append_nil], h⟩

/-- A step that asks for no key. -/
theorem Asks.lift {x : Except RejectReason α} {S : β → List (String × CborValue) → Prop}
    (h : ∀ a, x = .ok a → Asks (next a) keys S) : Asks (liftM x >>= next) keys S := by
  intro f b f' hread
  cases x with
  | error reason => cases hread
  | ok a => exact h a rfl f b f' hread

/-- One field after the other. -/
theorem Asks.bind {ks : List String} {R : α → List (String × CborValue) → Prop}
    {S : β → List (String × CborValue) → Prop} (hread : Asks read ks R)
    (hnext : ∀ a out, R a out → Asks (next a) keys fun b out' => S b (out ++ out')) :
    Asks (read >>= next) (ks ++ keys) S := by
  intro f b f' h
  obtain ⟨⟨a, f₁⟩, hfirst, hsecond⟩ := bind_eq_ok_iff.mp h
  obtain ⟨hentries, hcovered, hR⟩ := hread f a f₁ hfirst
  obtain ⟨hentries', hcovered', hS⟩ := hnext a _ hR f₁ b f' hsecond
  refine ⟨hentries'.trans hentries, fun ks' hks' => ?_, ?_⟩
  · rw [← List.append_assoc]
    exact hcovered' _ (hcovered ks' hks')
  · rw [hentries] at hS
    rwa [asked, List.filterMap_append]

theorem Renders.pure {a : α} {S : α → List (String × Bytes) → Prop} (h : S a []) : Renders (Pure.pure a) [] S :=
  Asks.pure h

theorem Renders.lift {x : Except RejectReason α} {S : β → List (String × Bytes) → Prop}
    (h : ∀ a, x = .ok a → Renders (next a) keys S) : Renders (liftM x >>= next) keys S :=
  Asks.lift h

/-- One field whose entries are a function of its value, and then the rest. -/
theorem Renders.field {key : String} {entries : α → List (String × CborValue)} {S : β → List (String × Bytes) → Prop}
    (hread : Renders read [key] fun a out => out = render (entries a))
    (hnext : ∀ a, Renders (next a) keys fun b out => S b (render (entries a) ++ out)) :
    Renders (read >>= next) (key :: keys) S := by
  refine Asks.bind hread fun a out hout f b f' h => ?_
  obtain ⟨hentries, hcovered, hS⟩ := hnext a f b f' h
  refine ⟨hentries, hcovered, ?_⟩
  dsimp only at hS ⊢
  rwa [render_append, hout]

end Rules

theorem lookup_of_findIdx? {l : List (String × CborValue)} {key : String} {idx : Nat}
    (h : (l.findIdx? fun e => e.1 == key) = some idx) : l.lookup key = (l[idx]?).map Prod.snd := by
  induction l generalizing idx with
  | nil => cases h
  | cons e l ih =>
    obtain ⟨first, v⟩ := e
    rw [List.findIdx?_cons] at h
    by_cases hkey : first = key
    · rw [if_pos (by simpa using hkey)] at h
      cases h
      simp [hkey]
    · rw [if_neg (by simpa using hkey)] at h
      obtain ⟨i, hi, rfl⟩ := Option.map_eq_some_iff.mp h
      have hne : (key == first) = false := by simpa using Ne.symm hkey
      rw [List.lookup_cons, hne, ih hi]
      rfl

/-- Looking up a key finds its first entry and marks that one. -/
theorem opt_eq (key : String) (f : Fields) : ∃ f', opt key f = .ok (f.entries.lookup key, f') ∧
    f'.entries = f.entries ∧ ∀ ks, f.Covered ks → f'.Covered (ks ++ [key]) := by
  have hwiden : ∀ ks, f.Covered ks → f.Covered (ks ++ [key]) :=
    fun ks h => ⟨h.length, fun i e he hm => List.mem_append_left _ (h.marked i e he hm)⟩
  unfold opt
  cases hfind : f.entries.findIdx? fun e => e.1 == key with
  | none =>
    refine ⟨f, ?_, rfl, hwiden⟩
    have hnone : f.entries.lookup key = none := by
      rw [List.lookup_eq_none_iff]
      intro e he
      have := List.findIdx?_eq_none_iff.mp hfind e he
      rw [beq_eq_false_iff_ne] at this
      simpa using Ne.symm this
    rw [hnone]
  | some idx =>
    obtain ⟨hlt, hkey, hbefore⟩ := List.findIdx?_eq_some_iff_getElem.mp hfind
    have hlookup := lookup_of_findIdx? hfind
    refine ⟨{ f with consumed := f.consumed.set idx true }, by rw [hlookup], rfl, fun ks h => ?_⟩
    refine ⟨by simpa using h.length, fun i e he hm => ?_⟩
    dsimp only at he hm
    rw [List.getElem?_set] at hm
    split_ifs at hm with hidx
    · subst hidx
      rw [List.getElem?_eq_getElem hlt] at he
      rw [← Option.some.inj he]
      simp [eq_of_beq hkey]
    · exact List.mem_append_left _ (h.marked i e he hm)

theorem asks_opt (key : String) : Asks (opt key) [key] fun v out => out = (v.map fun v => (key, v)).toList := by
  intro f a f' hread
  obtain ⟨f₁, hopt, hentries, hcovered⟩ := opt_eq key f
  rw [hopt] at hread
  cases hread
  refine ⟨hentries, hcovered, ?_⟩
  cases hlookup : f.entries.lookup key <;> simp [asked, hlookup]

theorem asks_require (key : String) : Asks (require key) [key] fun v out => out = [(key, v)] := by
  refine (asks_opt key).bind fun v out hout => ?_
  intro f a f' hread
  cases v with
  | none => cases hread
  | some v =>
    cases hread
    refine ⟨rfl, fun ks hks => by rwa [List.append_nil], ?_⟩
    rw [hout]
    rfl

section With

variable {α : Type} {read : CborValue → Except RejectReason α} (key : String)

theorem asks_requireWith :
    Asks (requireWith key read) [key] fun a out => ∃ v, read v = .ok a ∧ out = [(key, v)] := by
  refine (asks_require key).bind fun v out hout => ?_
  intro f a f' hread
  cases hv : read v with
  | error reason =>
    rw [hv] at hread
    cases hread
  | ok a' =>
    rw [hv] at hread
    cases hread
    refine ⟨rfl, fun ks hks => by rwa [List.append_nil], v, hv, ?_⟩
    rw [hout]
    rfl

theorem asks_optWith : Asks (optWith key read) [key] fun a out =>
    (a = none ∧ out = []) ∨ ∃ v x, read v = .ok x ∧ a = some x ∧ out = [(key, v)] := by
  refine (asks_opt key).bind fun v out hout => ?_
  intro f a f' hread
  cases v with
  | none =>
    cases hread
    exact ⟨rfl, fun ks hks => by rwa [List.append_nil], Or.inl ⟨rfl, by rw [hout]; rfl⟩⟩
  | some v =>
    dsimp only at hread
    cases hv : read v with
    | error reason =>
      rw [hv] at hread
      cases hread
    | ok x =>
      rw [hv] at hread
      cases hread
      exact ⟨rfl, fun ks hks => by rwa [List.append_nil], Or.inr ⟨v, x, hv, rfl, by rw [hout]; rfl⟩⟩

/-- A required field that is written as it was read. -/
theorem renders_required {write : α → CborValue} (h : Exact read write) :
    Renders (requireWith key read) [key] fun a out => out = render [(key, write a)] := by
  intro f a f' hread
  obtain ⟨hentries, hcovered, v, hv, hout⟩ := asks_requireWith key f a f' hread
  refine ⟨hentries, hcovered, ?_⟩
  dsimp only
  rw [hout, render_cons, render_cons, h v a hv]

/-- An optional field that is written as it was read. -/
theorem renders_optional {write : α → CborValue} (h : Exact read write) :
    Renders (optWith key read) [key] fun a out => out = render (pushOpt (fun x => (key, write x)) a) := by
  intro f a f' hread
  obtain ⟨hentries, hcovered, hcases⟩ := asks_optWith key f a f' hread
  refine ⟨hentries, hcovered, ?_⟩
  dsimp only
  rcases hcases with ⟨rfl, hout⟩ | ⟨v, x, hv, rfl, hout⟩
  · rw [hout]
    rfl
  · rw [hout, render_cons, ← h v x hv]
    rfl

end With

/-! ### Whole maps -/

theorem lookup_eq_some_of_once {l : List (String × CborValue)} (h : (l.map Prod.fst).Nodup) {k : String}
    {v : CborValue} : l.lookup k = some v ↔ (k, v) ∈ l := by
  induction l with
  | nil => simp
  | cons e l ih =>
    obtain ⟨first, v'⟩ := e
    obtain ⟨hfirst, hrest⟩ := List.nodup_cons.mp h
    by_cases hkey : k = first
    · subst hkey
      have hother : ∀ v, (k, v) ∉ l := fun v hv => hfirst (List.mem_map.mpr ⟨_, hv, rfl⟩)
      simp [hother, eq_comm]
    · have hne : (k == first) = false := by simpa using hkey
      rw [List.lookup_cons, hne, ih hrest]
      simp [hkey]

/-- When all keys of a map are asked for, its entries are those found. -/
theorem perm_asked {entries : List (String × CborValue)} {keys : List String} (honce : keys.Nodup)
    (hentries : (entries.map Prod.fst).Nodup) (hall : ∀ e ∈ entries, e.1 ∈ keys) :
    entries.Perm (asked entries keys) := by
  have hasked : (asked entries keys).Nodup := by
    refine honce.filterMap fun k k' b hb hb' => ?_
    obtain ⟨v, -, rfl⟩ := Option.map_eq_some_iff.mp hb
    obtain ⟨v', -, hsame⟩ := Option.map_eq_some_iff.mp hb'
    exact (congrArg Prod.fst hsame).symm
  refine (List.perm_ext_iff_of_nodup hentries.of_map hasked).mpr fun p => ?_
  simp only [asked, List.mem_filterMap, Option.map_eq_some_iff]
  constructor
  · intro hp
    exact ⟨p.1, hall p hp, p.2, (lookup_eq_some_of_once hentries).mpr hp, rfl⟩
  · intro ⟨k, _, v, hv, hp⟩
    exact hp ▸ (lookup_eq_some_of_once hentries).mp hv

theorem keysOnce_of_ordered {entries : List (String × CborValue)} (h : Ordered (.map entries)) :
    KeysOnce (render entries) := by
  have hkeys : (entries.map fun e => encodedKey e.1).Nodup := by
    refine h.1.imp fun hlt heq => ?_
    rw [heq] at hlt
    exact List.lt_irrefl _ hlt
  unfold KeysOnce render
  rw [List.map_map]
  exact hkeys

theorem keysOnce_iff {entries : List (String × CborValue)} :
    KeysOnce (render entries) ↔ (entries.map Prod.fst).Nodup := by
  have hkeys : ((render entries).map fun e => encodedKey e.1) = (entries.map Prod.fst).map encodedKey := by
    rw [render, List.map_map, List.map_map]
    rfl
  rw [KeysOnce, hkeys, List.nodup_map_iff encodedKey_injective]

/-- A strict read that succeeds asked for every entry of the map. -/
theorem readFields_eq_ok {α : Type} {read : FieldReader α} {keys : List String}
    {S : α → List (String × CborValue) → Prop} (hread : Asks read keys S) (honce : keys.Nodup) {value : CborValue}
    (hvalue : Ordered value) {a : α} (h : readFields read value = .ok a) :
    ∃ entries, value = .map entries ∧ (∀ e ∈ entries, e.1 ∈ keys) ∧ entries.Perm (asked entries keys) ∧
      S a (asked entries keys) := by
  obtain ⟨f, hnew, h⟩ := bind_eq_ok_iff.mp h
  obtain ⟨⟨a', f'⟩, hfields, h⟩ := bind_eq_ok_iff.mp h
  obtain ⟨_, hfinish, h⟩ := bind_eq_ok_iff.mp h
  cases h
  obtain ⟨entries, hentries, hf⟩ := bind_eq_ok_iff.mp hnew
  cases hf
  obtain rfl : value = .map entries := by
    cases value <;> simp_all [CborValue.asMap]
  obtain ⟨hsame, hcovered, hS⟩ := hread _ _ _ hfields
  have hasked : ∀ e ∈ f'.entries, e.1 ∈ [] ++ keys := (hcovered [] (covered_new entries)).finish hfinish
  rw [hsame] at hasked
  exact ⟨entries, rfl, hasked, perm_asked honce (keysOnce_iff.mp (keysOnce_of_ordered hvalue)) hasked, hS⟩

end Fields

end IrohRooms
