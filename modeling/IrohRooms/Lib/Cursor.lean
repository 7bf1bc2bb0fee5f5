import Mathlib.Order.Basic

/-!
# Reading from a buffer

A cursor is a position in a buffer. `Spans` says that moving from one cursor to another passes exactly over the given
items, within a limit on positions, and it composes like concatenation. A reader that accepts `x` exactly when the
cursor spans the encoding of `x` can be iterated: `readMany_eq_ok` gives the loop, and `readKeyed_eq_ok` the loop over
entries whose keys must ascend.
-/

namespace IrohRooms

theorem bind_eq_ok_iff {ε α β : Type} {x : Except ε α} {f : α → Except ε β} {b : β} :
    (x >>= f) = .ok b ↔ ∃ a, x = .ok a ∧ f a = .ok b := by
  cases x with
  | error e =>
    constructor
    · intro h
      cases h
    · intro ⟨a, ha, _⟩
      cases ha
  | ok a =>
    constructor
    · intro h
      exact ⟨a, rfl, h⟩
    · intro ⟨a', ha', hf⟩
      cases ha'
      exact hf

structure Cursor (α : Type) where
  buf : List α
  pos : Nat

namespace Cursor

variable {α β ε : Type}

/-- The cursor lies in its buffer and within the limit. -/
def Valid (limit : Nat) (c : Cursor α) : Prop := c.pos ≤ c.buf.length ∧ c.pos ≤ limit

/-- From `c` to `c'` lie exactly the items `s`. -/
structure Spans (limit : Nat) (c : Cursor α) (s : List α) (c' : Cursor α) : Prop where
  buf : c'.buf = c.buf
  pos : c'.pos = c.pos + s.length
  valid : c'.Valid limit
  items : (c.buf.drop c.pos).take s.length = s

variable {limit : Nat} {c c' c'' : Cursor α} {s t : List α}

theorem spans_nil : c.Spans limit [] c' ↔ c' = c ∧ c.Valid limit := by
  constructor
  · intro h
    have heq : c' = c := by
      cases c
      cases c'
      have hbuf := h.buf
      have hpos := h.pos
      simp_all
    exact ⟨heq, heq ▸ h.valid⟩
  · intro ⟨heq, hvalid⟩
    subst heq
    exact ⟨rfl, rfl, hvalid, rfl⟩

theorem spans_append : c.Spans limit (s ++ t) c'' ↔ ∃ c', c.Spans limit s c' ∧ c'.Spans limit t c'' := by
  constructor
  · intro h
    have hpos := h.pos
    have hvalid := h.valid
    unfold Valid at hvalid
    rw [List.length_append] at hpos
    rw [h.buf] at hvalid
    have hitems := h.items
    rw [List.length_append, List.take_add, List.drop_drop] at hitems
    have hlen : ((c.buf.drop c.pos).take s.length).length = s.length := by
      rw [List.length_take, List.length_drop]
      omega
    obtain ⟨hs, ht⟩ := List.append_inj hitems hlen
    refine ⟨⟨c.buf, c.pos + s.length⟩, ⟨rfl, rfl, ⟨?_, ?_⟩, hs⟩, ⟨h.buf, ?_, h.valid, ht⟩⟩
    · show c.pos + s.length ≤ c.buf.length
      omega
    · show c.pos + s.length ≤ limit
      omega
    · show c''.pos = c.pos + s.length + t.length
      omega
  · intro ⟨c', hs, ht⟩
    have hpos := hs.pos
    refine ⟨ht.buf.trans hs.buf, ?_, ht.valid, ?_⟩
    · rw [ht.pos, hs.pos, List.length_append]
      omega
    · have hrest := ht.items
      rw [hs.buf, hs.pos] at hrest
      rw [List.length_append, List.take_add, List.drop_drop, hs.items, hrest]

theorem spans_cons {a : α} : c.Spans limit (a :: s) c'' ↔ ∃ c', c.Spans limit [a] c' ∧ c'.Spans limit s c'' := by
  have happend : a :: s = [a] ++ s := rfl
  rw [happend]
  exact spans_append

/-- The room left for items that were spanned. -/
theorem Spans.length_le (h : c.Spans limit s c') : s.length ≤ c.buf.length - c.pos ∧ s.length ≤ limit := by
  have hpos := h.pos
  have hvalid := h.valid
  unfold Valid at hvalid
  rw [h.buf] at hvalid
  omega

/-! ### Loops -/

/-- Read `n` times in a row. -/
def readMany (read : Cursor α → Except ε (β × Cursor α)) : Nat → Cursor α → Except ε (List β × Cursor α)
  | 0, c => .ok ([], c)
  | n + 1, c => do
    let (x, c) ← read c
    let (xs, c) ← readMany read n c
    pure (x :: xs, c)

/-- A loop over a reader accepts exactly the concatenated encodings. -/
theorem readMany_eq_ok {read : Cursor α → Except ε (β × Cursor α)} {P : β → Prop} {enc : β → List α}
    (hread : ∀ {c x c'}, read c = .ok (x, c') ↔ P x ∧ c.Spans limit (enc x) c') {n : Nat} {c c' : Cursor α}
    {xs : List β} (hc : c.Valid limit) :
    readMany read n c = .ok (xs, c') ↔ xs.length = n ∧ (∀ x ∈ xs, P x) ∧ c.Spans limit (xs.flatMap enc) c' := by
  induction n generalizing c xs with
  | zero =>
    constructor
    · intro h
      cases h
      exact ⟨rfl, by simp, spans_nil.mpr ⟨rfl, hc⟩⟩
    · intro ⟨hlen, _, hspans⟩
      rw [List.length_eq_zero_iff] at hlen
      subst hlen
      rw [(spans_nil.mp hspans).1]
      rfl
  | succ n ih =>
    unfold readMany
    constructor
    · intro h
      obtain ⟨⟨x, c₁⟩, hx, h⟩ := bind_eq_ok_iff.mp h
      obtain ⟨⟨ys, c₂⟩, hys, h⟩ := bind_eq_ok_iff.mp h
      cases h
      obtain ⟨hP, hspans⟩ := hread.mp hx
      obtain ⟨hlen, hall, hrest⟩ := (ih hspans.valid).mp hys
      exact ⟨by simp [hlen], by simpa using ⟨hP, hall⟩, spans_append.mpr ⟨c₁, hspans, hrest⟩⟩
    · intro ⟨hlen, hall, hspans⟩
      cases xs with
      | nil => cases hlen
      | cons x ys =>
        rw [List.flatMap_cons] at hspans
        obtain ⟨c₁, hx, hrest⟩ := spans_append.mp hspans
        have hfirst := hread.mpr ⟨hall x List.mem_cons_self, hx⟩
        have hlater := (ih hx.valid).mpr
          ⟨by simpa using hlen, fun y hy => hall y (List.mem_cons_of_mem _ hy), hrest⟩
        exact bind_eq_ok_iff.mpr ⟨_, hfirst, bind_eq_ok_iff.mpr ⟨_, hlater, rfl⟩⟩

/-! ### Keyed entries -/

section Keyed

variable {κ π : Type}

/-- Read `n` entries in a row, the mark of each key checked against the mark before. -/
def readKeyed (mark : κ → π) (check : Option π → π → Except ε Unit) (readKey : Cursor α → Except ε (κ × Cursor α))
    (read : Cursor α → Except ε (β × Cursor α)) :
    Nat → Option π → Cursor α → Except ε (List (κ × β) × Cursor α)
  | 0, _, c => .ok ([], c)
  | n + 1, prev, c => do
    let (key, c) ← readKey c
    check prev (mark key)
    let (value, c) ← read c
    let (entries, c) ← readKeyed mark check readKey read n (some (mark key)) c
    pure ((key, value) :: entries, c)

/-- The marks of the keys ascend, above the one before them if there is one. -/
def Ascending (mark : κ → π) (below : π → π → Prop) (prev : Option π) (entries : List (κ × β)) : Prop :=
  (entries.map fun e => mark e.1).Pairwise below ∧ ∀ p ∈ prev, ∀ e ∈ entries, below p (mark e.1)

variable {mark : κ → π} {below : π → π → Prop}

theorem ascending_cons (htrans : ∀ p q r, below p q → below q r → below p r) {prev : Option π} {e : κ × β}
    {entries : List (κ × β)} : Ascending mark below prev (e :: entries) ↔
      (∀ p ∈ prev, below p (mark e.1)) ∧ Ascending mark below (some (mark e.1)) entries := by
  unfold Ascending
  rw [List.map_cons, List.pairwise_cons, List.forall_mem_map]
  constructor
  · intro ⟨⟨hfirst, hrest⟩, hprev⟩
    refine ⟨fun p hp => hprev p hp e List.mem_cons_self, hrest, ?_⟩
    intro p hp e' he'
    rw [← Option.some.inj hp]
    exact hfirst e' he'
  · intro ⟨hprev, hrest, hfirst⟩
    have habove : ∀ e' ∈ entries, below (mark e.1) (mark e'.1) := hfirst _ rfl
    refine ⟨⟨habove, hrest⟩, ?_⟩
    intro p hp e' he'
    rcases List.mem_cons.mp he' with rfl | hmem
    · exact hprev p hp
    · exact htrans _ _ _ (hprev p hp) (habove e' hmem)

/-- A loop over keyed entries accepts exactly their concatenated encodings with ascending marks. -/
theorem readKeyed_eq_ok {check : Option π → π → Except ε Unit} {readKey : Cursor α → Except ε (κ × Cursor α)}
    {read : Cursor α → Except ε (β × Cursor α)} {P : β → Prop} {encKey : κ → List α} {enc : β → List α}
    (htrans : ∀ p q r, below p q → below q r → below p r)
    (hcheck : ∀ {prev p}, check prev p = .ok () ↔ ∀ q ∈ prev, below q p)
    (hkey : ∀ {c k c'}, readKey c = .ok (k, c') ↔ c.Spans limit (encKey k) c')
    (hread : ∀ {c x c'}, read c = .ok (x, c') ↔ P x ∧ c.Spans limit (enc x) c') {n : Nat} {prev : Option π}
    {c c' : Cursor α} {entries : List (κ × β)} (hc : c.Valid limit) :
    readKeyed mark check readKey read n prev c = .ok (entries, c') ↔
      entries.length = n ∧ Ascending mark below prev entries ∧ (∀ e ∈ entries, P e.2) ∧
        c.Spans limit (entries.flatMap fun e => encKey e.1 ++ enc e.2) c' := by
  induction n generalizing c prev entries with
  | zero =>
    constructor
    · intro h
      cases h
      exact ⟨rfl, ⟨List.Pairwise.nil, by simp⟩, by simp, spans_nil.mpr ⟨rfl, hc⟩⟩
    · intro ⟨hlen, _, _, hspans⟩
      rw [List.length_eq_zero_iff] at hlen
      subst hlen
      rw [(spans_nil.mp hspans).1]
      rfl
  | succ n ih =>
    unfold readKeyed
    constructor
    · intro h
      obtain ⟨⟨key, c₁⟩, hk, h⟩ := bind_eq_ok_iff.mp h
      obtain ⟨_, habove, h⟩ := bind_eq_ok_iff.mp h
      obtain ⟨⟨value, c₂⟩, hvalue, h⟩ := bind_eq_ok_iff.mp h
      obtain ⟨⟨rest, c₃⟩, hrest, h⟩ := bind_eq_ok_iff.mp h
      cases h
      obtain ⟨hP, hspans⟩ := hread.mp hvalue
      obtain ⟨hlen, hasc, hall, hlater⟩ := (ih hspans.valid).mp hrest
      refine ⟨by simp [hlen], (ascending_cons htrans).mpr ⟨hcheck.mp habove, hasc⟩, ?_, ?_⟩
      · exact List.forall_mem_cons.mpr ⟨hP, hall⟩
      · rw [List.flatMap_cons, List.append_assoc]
        exact spans_append.mpr ⟨c₁, hkey.mp hk, spans_append.mpr ⟨c₂, hspans, hlater⟩⟩
    · intro ⟨hlen, hasc, hall, hspans⟩
      cases entries with
      | nil => cases hlen
      | cons e rest =>
        rw [List.flatMap_cons, List.append_assoc] at hspans
        obtain ⟨c₁, hk, hspans⟩ := spans_append.mp hspans
        obtain ⟨c₂, hvalue, hlater⟩ := spans_append.mp hspans
        obtain ⟨hfirst, hasc⟩ := (ascending_cons htrans).mp hasc
        have hone := hread.mpr ⟨hall e List.mem_cons_self, hvalue⟩
        have hrest := (ih hvalue.valid).mpr
          ⟨by simpa using hlen, hasc, fun e' he' => hall e' (List.mem_cons_of_mem _ he'), hlater⟩
        exact bind_eq_ok_iff.mpr ⟨_, hkey.mpr hk, bind_eq_ok_iff.mpr ⟨_, hcheck.mpr hfirst,
          bind_eq_ok_iff.mpr ⟨_, hone, bind_eq_ok_iff.mpr ⟨_, hrest, rfl⟩⟩⟩⟩

end Keyed

end Cursor

end IrohRooms
