import Mathlib.Data.List.Perm.Basic
import IrohRooms.Event.SignedExact

/-!
# Encodings are self-delimiting

No encoding is a proper prefix of another, so a run of them is cut up in one way only. What two values with the same
encoding have in common follows constructor by constructor, without decoding them and whatever the order in which they
list their keys.
-/

namespace IrohRooms.Cbor

theorem Form.arg_eq {arg arg' info : Nat} {rest : Bytes} (h : Form arg info rest) (h' : Form arg' info rest) :
    arg = arg' := by
  have hback : ∀ {n a a' : Nat}, a < 256 ^ n → a' < 256 ^ n → beBytes n a = beBytes n a' → a = a' := by
    intro n a a' ha ha' heq
    have hnum := congrArg fromBeBytes heq
    rwa [fromBeBytes_beBytes, fromBeBytes_beBytes, Nat.mod_eq_of_lt ha, Nat.mod_eq_of_lt ha'] at hnum
  generalize hrest : rest = rest' at h'
  cases h with
  | here h => cases h' <;> first | rfl | omega
  | one h hlt => cases h' <;> first | omega | exact hback hlt ‹_› hrest
  | two h hlt => cases h' <;> first | omega | exact hback hlt ‹_› hrest
  | four h hlt => cases h' <;> first | omega | exact hback hlt ‹_› hrest
  | eight h hlt => cases h' <;> first | omega | exact hback hlt ‹_› hrest

/-- A head tells its major type and its argument, and where it ends. -/
theorem writeHead_append_inj {major major' arg arg' : Nat} {s t : Bytes} (hmajor : major < 8) (hmajor' : major' < 8)
    (harg : arg ≤ u64Max) (harg' : arg' ≤ u64Max) (h : writeHead major arg ++ s = writeHead major' arg' ++ t) :
    major = major' ∧ arg = arg' ∧ s = t := by
  obtain ⟨info, rest, hform⟩ := exists_form harg
  obtain ⟨info', rest', hform'⟩ := exists_form harg'
  rw [writeHead_eq hform, writeHead_eq hform', List.cons_append, List.cons_append, List.cons.injEq] at h
  obtain ⟨hm, hi⟩ := byte_join hmajor hform.info_lt
  obtain ⟨hm', hi'⟩ := byte_join hmajor' hform'.info_lt
  rw [h.1] at hm hi
  obtain rfl : major = major' := hm.symm.trans hm'
  obtain rfl : info = info' := hi.symm.trans hi'
  obtain ⟨rfl, hst⟩ := List.append_inj h.2 (hform.length_eq hform')
  exact ⟨rfl, hform.arg_eq hform', hst⟩

theorem lenArg_le (n : Nat) : lenArg n ≤ u64Max := Nat.min_le_right _ _

theorem lenArg_inj {n m : Nat} (hn : n < u64Max) (h : lenArg n = lenArg m) : n = m := by
  unfold lenArg at h
  omega

/-- A run of self-delimiting words is cut up in one way. -/
theorem flatMap_append_inj {α β : Type} {f : α → Bytes} {g : β → Bytes} {R : α → β → Prop} {l : List α} {l' : List β}
    {s t : Bytes} (hlen : l.length = l'.length)
    (hf : ∀ a ∈ l, ∀ b ∈ l', ∀ s t, f a ++ s = g b ++ t → R a b ∧ s = t)
    (h : l.flatMap f ++ s = l'.flatMap g ++ t) : List.Forall₂ R l l' ∧ s = t := by
  induction l generalizing l' with
  | nil =>
    obtain rfl : l' = [] := List.length_eq_zero_iff.mp hlen.symm
    exact ⟨.nil, h⟩
  | cons a l ih =>
    obtain _ | ⟨b, l'⟩ := l'
    · cases hlen
    · rw [List.flatMap_cons, List.flatMap_cons, List.append_assoc, List.append_assoc] at h
      obtain ⟨hab, hrest⟩ := hf a List.mem_cons_self b List.mem_cons_self _ _ h
      obtain ⟨hl, hst⟩ := ih (Nat.succ.inj hlen)
        (fun a' ha b' hb => hf a' (List.mem_cons_of_mem _ ha) b' (List.mem_cons_of_mem _ hb)) hrest
      exact ⟨.cons hab hl, hst⟩

theorem encodedKey_append_inj {k k' : String} {s t : Bytes} (hk : (asBytes k).length < u64Max)
    (h : encodedKey k ++ s = encodedKey k' ++ t) : k = k' ∧ s = t := by
  unfold encodedKey at h
  rw [List.append_assoc, List.append_assoc] at h
  obtain ⟨-, hlen, hrest⟩ := writeHead_append_inj (by omega) (by omega) (lenArg_le _) (lenArg_le _) h
  obtain ⟨hbytes, hst⟩ := List.append_inj hrest (lenArg_inj hk hlen)
  exact ⟨Option.some.inj ((fromUtf8_eq_some.mpr hbytes).symm.trans (fromUtf8_eq_some.mpr rfl)), hst⟩

/-! ### Values -/

/-- The major type of a value. -/
def major : CborValue → Nat
  | .uint _ => 0
  | .bytes _ => 2
  | .text _ => 3
  | .array _ => 4
  | .map _ => 5

/-- The argument in the head of a value. -/
def headArg : CborValue → Nat
  | .uint n => n.toNat
  | .bytes b => lenArg b.length
  | .text s => lenArg (asBytes s).length
  | .array items => lenArg items.length
  | .map entries => lenArg entries.length

/-- The entries of a map as they are written. -/
def writtenEntries (entries : List (String × CborValue)) : List (Bytes × Bytes) :=
  sortEntries ((render entries).map fun e => (encodedKey e.1, e.2))

/-- What follows the head of a value. -/
def payload : CborValue → Bytes
  | .uint _ => []
  | .bytes b => b
  | .text s => asBytes s
  | .array items => items.flatMap encode
  | .map entries => (writtenEntries entries).flatMap fun e => e.1 ++ e.2

theorem encode_eq_head (v : CborValue) : encode v = writeHead (major v) (headArg v) ++ payload v := by
  cases v with
  | uint n => exact (List.append_nil _).symm
  | bytes b => rw [encode]; rfl
  | text s => rw [encode]; rfl
  | array items => rw [encode, encodeItems_eq]; rfl
  | map entries => rw [encode_map_eq, mapBytes, render, List.length_map]; rfl

theorem major_lt_eight (v : CborValue) : major v < 8 := by
  cases v <;> simp [major]

theorem headArg_le (v : CborValue) : headArg v ≤ u64Max := by
  cases v with
  | uint n =>
    have := n.toNat_lt
    show n.toNat ≤ u64Max
    unfold u64Max
    omega
  | bytes b => exact lenArg_le _
  | text s => exact lenArg_le _
  | array items => exact lenArg_le _
  | map entries => exact lenArg_le _

theorem encode_append_inj_head {v w : CborValue} {s t : Bytes} (h : encode v ++ s = encode w ++ t) :
    major v = major w ∧ headArg v = headArg w ∧ payload v ++ s = payload w ++ t := by
  rw [encode_eq_head v, encode_eq_head w, List.append_assoc, List.append_assoc] at h
  exact writeHead_append_inj (major_lt_eight v) (major_lt_eight w) (headArg_le v) (headArg_le w) h

theorem length_payload_lt {v : CborValue} (hfits : (encode v).length ≤ usizeMax) : (payload v).length < u64Max := by
  have hhead := one_le_length_writeHead (major v) (headArg v)
  rw [encode_eq_head, List.length_append] at hfits
  unfold usizeMax at hfits
  unfold u64Max
  omega

theorem length_writtenEntries (entries : List (String × CborValue)) :
    (writtenEntries entries).length = entries.length := by
  rw [writtenEntries, sortEntries, List.length_insertionSort, List.length_map, render, List.length_map]

theorem mem_writtenEntries {entries : List (String × CborValue)} {e : Bytes × Bytes} :
    e ∈ writtenEntries entries ↔ ∃ k v, (k, v) ∈ entries ∧ e = (encodedKey k, encode v) := by
  rw [writtenEntries, sortEntries, List.mem_insertionSort, List.mem_map]
  constructor
  · rintro ⟨e', he', rfl⟩
    obtain ⟨e, he, rfl⟩ := List.mem_map.mp he'
    exact ⟨e.1, e.2, he, rfl⟩
  · rintro ⟨k, v, hkv, rfl⟩
    exact ⟨(k, encode v), List.mem_map.mpr ⟨(k, v), hkv, rfl⟩, rfl⟩

theorem length_le_flatMap_of_pos {α : Type} {f : α → Bytes} {l : List α} (h : ∀ x ∈ l, 1 ≤ (f x).length) :
    l.length ≤ (l.flatMap f).length := by
  induction l with
  | nil => simp
  | cons x l ih =>
    have hx := h x List.mem_cons_self
    have hl := ih fun y hy => h y (List.mem_cons_of_mem _ hy)
    rw [List.flatMap_cons, List.length_append, List.length_cons]
    omega

theorem one_le_length_encodedKey (k : String) : 1 ≤ (encodedKey k).length := by
  have hhead := one_le_length_writeHead 3 (lenArg (asBytes k).length)
  rw [encodedKey, List.length_append]
  omega

/-- What the encoding of a container fits in, its parts fit in. -/
theorem fits_items {items : List CborValue} (hfits : (encode (.array items)).length ≤ usizeMax) :
    items.length < u64Max ∧ ∀ v ∈ items, (encode v).length ≤ usizeMax := by
  have hlen := length_payload_lt hfits
  have hle : items.length ≤ (payload (.array items)).length := length_le_flatMap_of_pos fun v _ => one_le_length_encode v
  refine ⟨by omega, fun v hv => ?_⟩
  have hv : (encode v).length ≤ (payload (.array items)).length := length_le_flatMap hv
  unfold u64Max at hlen
  unfold usizeMax
  omega

theorem fits_entries {entries : List (String × CborValue)} (hfits : (encode (.map entries)).length ≤ usizeMax) :
    entries.length < u64Max ∧ ∀ e ∈ entries, (asBytes e.1).length < u64Max ∧ (encode e.2).length ≤ usizeMax := by
  have hlen := length_payload_lt hfits
  have hle : (writtenEntries entries).length ≤ (payload (.map entries)).length := by
    refine length_le_flatMap_of_pos fun e he => ?_
    obtain ⟨k, v, -, rfl⟩ := mem_writtenEntries.mp he
    have hk := one_le_length_encodedKey k
    show 1 ≤ (encodedKey k ++ encode v).length
    rw [List.length_append]
    omega
  rw [length_writtenEntries] at hle
  refine ⟨by omega, fun e he => ?_⟩
  have he : (encodedKey e.1 ++ encode e.2).length ≤ (payload (.map entries)).length :=
    length_le_flatMap (f := fun e : Bytes × Bytes => e.1 ++ e.2) (mem_writtenEntries.mpr ⟨e.1, e.2, he, rfl⟩)
  rw [List.length_append, encodedKey, List.length_append] at he
  unfold u64Max at hlen ⊢
  unfold usizeMax
  omega

/-- Where the encoding ends does not depend on what follows. -/
def Delimited (v : CborValue) : Prop := ∀ w s t, encode v ++ s = encode w ++ t → encode v = encode w ∧ s = t

theorem array_append_inj {items items' : List CborValue} {s t : Bytes} (hlen : items.length < u64Max)
    (hitems : ∀ v ∈ items, Delimited v) (h : encode (.array items) ++ s = encode (.array items') ++ t) :
    List.Forall₂ (fun a b => encode a = encode b) items items' ∧ s = t := by
  obtain ⟨-, harg, hrest⟩ := encode_append_inj_head h
  exact flatMap_append_inj (lenArg_inj hlen harg) (fun a ha b _ s t => hitems a ha b s t) hrest

theorem map_append_inj {entries entries' : List (String × CborValue)} {s t : Bytes} (hlen : entries.length < u64Max)
    (hentries : ∀ e ∈ entries, (asBytes e.1).length < u64Max ∧ Delimited e.2)
    (h : encode (.map entries) ++ s = encode (.map entries') ++ t) :
    writtenEntries entries = writtenEntries entries' ∧ s = t := by
  obtain ⟨-, harg, hrest⟩ := encode_append_inj_head h
  have hlen' : (writtenEntries entries).length = (writtenEntries entries').length := by
    rw [length_writtenEntries, length_writtenEntries]
    exact lenArg_inj hlen harg
  have hcut : ∀ a ∈ writtenEntries entries, ∀ b ∈ writtenEntries entries', ∀ s t : Bytes,
      a.1 ++ a.2 ++ s = b.1 ++ b.2 ++ t → a = b ∧ s = t := by
    intro a ha b hb s t hab
    obtain ⟨k, v, hkv, rfl⟩ := mem_writtenEntries.mp ha
    obtain ⟨k', v', -, rfl⟩ := mem_writtenEntries.mp hb
    obtain ⟨hk, hv⟩ := hentries _ hkv
    rw [List.append_assoc, List.append_assoc] at hab
    obtain ⟨rfl, hab⟩ := encodedKey_append_inj hk hab
    obtain ⟨hvv, hst⟩ := hv v' s t hab
    exact ⟨Prod.ext rfl hvv, hst⟩
  obtain ⟨hall, hst⟩ := flatMap_append_inj hlen' hcut hrest
  exact ⟨List.forall₂_eq_eq_eq ▸ hall, hst⟩

theorem encode_map_eq_of_written {entries entries' : List (String × CborValue)}
    (h : writtenEntries entries = writtenEntries entries') : encode (.map entries) = encode (.map entries') := by
  have hlen := congrArg List.length h
  rw [length_writtenEntries, length_writtenEntries] at hlen
  rw [encode_eq_head, encode_eq_head]
  show writeHead 5 (lenArg entries.length) ++ (writtenEntries entries).flatMap _ =
    writeHead 5 (lenArg entries'.length) ++ (writtenEntries entries').flatMap _
  rw [hlen, h]

/-- No encoding that fits in memory is a proper prefix of another. -/
theorem delimited {v : CborValue} (hfits : (encode v).length ≤ usizeMax) : Delimited v := by
  induction hd : depth v using Nat.strong_induction_on generalizing v with
  | _ n ih =>
    intro w s t h
    obtain ⟨hmajor, harg, hrest⟩ := encode_append_inj_head h
    have hpayload := length_payload_lt hfits
    rcases v with n | b | x | items | entries <;> rcases w with n' | b' | x' | items' | entries' <;>
      simp [major] at hmajor
    · rw [UInt64.toNat_inj.mp harg]
      exact ⟨rfl, hrest⟩
    · obtain ⟨hb, hst⟩ := List.append_inj hrest (lenArg_inj hpayload harg)
      exact ⟨by rw [show b = b' from hb], hst⟩
    · obtain ⟨hx, hst⟩ := List.append_inj hrest (lenArg_inj hpayload harg)
      rw [encode_eq_head, encode_eq_head, harg]
      exact ⟨congrArg _ hx, hst⟩
    · obtain ⟨hlen, hitems⟩ := fits_items hfits
      have hdepth := depthItems_le.mp (le_refl (depthItems items))
      obtain ⟨hall, hst⟩ := array_append_inj hlen (fun v hv => ih (depth v)
        (by rw [← hd, depth]; have := hdepth v hv; omega) (hitems v hv) rfl) h
      exact ⟨encode_array_congr hall, hst⟩
    · obtain ⟨hlen, hentries⟩ := fits_entries hfits
      have hdepth := depthEntries_le.mp (le_refl (depthEntries entries))
      obtain ⟨hall, hst⟩ := map_append_inj hlen (fun e he => ⟨(hentries e he).1, ih (depth e.2)
        (by rw [← hd, depth]; have := hdepth e he; omega) (hentries e he).2 rfl⟩) h
      exact ⟨encode_map_eq_of_written hall, hst⟩

/-! ### What equal encodings have in common -/

theorem encode_uint_inj {n n' : UInt64} (h : encode (.uint n) = encode (.uint n')) : n = n' := by
  obtain ⟨-, harg, -⟩ := encode_append_inj_head (congrArg (· ++ []) h)
  exact UInt64.toNat_inj.mp harg

theorem encode_bytes_inj {b b' : Bytes} (h : encode (.bytes b) = encode (.bytes b')) : b = b' := by
  obtain ⟨-, -, hrest⟩ := encode_append_inj_head (congrArg (· ++ []) h)
  simpa [payload] using hrest

theorem encode_text_inj {x x' : String} (h : encode (.text x) = encode (.text x')) : x = x' := by
  obtain ⟨-, -, hrest⟩ := encode_append_inj_head (congrArg (· ++ []) h)
  rw [List.append_nil, List.append_nil] at hrest
  exact Option.some.inj ((fromUtf8_eq_some.mpr hrest).symm.trans (fromUtf8_eq_some.mpr rfl))

theorem encode_array_inj {items items' : List CborValue} (hfits : (encode (.array items)).length ≤ usizeMax)
    (h : encode (.array items) = encode (.array items')) :
    List.Forall₂ (fun a b => encode a = encode b) items items' := by
  obtain ⟨hlen, hitems⟩ := fits_items hfits
  exact (array_append_inj hlen (fun v hv => delimited (hitems v hv)) (congrArg (· ++ []) h)).1

/-- Maps with one encoding list the same keys with the same encoded values. -/
theorem encode_map_inj {entries entries' : List (String × CborValue)}
    (hfits : (encode (.map entries)).length ≤ usizeMax) (h : encode (.map entries) = encode (.map entries')) :
    (render entries).Perm (render entries') := by
  obtain ⟨hlen, hentries⟩ := fits_entries hfits
  have hwritten := (map_append_inj hlen (fun e he => ⟨(hentries e he).1, delimited (hentries e he).2⟩)
    (congrArg (· ++ []) h)).1
  have hsorted : ∀ entries, (writtenEntries entries).Perm ((render entries).map fun e => (encodedKey e.1, e.2)) :=
    fun entries => List.perm_insertionSort _ _
  have hperm := (hsorted entries).symm.trans (hwritten ▸ hsorted entries')
  refine (List.map_perm_map_iff ?_).mp hperm
  rintro ⟨k, x⟩ ⟨k', x'⟩ heq
  obtain ⟨hk, hx⟩ := Prod.mk.inj heq
  exact Prod.ext (encodedKey_injective hk) hx

/-! ### Maps by their keys -/

theorem lookup_eq_some_iff {β : Type} {l : List (String × β)} {k : String} {x : β} (h : (l.map Prod.fst).Nodup) :
    l.lookup k = some x ↔ (k, x) ∈ l := by
  induction l with
  | nil => simp
  | cons e l ih =>
    obtain ⟨k', x'⟩ := e
    obtain ⟨hnew, hnodup⟩ := List.nodup_cons.mp h
    rw [List.lookup_cons, List.mem_cons]
    by_cases hk : k = k'
    · subst hk
      have hno : (k, x) ∉ l := fun hmem => hnew (List.mem_map.mpr ⟨(k, x), hmem, rfl⟩)
      simp [hno, eq_comm]
    · have hne : (k == k') = false := by simpa using hk
      rw [hne]
      simp [hk, ih hnodup]

theorem lookup_render (l : List (String × CborValue)) (k : String) :
    (render l).lookup k = (l.lookup k).map encode := by
  induction l with
  | nil => rfl
  | cons e l ih =>
    rw [render_cons, List.lookup_cons, List.lookup_cons]
    cases k == e.1 with
    | true => rfl
    | false => exact ih

theorem map_fst_render (l : List (String × CborValue)) : (render l).map Prod.fst = l.map Prod.fst := by
  rw [render, List.map_map]
  rfl

/-- Maps that list each key once have one encoding exactly if they agree under every key. -/
theorem encode_map_iff_lookup {entries written : List (String × CborValue)} (hentries : (entries.map Prod.fst).Nodup)
    (hwritten : (written.map Prod.fst).Nodup) (hfits : (encode (.map entries)).length ≤ usizeMax) :
    encode (.map written) = encode (.map entries) ↔ ∀ k, (written.lookup k).map encode = (entries.lookup k).map encode := by
  have hnodup : ((render entries).map Prod.fst).Nodup := by rwa [map_fst_render]
  have hnodup' : ((render written).map Prod.fst).Nodup := by rwa [map_fst_render]
  have hlookup : (∀ k, (written.lookup k).map encode = (entries.lookup k).map encode) ↔
      ∀ e, e ∈ render written ↔ e ∈ render entries := by
    constructor
    · rintro h ⟨k, x⟩
      rw [← lookup_eq_some_iff hnodup, ← lookup_eq_some_iff hnodup', lookup_render, lookup_render, h]
    · intro h k
      refine Option.ext fun x => ?_
      rw [← lookup_render, ← lookup_render, lookup_eq_some_iff hnodup', lookup_eq_some_iff hnodup]
      exact h (k, x)
  rw [hlookup]
  constructor
  · intro h e
    exact (encode_map_inj hfits h.symm).symm.mem_iff
  · intro h
    have hperm : (render written).Perm (render entries) :=
      (List.perm_ext_iff_of_nodup hnodup'.of_map hnodup.of_map).mpr h
    rw [encode_map_eq, encode_map_eq]
    exact mapBytes_perm hperm (Fields.keysOnce_iff.mpr hwritten)

/-! ### Encoders that bind

An encoder binds if a value can be told from its encoded form. Encoders of records bind if those of their fields do,
and for that a record is taken field by field. -/

/-- Two values, or none, under one key of maps that are encoded alike. -/
structure SameField (o o' : Option CborValue) : Prop where
  encoded : o.map encode = o'.map encode
  fits : ∀ v, o = some v → (encode v).length ≤ usizeMax

theorem sameField_of_encode_map {entries entries' : List (String × CborValue)} (hentries : (entries.map Prod.fst).Nodup)
    (hentries' : (entries'.map Prod.fst).Nodup) (hfits : (encode (.map entries)).length ≤ usizeMax)
    (h : encode (.map entries) = encode (.map entries')) (k : String) :
    SameField (entries.lookup k) (entries'.lookup k) := by
  refine ⟨((encode_map_iff_lookup hentries hentries' hfits).mp h.symm k).symm, fun v hv => ?_⟩
  exact ((fits_entries hfits).2 (k, v) ((lookup_eq_some_iff hentries).mp hv)).2

theorem SameField.of_some {v v' : CborValue} (h : SameField (some v) (some v')) :
    (encode v).length ≤ usizeMax ∧ encode v = encode v' :=
  ⟨h.fits v rfl, Option.some.inj h.encoded⟩

def Binds {α : Type} (f : α → CborValue) : Prop :=
  ∀ a b, (encode (f a)).length ≤ usizeMax → encode (f a) = encode (f b) → a = b

namespace Binds

variable {α β : Type} {f : α → CborValue}

theorem uint : Binds CborValue.uint := fun _ _ _ h => encode_uint_inj h

theorem bytes : Binds CborValue.bytes := fun _ _ _ h => encode_bytes_inj h

theorem text : Binds CborValue.text := fun _ _ _ h => encode_text_inj h

theorem comp (hf : Binds f) {g : β → α} (hg : Function.Injective g) : Binds fun b => f (g b) :=
  fun _ _ hfits h => hg (hf _ _ hfits h)

theorem eq_of_forall₂ {R : α → α → Prop} {l l' : List α} (h : List.Forall₂ R l l')
    (hR : ∀ a ∈ l, ∀ b, R a b → a = b) : l = l' := by
  induction h with
  | nil => rfl
  | cons hab _ ih =>
    rw [hR _ List.mem_cons_self _ hab, ih fun a ha => hR a (List.mem_cons_of_mem _ ha)]

theorem array (hf : Binds f) : Binds fun l : List α => .array (l.map f) := by
  intro l l' hfits h
  have hitems := (fits_items hfits).2
  have hall := encode_array_inj hfits h
  rw [List.forall₂_map_left_iff, List.forall₂_map_right_iff] at hall
  refine eq_of_forall₂ hall fun a ha b hab => ?_
  exact hf a b (hitems _ (List.mem_map.mpr ⟨a, ha, rfl⟩)) hab

/-- A record of named fields binds if equal fields make equal records. -/
theorem record {entries : α → List (String × CborValue)} (hnodup : ∀ a, ((entries a).map Prod.fst).Nodup)
    (hfields : ∀ a b, (∀ k, SameField ((entries a).lookup k) ((entries b).lookup k)) → a = b) :
    Binds fun a => .map (entries a) :=
  fun a b hfits h => hfields a b fun k => sameField_of_encode_map (hnodup a) (hnodup b) hfits h k

theorem field (hf : Binds f) {a b : α} (h : SameField (some (f a)) (some (f b))) : a = b :=
  hf a b h.of_some.1 h.of_some.2

theorem optional (hf : Binds f) {a b : Option α} (h : SameField (a.map f) (b.map f)) : a = b := by
  cases a with
  | none =>
    cases b with
    | none => rfl
    | some b => cases h.encoded
  | some a =>
    cases b with
    | none => cases h.encoded
    | some b => rw [hf.field h]

end Binds

end IrohRooms.Cbor
