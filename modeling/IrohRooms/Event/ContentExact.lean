import IrohRooms.Event.FieldsExact

/-!
# Content is written as it was read

For ten of the twelve event types the content that is parsed from a canonical map encodes to the bytes of that map
(`exact_parse`). The two that carry wrapped keys are in the next module.
-/

namespace IrohRooms

open Cbor Fields

/-! ### Values -/

theorem asMap_eq_some {v : CborValue} {entries : List (String × CborValue)} : v.asMap = some entries ↔ v = .map entries := by
  cases v <;> simp [CborValue.asMap]

theorem asArray_eq_some {v : CborValue} {items : List CborValue} : v.asArray = some items ↔ v = .array items := by
  cases v <;> simp [CborValue.asArray]

theorem asBytes_eq_some {v : CborValue} {b : Bytes} : v.asBytes = some b ↔ v = .bytes b := by
  cases v <;> simp [CborValue.asBytes]

theorem asText_eq_some {v : CborValue} {s : String} : v.asText = some s ↔ v = .text s := by
  cases v <;> simp [CborValue.asText]

theorem asUint_eq_some {v : CborValue} {n : UInt64} : v.asUint = some n ↔ v = .uint n := by
  cases v <;> simp [CborValue.asUint]

theorem map_eq_ok_iff {ε α β : Type} {x : Except ε α} {f : α → β} {b : β} :
    x.map f = .ok b ↔ ∃ a, x = .ok a ∧ f a = b := by
  cases x <;> simp [Except.map]

theorem fixedBytes_eq_ok {reason : RejectReason} {n : Nat} {v : CborValue} {x : BitVec (8 * n)} :
    fixedBytes reason n v = .ok x ↔ v = bytesValue x := by
  unfold fixedBytes
  rw [bind_eq_ok_iff]
  constructor
  · intro ⟨b, hb, h⟩
    rw [okOr_eq_ok, asBytes_eq_some] at hb
    split_ifs at h with hlen
    cases h
    have hlt : fromBeBytes b < 2 ^ (8 * n) := by
      rw [two_pow_eight_mul, ← hlen]
      exact fromBeBytes_lt b
    rw [hb, bytesValue, BitVec.toNat_ofNat, Nat.mod_eq_of_lt hlt, ← hlen, beBytes_fromBeBytes]
  · intro h
    refine ⟨beBytes n x.toNat, by rw [h]; rfl, ?_⟩
    have hlt : x.toNat < 256 ^ n := by
      rw [← two_pow_eight_mul]
      exact x.isLt
    rw [if_pos (length_beBytes n _), fromBeBytes_beBytes, Nat.mod_eq_of_lt hlt, BitVec.ofNat_toNat, BitVec.setWidth_eq]

theorem fixed32_eq_ok {reason : RejectReason} {kind : Kind} {v : CborValue} {x : Bytes32 kind} :
    fixed32 reason v = .ok x ↔ v = keyValue x := by
  unfold fixed32
  rw [map_eq_ok_iff]
  constructor
  · intro ⟨bits, hbits, h⟩
    rw [fixedBytes_eq_ok] at hbits
    rw [← h, hbits]
    rfl
  · intro h
    refine ⟨x.bits, ?_, rfl⟩
    rw [fixedBytes_eq_ok]
    exact h

theorem textOf_eq_ok {reason : RejectReason} {v : CborValue} {s : String} : textOf reason v = .ok s ↔ v = .text s := by
  rw [textOf, okOr_eq_ok, asText_eq_some]

theorem uintOf_eq_ok {reason : RejectReason} {v : CborValue} {n : Nat} (h : uintOf reason v = .ok n) : v = uintValue n := by
  rw [uintOf, map_eq_ok_iff] at h
  obtain ⟨m, hm, rfl⟩ := h
  rw [okOr_eq_ok, asUint_eq_some] at hm
  rw [hm, uintValue, UInt64.ofNat_toNat]

section Exact

variable (reason : RejectReason)

theorem exact_text : Exact (textOf reason) .text := by
  intro v s h
  rw [textOf_eq_ok] at h
  rw [h]

theorem exact_uint : Exact (uintOf reason) uintValue := by
  intro v n h
  rw [uintOf_eq_ok h]

theorem exact_fixedBytes (n : Nat) : Exact (fixedBytes reason n) bytesValue := by
  intro v x h
  rw [fixedBytes_eq_ok] at h
  rw [h]

theorem exact_fixed32 {kind : Kind} :
    Exact (fixed32 reason : CborValue → Except RejectReason (Bytes32 kind)) keyValue := by
  intro v x h
  rw [fixed32_eq_ok] at h
  rw [h]

theorem mapM_eq_ok_iff {β γ ε : Type} {f : β → Except ε γ} {l : List β} {l' : List γ} :
    l.mapM f = .ok l' ↔ List.Forall₂ (fun x y => f x = .ok y) l l' := by
  induction l generalizing l' with
  | nil => simp [pure, Except.pure, eq_comm]
  | cons x l ih =>
    simp only [List.mapM_cons, bind_eq_ok_iff, ih]
    constructor
    · rintro ⟨y, hy, ys, hys, h⟩
      cases h
      exact .cons hy hys
    · intro h
      cases h with
      | cons hy hys => exact ⟨_, hy, _, hys, rfl⟩

theorem arrayOf_eq_ok {α : Type} {read : CborValue → Except RejectReason α} {v : CborValue} {l : List α}
    (h : arrayOf reason read v = .ok l) : ∃ items, v = .array items ∧ List.Forall₂ (fun v a => read v = .ok a) items l := by
  obtain ⟨items, hitems, h⟩ := bind_eq_ok_iff.mp h
  rw [okOr_eq_ok, asArray_eq_some] at hitems
  exact ⟨items, hitems, mapM_eq_ok_iff.mp h⟩

theorem encode_array_congr {items items' : List CborValue}
    (h : List.Forall₂ (fun v w => encode v = encode w) items items') : encode (.array items) = encode (.array items') := by
  have hflat : items.flatMap encode = items'.flatMap encode := by
    induction h with
    | nil => rfl
    | cons hsame _ ih => rw [List.flatMap_cons, List.flatMap_cons, hsame, ih]
  rw [encode, encode, encodeItems_eq, encodeItems_eq, h.length_eq, hflat]

theorem exact_array {α : Type} {read : CborValue → Except RejectReason α} {write : α → CborValue} (h : Exact read write) :
    Exact (arrayOf reason read) fun l => .array (l.map write) := by
  intro v l hl
  obtain ⟨items, rfl, hitems⟩ := arrayOf_eq_ok reason hl
  refine encode_array_congr ?_
  rw [List.forall₂_map_left_iff]
  exact hitems.flip.imp fun a v hv => h v a hv

end Exact

/-! ### Loops over entries -/

theorem foldlM_invariant {σ : Type} {step : σ → String × CborValue → Except RejectReason σ} {P : σ → Prop}
    {entries : List (String × CborValue)}
    (hstep : ∀ s e s', e ∈ entries → P s → step s e = .ok s' → P s') {s₀ s : σ} (h₀ : P s₀)
    (h : entries.foldlM step s₀ = .ok s) : P s := by
  induction entries generalizing s₀ with
  | nil =>
    cases h
    exact h₀
  | cons e entries ih =>
    rw [List.foldlM_cons] at h
    obtain ⟨s₁, hfirst, h⟩ := bind_eq_ok_iff.mp h
    exact ih (fun s e' s' he' => hstep s e' s' (List.mem_cons_of_mem _ he'))
      (hstep s₀ e s₁ List.mem_cons_self h₀ hfirst) h

theorem perm_of_mem {l entries : List (String × CborValue)} (hkeys : (l.map Prod.fst).Nodup)
    (hmem : ∀ e ∈ l, e ∈ entries) (hlen : entries.length = l.length) : l.Perm entries :=
  (List.subperm_of_subset hkeys.of_map hmem).perm_of_length_le hlen.le

/-- A map that contains the listed entries and no more of them encodes to theirs. -/
theorem encode_map_of_mem {l entries : List (String × CborValue)} (hkeys : (l.map Prod.fst).Nodup)
    (hmem : ∀ e ∈ l, e ∈ entries) (hlen : entries.length = l.length) : encode (.map l) = encode (.map entries) := by
  have hperm : l.Perm entries := perm_of_mem hkeys hmem hlen
  rw [encode_map_eq, encode_map_eq]
  exact mapBytes_perm (hperm.map _) (keysOnce_iff.mpr hkeys)

namespace DeviceBinding

/-- Whatever a slot holds stood in the map. -/
structure Slots.Found (s : Slots) (entries : List (String × CborValue)) : Prop where
  identityKey : ∀ k, s.identityKey = some k → keyEntry "identity_key" k ∈ entries
  deviceKey : ∀ k, s.deviceKey = some k → keyEntry "device_key" k ∈ entries
  sig : ∀ x, s.sig = some x → ("sig", bytesValue (n := 64) x) ∈ entries

theorem readEntry_found {entries : List (String × CborValue)} {s s' : Slots} {e : String × CborValue} (he : e ∈ entries)
    (hs : s.Found entries) (h : readEntry s e = .ok s') : s'.Found entries := by
  obtain ⟨key, v⟩ := e
  unfold readEntry at h
  dsimp only at h
  split at h
  · obtain ⟨k, hk, h⟩ := bind_eq_ok_iff.mp h
    cases h
    rw [fixed32_eq_ok.mp hk] at he
    exact ⟨fun k' hk' => Option.some.inj hk' ▸ he, hs.deviceKey, hs.sig⟩
  · obtain ⟨k, hk, h⟩ := bind_eq_ok_iff.mp h
    cases h
    rw [fixed32_eq_ok.mp hk] at he
    exact ⟨hs.identityKey, fun k' hk' => Option.some.inj hk' ▸ he, hs.sig⟩
  · obtain ⟨x, hx, h⟩ := bind_eq_ok_iff.mp h
    cases h
    rw [fixedBytes_eq_ok.mp hx] at he
    exact ⟨hs.identityKey, hs.deviceKey, fun x' hx' => Option.some.inj hx' ▸ he⟩
  · cases h

theorem exact_fromCbor : Exact fromCbor toCbor := by
  intro v b h
  obtain ⟨entries, hentries, h⟩ := bind_eq_ok_iff.mp h
  obtain ⟨_, hlen, h⟩ := bind_eq_ok_iff.mp h
  obtain ⟨s, hs, h⟩ := bind_eq_ok_iff.mp h
  obtain ⟨identityKey, hidentity, h⟩ := bind_eq_ok_iff.mp h
  obtain ⟨deviceKey, hdevice, h⟩ := bind_eq_ok_iff.mp h
  obtain ⟨sig, hsig, h⟩ := bind_eq_ok_iff.mp h
  cases h
  rw [okOr_eq_ok] at hentries hidentity hdevice hsig
  rw [asMap_eq_some.mp hentries]
  have hnone : Slots.Found ⟨none, none, none⟩ entries := ⟨by simp, by simp, by simp⟩
  have hfound : s.Found entries := foldlM_invariant (fun _ _ _ he hs h => readEntry_found he hs h) hnone hs
  have hkeys : ["identity_key", "device_key", "sig"].Nodup := by decide
  refine encode_map_of_mem hkeys (fun e he => ?_) (ensure_eq_ok.mp hlen)
  rw [List.mem_cons, List.mem_cons, List.mem_singleton] at he
  rcases he with rfl | rfl | rfl
  · exact hfound.identityKey _ hidentity
  · exact hfound.deviceKey _ hdevice
  · exact hfound.sig _ hsig

end DeviceBinding

/-! ### The ten plain types -/

theorem role_asStr {s : String} {r : Role} (h : Role.ofStr s = some r) : r.asStr = s := by
  unfold Role.ofStr at h
  split at h <;> cases h <;> rfl

theorem registry_asStr {s : String} {ty : EventType} (h : EventType.fromRegistry s = some ty) : ty.asStr = s := by
  unfold EventType.fromRegistry at h
  split at h <;> cases h <;> rfl

theorem exact_role : Exact (fun value => do okOr (Role.ofStr (← textOf .invalidContent value)) .invalidContent)
    fun r => .text r.asStr := by
  intro v r h
  obtain ⟨s, hs, h⟩ := bind_eq_ok_iff.mp h
  dsimp only
  rw [textOf_eq_ok.mp hs, role_asStr (okOr_eq_ok.mp h)]

theorem exact_bytes : Exact (fun value => okOr value.asBytes .invalidContent) .bytes := by
  intro v b h
  rw [asBytes_eq_some.mp (okOr_eq_ok.mp h)]

/-- The content is written as these entries. -/
def Writes (content : Content) (out : List (String × Bytes)) : Prop :=
  ∃ entries, content.toCbor = sortIntoMap entries ∧ out = render entries

theorem encode_sortIntoMap {entries : List (String × CborValue)} (h : KeysOnce (render entries)) :
    encode (sortIntoMap entries) = mapBytes (render entries) := by
  have hperm := (List.perm_insertionSort (fun a b : String × CborValue => keyLe a.1 b.1) entries).symm
  rw [sortIntoMap, encode_map_eq]
  exact (mapBytes_perm (hperm.map _) h).symm

section Typed

variable (key : String)

theorem renders_requireText : Renders (requireText key) [key] fun a out => out = render [textEntry key a] :=
  renders_required key (exact_text _)

theorem renders_optText : Renders (optText key) [key] fun a out => out = render (pushOptText key a) :=
  renders_optional key (exact_text _)

theorem renders_requireUint : Renders (requireUint key) [key] fun a out => out = render [uintEntry key a] :=
  renders_required key (exact_uint _)

theorem renders_optUint : Renders (optUint key) [key] fun a out => out = render (pushOptUint key a) :=
  renders_optional key (exact_uint _)

theorem renders_requireBytes (n : Nat) :
    Renders (requireBytes n key) [key] fun a out => out = render [bytesEntry key a] :=
  renders_required key (exact_fixedBytes _ n)

theorem renders_requireKey {kind : Kind} :
    Renders (requireKey key : FieldReader (Bytes32 kind)) [key] fun a out => out = render [keyEntry key a] :=
  renders_required key (exact_fixed32 _)

theorem renders_optKey {kind : Kind} :
    Renders (optKey key : FieldReader (Option (Bytes32 kind))) [key]
      fun a out => out = render (pushOpt (keyEntry key) a) :=
  renders_optional key (exact_fixed32 _)

theorem renders_requireKeyArray {kind : Kind} :
    Renders (requireKeyArray key : FieldReader (List (Bytes32 kind))) [key]
      fun a out => out = render [(key, keyArray a)] :=
  renders_required key (exact_array _ (exact_fixed32 _))

theorem renders_optKeyArray {kind : Kind} :
    Renders (optKeyArray key : FieldReader (Option (List (Bytes32 kind)))) [key]
      fun a out => out = render (pushOpt (fun ks => (key, keyArray ks)) a) :=
  renders_optional key (exact_array _ (exact_fixed32 _))

theorem renders_requireRole :
    Renders (requireRole key) [key] fun a out => out = render [textEntry key a.asStr] :=
  renders_required key exact_role

theorem renders_optEnum (allowed : List String) :
    Renders (optEnum key allowed) [key] fun a out => out = render (pushOptText key a) := by
  refine .field (renders_optText key) fun text => ?_
  exact .lift fun _ _ => .pure (List.append_nil _)

end Typed

theorem renders_memberLeft : Renders parseMemberLeft ["member_id", "reason"] fun c out => Writes (.memberLeft c) out := by
  refine .field (renders_requireKey _) fun memberId => ?_
  refine .field (renders_optText _) fun reason => ?_
  exact .pure ⟨_, rfl, by simp⟩

theorem renders_roomCreated : Renders parseRoomCreated ["room_name", "room_nonce", "admins", "device_binding"]
    fun c out => Writes (.roomCreated c) out := by
  refine .field (renders_requireText _) fun roomName => ?_
  refine .field (renders_requireBytes _ 16) fun roomNonce => ?_
  refine .field (renders_requireKeyArray _) fun admins => ?_
  refine .field (renders_required _ DeviceBinding.exact_fromCbor) fun deviceBinding => ?_
  exact .pure ⟨_, rfl, by simp⟩

theorem renders_memberInvited : Renders parseMemberInvited
    ["invite_id", "capability_hash", "role", "invitee_key", "expires_at", "invitee_hint"]
    fun c out => Writes (.memberInvited c) out := by
  refine .field (renders_requireBytes _ 16) fun inviteId => ?_
  refine .field (renders_requireBytes _ 32) fun capabilityHash => ?_
  refine .field (renders_requireRole _) fun role => ?_
  refine .field (renders_requireKey _) fun inviteeKey => ?_
  refine .field (renders_optUint _) fun expiresAt => ?_
  refine .field (renders_optText _) fun inviteeHint => ?_
  exact .pure ⟨_, rfl, by simp⟩

theorem renders_memberJoined : Renders parseMemberJoined
    ["via_invite_id", "capability_secret", "role", "device_binding", "display_name"]
    fun c out => Writes (.memberJoined c) out := by
  refine .field (renders_requireBytes _ 16) fun viaInviteId => ?_
  refine .field (renders_requireBytes _ 16) fun capabilitySecret => ?_
  refine .field (renders_requireRole _) fun role => ?_
  refine .field (renders_required _ DeviceBinding.exact_fromCbor) fun deviceBinding => ?_
  refine .field (renders_optText _) fun displayName => ?_
  exact .pure ⟨_, rfl, by simp⟩

theorem renders_messageText : Renders parseMessageText ["body", "format", "in_reply_to", "mentions"]
    fun c out => Writes (.messageText c) out := by
  refine .field (renders_requireText _) fun body => ?_
  refine .lift fun _ _ => ?_
  refine .field (renders_optEnum _ _) fun format => ?_
  refine .field (renders_optKey _) fun inReplyTo => ?_
  refine .field (renders_optKeyArray _) fun mentions => ?_
  exact .pure ⟨_, rfl, by simp⟩

theorem renders_fileShared : Renders parseFileShared
    ["file_id", "name", "mime_type", "size_bytes", "blob_hash", "blob_format", "providers"]
    fun c out => Writes (.fileShared c) out := by
  refine .field (renders_requireBytes _ 16) fun fileId => ?_
  refine .field (renders_requireText _) fun name => ?_
  refine .lift fun _ _ => ?_
  refine .field (renders_requireText _) fun mimeType => ?_
  refine .lift fun _ _ => ?_
  refine .field (renders_requireUint _) fun sizeBytes => ?_
  refine .lift fun _ _ => ?_
  refine .field (renders_requireKey _) fun blobHash => ?_
  refine .field (renders_optEnum _ _) fun blobFormat => ?_
  refine .field (renders_optKeyArray _) fun providers => ?_
  refine .lift fun _ _ => ?_
  exact .pure ⟨_, rfl, by simp⟩

theorem renders_pipeOpened : Renders parsePipeOpened
    ["pipe_id", "owner_id", "owner_endpoint", "kind", "label", "target_hint", "alpn", "allowed_members", "expires_at"]
    fun c out => Writes (.pipeOpened c) out := by
  refine .field (renders_requireBytes _ 16) fun pipeId => ?_
  refine .field (renders_requireKey _) fun ownerId => ?_
  refine .field (renders_requireKey _) fun ownerEndpoint => ?_
  refine .field (renders_requireText _) fun kind => ?_
  refine .lift fun _ _ => ?_
  refine .field (renders_requireText _) fun label => ?_
  refine .field (renders_requireText _) fun targetHint => ?_
  refine .field (renders_requireText _) fun alpn => ?_
  refine .field (renders_requireKeyArray _) fun allowedMembers => ?_
  refine .lift fun _ _ => ?_
  refine .field (renders_optUint _) fun expiresAt => ?_
  exact .pure ⟨_, rfl, by simp⟩

theorem renders_pipeClosed : Renders parsePipeClosed ["pipe_id", "reason"] fun c out => Writes (.pipeClosed c) out := by
  refine .field (renders_requireBytes _ 16) fun pipeId => ?_
  refine .field (renders_optEnum _ _) fun reason => ?_
  exact .pure ⟨_, rfl, by simp⟩

theorem renders_agentStatus : Renders parseAgentStatus ["status", "message", "related_artifact_ids", "progress_pct"]
    fun c out => Writes (.agentStatus c) out := by
  refine .field (renders_requireText _) fun status => ?_
  refine .lift fun _ _ => ?_
  refine .field (renders_optText _) fun message => ?_
  refine .lift fun _ _ => ?_
  refine .field (renders_optional _ (exact_array _ (exact_fixedBytes _ 16))) fun relatedArtifactIds => ?_
  refine .lift fun _ _ => ?_
  refine .field (renders_optUint _) fun progressPct => ?_
  refine .lift fun _ _ => ?_
  exact .pure ⟨_, rfl, by simp⟩

theorem exact_sealedType : Exact sealedType fun p => .text p.1.asStr := by
  intro v p h
  obtain ⟨s, hs, h⟩ := bind_eq_ok_iff.mp h
  obtain ⟨ty, hty, h⟩ := bind_eq_ok_iff.mp h
  obtain ⟨cap, -, h⟩ := bind_eq_ok_iff.mp h
  cases h
  dsimp only
  rw [textOf_eq_ok.mp hs, registry_asStr (okOr_eq_ok.mp hty)]

theorem renders_encrypted : Renders parseEncrypted ["inner_type", "key_epoch", "suite", "nonce", "ciphertext"]
    fun c out => Writes (.encrypted c) out := by
  refine .field (renders_required _ exact_sealedType) fun p => ?_
  refine .field (renders_requireUint _) fun keyEpoch => ?_
  refine .field (renders_requireUint _) fun suite => ?_
  refine .lift fun _ hsuite => ?_
  refine .field (renders_requireBytes _ 12) fun nonce => ?_
  refine .field (renders_required _ exact_bytes) fun ciphertext => ?_
  refine .lift fun _ _ => ?_
  obtain rfl := ensure_eq_ok.mp hsuite
  exact .pure ⟨_, rfl, by simp [textEntry, encryptedSuiteV1]⟩

/-- A content that a reader renders as it is written encodes to the map it was read from, and that map has none but
the reader's keys. -/
theorem encode_toCbor_of_renders {α : Type} {read : FieldReader α} {keys : List String} {wrap : α → Content}
    (hread : Renders read keys fun c out => Writes (wrap c) out) (honce : keys.Nodup) {value : CborValue}
    (hvalue : Ordered value) {content : Content} (h : (readFields read value).map wrap = .ok content) :
    encode content.toCbor = encode value ∧ ∃ entries, value = .map entries ∧ ∀ e ∈ entries, e.1 ∈ keys := by
  obtain ⟨c, hc, rfl⟩ := map_eq_ok_iff.mp h
  obtain ⟨entries, rfl, hkeys, hperm, written, hcbor, hout⟩ := readFields_eq_ok hread honce hvalue hc
  have honce := keysOnce_of_ordered hvalue
  have hperm : (render entries).Perm (render written) := hout ▸ hperm.map _
  refine ⟨?_, entries, rfl, hkeys⟩
  rw [hcbor, encode_sortIntoMap (honce.perm hperm), encode_map_eq, mapBytes_perm hperm honce]

/-- The types without wrapped keys. -/
def EventType.plain : EventType → Bool
  | .memberRemoved | .memberKeyDistribution => false
  | _ => true

theorem exact_parse {ty : EventType} (hty : ty.plain = true) {value : CborValue} (hvalue : Ordered value)
    {content : Content} (h : Content.parse ty value = .ok content) :
    encode content.toCbor = encode value ∧
      ∃ entries, value = .map entries ∧ ∀ e ∈ entries, e.1 ≠ "wrapped_keys" ∧ e.1 ≠ "rotation" := by
  have hplain : ∀ {α : Type} {read : FieldReader α} {keys : List String} {wrap : α → Content},
      (Renders read keys fun c out => Writes (wrap c) out) → keys.Nodup → "wrapped_keys" ∉ keys → "rotation" ∉ keys →
      (readFields read value).map wrap = .ok content → encode content.toCbor = encode value ∧
        ∃ entries, value = .map entries ∧ ∀ e ∈ entries, e.1 ≠ "wrapped_keys" ∧ e.1 ≠ "rotation" := by
    intro α read keys wrap hread honce hwrapped hrotation h
    obtain ⟨hencode, entries, hentries, hkeys⟩ := encode_toCbor_of_renders hread honce hvalue h
    refine ⟨hencode, entries, hentries, fun e he => ⟨fun heq => hwrapped ?_, fun heq => hrotation ?_⟩⟩
    · rw [← heq]
      exact hkeys e he
    · rw [← heq]
      exact hkeys e he
  cases ty with
  | roomCreated => exact hplain renders_roomCreated (by decide) (by decide) (by decide) h
  | memberInvited => exact hplain renders_memberInvited (by decide) (by decide) (by decide) h
  | memberJoined => exact hplain renders_memberJoined (by decide) (by decide) (by decide) h
  | memberLeft => exact hplain renders_memberLeft (by decide) (by decide) (by decide) h
  | messageText => exact hplain renders_messageText (by decide) (by decide) (by decide) h
  | fileShared => exact hplain renders_fileShared (by decide) (by decide) (by decide) h
  | pipeOpened => exact hplain renders_pipeOpened (by decide) (by decide) (by decide) h
  | pipeClosed => exact hplain renders_pipeClosed (by decide) (by decide) (by decide) h
  | agentStatus => exact hplain renders_agentStatus (by decide) (by decide) (by decide) h
  | contentEncrypted => exact hplain renders_encrypted (by decide) (by decide) (by decide) h
  | memberRemoved => cases hty
  | memberKeyDistribution => cases hty

end IrohRooms
