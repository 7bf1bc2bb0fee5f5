import IrohRooms.Lib.Turns
import IrohRooms.RoomGovernance.Chain

/-!
# Forks that a pass finds

A pass compares an entry with the tip of its author only. While the policy is the admin's alone, a second entry of the
admin at a position is a fork as long as the tip stands there. If a successor of the first has its turn before the
second entry has, the tip moves on and the second entry waits for ever. Whose turn comes first is read off the order of
the ids (`forkMeetsTip`).
-/

namespace IrohRooms.RoomGovernance

open Governance (Id Reject)

/-- What would come next behind `parent`, but removes the admin. -/
def removesAdmin (admin : MemberId) (parent : GovernanceEntryId) (e : GovernanceEntryId × GovernanceEntryBody) : Bool :=
  decide (e.2.parent = some parent ∧ e.2.action = .removeMember admin)

/-- What has its turn behind `parent` before the first entry that continues it. -/
def passedOver (entries : List (GovernanceEntryId × GovernanceEntryBody)) (admin : MemberId) (seq : UInt64)
    (parent : GovernanceEntryId) : List (GovernanceEntryId × GovernanceEntryBody) :=
  (Rounds.after Prod.fst entries parent).takeWhile fun e => !continues admin seq parent e

/-- Another entry of the admin at the position of `first`, not refused before `first` had its turn. -/
def rivals (entries : List (GovernanceEntryId × GovernanceEntryBody)) (admin : MemberId) (seq : UInt64)
    (parent first : GovernanceEntryId) (e : GovernanceEntryId × GovernanceEntryBody) : Bool :=
  atSeq admin seq e && decide (e.1 ≠ first) &&
    !((passedOver entries admin seq parent).any (fun b => decide (b.1 = e.1)) && removesAdmin admin parent e)

/-- Behind the first entry that continues `parent`, a rival has its turn before what continues that entry. -/
def forkMeetsTip (entries : List (GovernanceEntryId × GovernanceEntryBody)) (admin : MemberId) (seq : UInt64)
    (parent : GovernanceEntryId) : Bool :=
  match (Rounds.after Prod.fst entries parent).find? (continues admin seq parent) with
  | none => false
  | some first =>
    match (Rounds.after Prod.fst entries first.1).find? fun e =>
        rivals entries admin seq parent first.1 e || continues admin (seq + 1) first.1 e with
    | none => false
    | some next => rivals entries admin seq parent first.1 next

theorem removesAdmin_iff {admin : MemberId} {parent : GovernanceEntryId}
    {e : GovernanceEntryId × GovernanceEntryBody} : removesAdmin admin parent e = true ↔
    e.2.parent = some parent ∧ e.2.action = .removeMember admin := by
  simp [removesAdmin]

section Pass

variable {approvalsByEntry : OrdMap GovernanceEntryId (List ApprovalBody)} {roomId : RoomId}
variable {entriesById : OrdMap GovernanceEntryId GovernanceEntryBody}

theorem after_entries {before behind : List (GovernanceEntryId × GovernanceEntryBody)}
    {x : GovernanceEntryId × GovernanceEntryBody} (h : entriesById.entries = before ++ x :: behind) :
    Rounds.after Prod.fst entriesById.entries x.1 = behind ++ (before ++ [x]) := by
  have hsorted := entriesById.sorted
  rw [h] at hsorted ⊢
  exact Rounds.after_eq hsorted

/-- Where the first of the entries in question stands among the turns behind an entry. -/
theorem turn_of_find? {before behind : List (GovernanceEntryId × GovernanceEntryBody)}
    {x y : GovernanceEntryId × GovernanceEntryBody} {P : GovernanceEntryId × GovernanceEntryBody → Bool}
    (hsplit : entriesById.entries = before ++ x :: behind)
    (hfind : (Rounds.after Prod.fst entriesById.entries x.1).find? P = some y) :
    P y = true ∧ entriesById.entries = (before ++ [x]) ++ behind ∧ ∃ pre post,
      Rounds.after Prod.fst entriesById.entries x.1 = pre ++ y :: post ∧ behind ++ (before ++ [x]) = pre ++ y :: post ∧
      (∀ b ∈ pre, P b = false) ∧ ∀ b ∈ pre ++ y :: post, b ∈ entriesById.entries := by
  obtain ⟨hy, pre, post, hafter, hnone⟩ := List.find?_eq_some_iff_append.mp hfind
  have hitems : entriesById.entries = (before ++ [x]) ++ behind := by
    rw [hsplit, List.append_assoc]
    rfl
  have hturn := (after_entries hsplit).symm.trans hafter
  refine ⟨hy, hitems, pre, post, hafter, hturn, fun b hb => by simpa using hnone b hb, fun b hb => ?_⟩
  rw [← hturn, List.mem_append] at hb
  rw [hitems, List.mem_append]
  exact hb.symm

/-! ### Up to the first entry behind the tip -/

section Seeking

variable {admin : MemberId} {n : UInt64} {t : GovernanceEntryId}
variable {pre : List (GovernanceEntryId × GovernanceEntryBody)}

/-- While the entries of `pre` have their turn, the tip stays, and what stands at the next position waits for it; only
what would remove the admin is refused in passing. -/
structure Seeking (entriesById : OrdMap GovernanceEntryId GovernanceEntryBody) (roomId : RoomId) (admin : MemberId)
    (n : UInt64) (t : GovernanceEntryId) (pre : List (GovernanceEntryId × GovernanceEntryBody)) (p : Pass) : Prop where
  tipAt : TipAt entriesById roomId admin n t p
  fresh : ∀ e ∈ entriesById.entries, atSeq admin (n + 1) e = true → (e ∈ pre → removesAdmin admin t e = false) →
    p.items.get? e.1 = none

theorem Seeking.step (hone : OneRoom entriesById roomId) (hpre : ∀ b ∈ pre, continues admin (n + 1) t b = false)
    {p p' : Pass} {b : GovernanceEntryId × GovernanceEntryBody} (hb : b ∈ pre) (hmem : b ∈ entriesById.entries)
    (h : Seeking entriesById roomId admin n t pre p) (hvisit : visit approvalsByEntry p b = some p') :
    Seeking entriesById roomId admin n t pre p' := by
  obtain ⟨hopen, ⟨item, hitems⟩, hcases⟩ := h.tipAt.visit_cases hone (OrdMap.mem_entries.mp hmem) hvisit
  have hfresh : (atSeq admin (n + 1) b = true → removesAdmin admin t b = true) → ∀ e ∈ entriesById.entries,
      atSeq admin (n + 1) e = true → (e ∈ pre → removesAdmin admin t e = false) → p'.items.get? e.1 = none := by
    intro hremoves e he hat hkept
    have hne : e.1 ≠ b.1 := by
      intro heq
      obtain rfl : e = b := Prod.ext heq (Option.some.inj ((OrdMap.mem_entries.mp he).symm.trans
        (heq ▸ OrdMap.mem_entries.mp hmem)))
      rw [hkept hb] at hremoves
      exact Bool.false_ne_true (hremoves hat)
    rw [hitems, OrdMap.get?_insert_of_ne _ _ hne]
    exact h.fresh e he hat hkept
  rcases hcases with ⟨hcontinues, -⟩ | ⟨htip, -, hrefused⟩ | ⟨htip, hat, -⟩
  · rw [hpre b hb] at hcontinues
    cases hcontinues
  · refine ⟨htip, hfresh fun hat => ?_⟩
    obtain ⟨-, hparent, -⟩ := hrefused _ hat
    have hnot := hpre b hb
    rw [Bool.eq_false_iff, ne_eq, continues_iff] at hnot
    by_contra hremoves
    exact hnot ⟨hat, hparent, fun haction => hremoves (removesAdmin_iff.mpr ⟨hparent, haction⟩)⟩
  · refine ⟨htip, hfresh fun hnext => ?_⟩
    have hsame : n = n + 1 := (atSeq_iff.mp hat).2.2.symm.trans (atSeq_iff.mp hnext).2.2
    simp at hsame

/-- What would remove the admin is refused when its turn comes. -/
theorem Seeking.refused (hone : OneRoom entriesById roomId) (hpre : ∀ b ∈ pre, continues admin (n + 1) t b = false)
    (hsub : ∀ b ∈ pre, b ∈ entriesById.entries) {p : Pass} (h : Seeking entriesById roomId admin n t pre p)
    {b : GovernanceEntryId × GovernanceEntryBody} (hb : b ∈ pre) (hat : atSeq admin (n + 1) b = true)
    (hremoves : removesAdmin admin t b = true) :
    (Rounds.round (visit approvalsByEntry) pre p).1.items.get? b.1 ≠ none := by
  refine Rounds.round_visits (P := Seeking entriesById roomId admin n t pre) (Q := fun p => p.items.get? b.1 ≠ none) hb
    (fun p c p' hc hp hvisit => hp.step hone hpre hc (hsub c hc) hvisit) ?_ ?_
    (fun p c p' _ _ hdone hvisit => decided_of_visit hvisit hdone) h
  · intro p p' _ hvisit
    obtain ⟨item, hitems, -⟩ := visitEntry_items hvisit
    simp [hitems]
  · intro p hp hwaits hopen
    obtain ⟨p', hvisit⟩ := @TipAt.exists_visit_next approvalsByEntry _ _ _ _ _ _ _ hone hp.tipAt
      (OrdMap.mem_entries.mp (hsub b hb)) hopen hat (removesAdmin_iff.mp hremoves).1
    rw [hwaits] at hvisit
    cases hvisit

end Seeking

/-! ### From the first entry on -/

section Meeting

variable {admin : MemberId} {seq : UInt64} {parent : GovernanceEntryId}
variable {first : GovernanceEntryId × GovernanceEntryBody}

/-- The first entry behind `parent` is accepted and has no fork yet: what else stands at its position is open exactly if
it is a rival, and so is what continues it. -/
structure Meeting (entriesById : OrdMap GovernanceEntryId GovernanceEntryBody) (roomId : RoomId) (admin : MemberId)
    (seq : UInt64) (parent : GovernanceEntryId) (first : GovernanceEntryId) (p : Pass) : Prop where
  tipAt : TipAt entriesById roomId admin seq first p
  clear : p.state.forks = []
  taken : p.items.get? first ≠ none
  open_iff : ∀ e ∈ entriesById.entries, atSeq admin seq e = true → e.1 ≠ first →
    (p.items.get? e.1 = none ↔ rivals entriesById.entries admin seq parent first e = true)
  ahead : ∀ e ∈ entriesById.entries, continues admin (seq + 1) first e = true → p.items.get? e.1 = none

theorem Meeting.step (hone : OneRoom entriesById roomId) {p p' : Pass} {b : GovernanceEntryId × GovernanceEntryBody}
    (hmem : b ∈ entriesById.entries) (hrival : rivals entriesById.entries admin seq parent first.1 b = false)
    (hcontinues : continues admin (seq + 1) first.1 b = false)
    (h : Meeting entriesById roomId admin seq parent first.1 p) (hvisit : visit approvalsByEntry p b = some p') :
    Meeting entriesById roomId admin seq parent first.1 p' := by
  obtain ⟨hopen, ⟨item, hitems⟩, hcases⟩ := h.tipAt.visit_cases hone (OrdMap.mem_entries.mp hmem) hvisit
  have hne : b.1 ≠ first.1 := by
    intro heq
    exact h.taken (heq ▸ hopen)
  have hother : ∀ e ∈ entriesById.entries, e.1 = b.1 → e = b := fun e he heq =>
    Prod.ext heq (Option.some.inj ((OrdMap.mem_entries.mp he).symm.trans (heq ▸ OrdMap.mem_entries.mp hmem)))
  rcases hcases with ⟨hnext, -⟩ | ⟨htip, hforks, hrefused⟩ | ⟨-, hat, -⟩
  · rw [hcontinues] at hnext
    cases hnext
  · refine ⟨htip, hforks.trans h.clear, decided_of_visit hvisit h.taken, fun e he hat hfirst => ?_,
      fun e he hnext => ?_⟩
    · have hb : e.1 ≠ b.1 := by
        intro heq
        obtain rfl := hother e he heq
        have hsame := (hrefused _ hat).1
        simp at hsame
      rw [hitems, OrdMap.get?_insert_of_ne _ _ hb]
      exact h.open_iff e he hat hfirst
    · have hb : e.1 ≠ b.1 := by
        intro heq
        obtain rfl := hother e he heq
        rw [hcontinues] at hnext
        cases hnext
      rw [hitems, OrdMap.get?_insert_of_ne _ _ hb]
      exact h.ahead e he hnext
  · have hmeets := (h.open_iff b hmem hat hne).mp hopen
    rw [hrival] at hmeets
    cases hmeets

theorem passedOver_eq {entries pre post : List (GovernanceEntryId × GovernanceEntryBody)}
    (hafter : Rounds.after Prod.fst entries parent = pre ++ first :: post)
    (hpre : ∀ b ∈ pre, continues admin seq parent b = false) (hfirst : continues admin seq parent first = true) :
    passedOver entries admin seq parent = pre := by
  unfold passedOver
  rw [hafter, List.takeWhile_append_of_pos (fun b hb => by simp [hpre b hb]),
    List.takeWhile_cons_of_neg (by simp [hfirst]), List.append_nil]

/-- A rival of the first entry is at its position, and is refused in passing only if it would remove the admin. -/
theorem rivals_iff {entries : List (GovernanceEntryId × GovernanceEntryBody)} (hkeys : (entries.map Prod.fst).Nodup)
    (hsub : ∀ b ∈ passedOver entries admin seq parent, b ∈ entries) {e : GovernanceEntryId × GovernanceEntryBody}
    (he : e ∈ entries) (hat : atSeq admin seq e = true) (hne : e.1 ≠ first.1) :
    rivals entries admin seq parent first.1 e = true ↔
      (e ∈ passedOver entries admin seq parent → removesAdmin admin parent e = false) := by
  have hany : (passedOver entries admin seq parent).any (fun b => decide (b.1 = e.1)) = true ↔
      e ∈ passedOver entries admin seq parent := by
    rw [List.any_eq_true]
    constructor
    · rintro ⟨b, hb, heq⟩
      rwa [← List.inj_on_of_nodup_map hkeys (hsub b hb) he (of_decide_eq_true heq)]
    · exact fun hb => ⟨e, hb, by simp⟩
  unfold rivals
  rw [hat, decide_eq_true hne, Bool.true_and, Bool.true_and, Bool.not_eq_true', Bool.and_eq_false_imp, hany]

theorem atSeq_of_rivals {entries : List (GovernanceEntryId × GovernanceEntryBody)}
    {e : GovernanceEntryId × GovernanceEntryBody} (h : rivals entries admin seq parent first.1 e = true) :
    atSeq admin seq e = true ∧ e.1 ≠ first.1 := by
  unfold rivals at h
  simp only [Bool.and_eq_true, decide_eq_true_eq] at h
  exact h.1

/-- The turn of the first entry that continues the tip. -/
theorem Seeking.meets (hone : OneRoom entriesById roomId) {n : UInt64} {p p' : Pass}
    (hsub : ∀ b ∈ passedOver entriesById.entries admin (n + 1) parent, b ∈ entriesById.entries)
    (h : Seeking entriesById roomId admin n parent (passedOver entriesById.entries admin (n + 1) parent) p)
    (hrefused : ∀ b ∈ passedOver entriesById.entries admin (n + 1) parent, atSeq admin (n + 1) b = true →
      removesAdmin admin parent b = true → p.items.get? b.1 ≠ none)
    (hmem : first ∈ entriesById.entries) (hcontinues : continues admin (n + 1) parent first = true)
    (hvisit : visit approvalsByEntry p first = some p') (hclear : p.state.forks = [])
    (hrival : ∃ e ∈ entriesById.entries, rivals entriesById.entries admin (n + 1) parent first.1 e = true) :
    Meeting entriesById roomId admin (n + 1) parent first.1 p' := by
  obtain ⟨hat, -, hkeeps⟩ := continues_iff.mp hcontinues
  obtain ⟨hopen, ⟨item, hitems⟩, hcases⟩ := h.tipAt.visit_cases hone (OrdMap.mem_entries.mp hmem) hvisit
  rcases hcases with ⟨-, hnext, -, hforks, htip⟩ | ⟨-, -, hbad⟩ | ⟨-, hbad, -⟩
  · have hsame : ∀ {k : GovernanceEntryId}, k ≠ first.1 → p'.items.get? k = p.items.get? k := by
      intro k hk
      rw [hitems, OrdMap.get?_insert_of_ne _ _ hk]
    have hopen_iff : ∀ e ∈ entriesById.entries, atSeq admin (n + 1) e = true → e.1 ≠ first.1 →
        (p'.items.get? e.1 = none ↔ rivals entriesById.entries admin (n + 1) parent first.1 e = true) := by
      intro e he hate hne
      rw [hsame hne, rivals_iff entriesById.keys_nodup hsub he hate hne]
      constructor
      · intro hnone hpassed
        by_contra hremoves
        exact hrefused e hpassed hate (by simpa using hremoves) hnone
      · exact h.fresh e he hate
    refine ⟨htip, hforks, by simp [hitems], hopen_iff, fun e he hahead => ?_⟩
    -- a rival is still to be decided, so there is room for one more position
    obtain ⟨r, hr, hmeets⟩ := hrival
    obtain ⟨hatr, hner⟩ := atSeq_of_rivals hmeets
    have hroomy := htip.lt_of_open hone hr ((hopen_iff r hr hatr hner).mpr hmeets)
    have hate := (continues_iff.mp hahead).1
    obtain ⟨hauthor, hinit, hseq⟩ := atSeq_iff.mp hate
    have hlater : e.2.seq.toNat = n.toNat + 2 := by
      rw [hseq, UInt64.toNat_add, hnext]
      rw [hnext] at hroomy
      exact Nat.mod_eq_of_lt hroomy
    have hne : e.1 ≠ first.1 := by
      intro heq
      obtain rfl : e = first := Prod.ext heq (Option.some.inj ((OrdMap.mem_entries.mp he).symm.trans
        (heq ▸ OrdMap.mem_entries.mp hmem)))
      rw [(atSeq_iff.mp hat).2.2, hnext] at hlater
      omega
    rw [hsame hne]
    by_contra hdecided
    obtain ⟨item, hitem⟩ := Option.ne_none_iff_exists'.mp hdecided
    have hle := h.tipAt.chain.decided e.1 item e.2 hitem (OrdMap.mem_entries.mp he) hinit
    rw [hauthor, h.tipAt.authorSeq_eq] at hle
    omega
  · obtain ⟨-, -, hremoves | hforks⟩ := hbad _ hat
    · exact absurd hremoves hkeeps
    · exact absurd hclear hforks
  · have hsame : n = n + 1 := (atSeq_iff.mp hbad).2.2.symm.trans (atSeq_iff.mp hat).2.2
    simp at hsame

/-- Behind the parent, the first entry that continues it is accepted, unless a fork of the parent came first. -/
theorem exists_meeting (hone : OneRoom entriesById roomId) {n : UInt64} {p : Pass} {fuel : Nat}
    {x : GovernanceEntryId × GovernanceEntryBody} {before behind : List (GovernanceEntryId × GovernanceEntryBody)}
    (hsplit : entriesById.entries = before ++ x :: behind) (hp : TipAt entriesById roomId admin n x.1 p)
    (hfresh : ∀ e ∈ entriesById.entries, atSeq admin (n + 1) e = true → p.items.get? e.1 = none)
    (hfuel : undecided entriesById p < fuel)
    (hsmaller : ∀ f ∈ (Rounds.rest (visit approvalsByEntry) entriesById.entries behind fuel p).state.forks, f.seq ≠ n)
    (hfirst : (Rounds.after Prod.fst entriesById.entries x.1).find? (continues admin (n + 1) x.1) = some first)
    (hrival : ∃ e ∈ entriesById.entries, rivals entriesById.entries admin (n + 1) x.1 first.1 e = true) :
    ∃ before' behind' fuel' p', entriesById.entries = before' ++ first :: behind' ∧ undecided entriesById p' < fuel' ∧
      Rounds.rest (visit approvalsByEntry) entriesById.entries behind fuel p =
        Rounds.rest (visit approvalsByEntry) entriesById.entries behind' fuel' p' ∧
      Meeting entriesById roomId admin (n + 1) x.1 first.1 p' := by
  obtain ⟨hcontinues, hitems, pre, post, hafter, hturn, hpre, hsub⟩ := turn_of_find? hsplit hfirst
  obtain ⟨hat, hparent, hkeeps⟩ := continues_iff.mp hcontinues
  have hmem : first ∈ entriesById.entries := hsub first (List.mem_append_right _ List.mem_cons_self)
  have hpremem : ∀ b ∈ pre, b ∈ entriesById.entries := fun b hb => hsub b (List.mem_append_left _ hb)
  have hseeking : Seeking entriesById roomId admin n x.1 pre p := ⟨hp, fun e he hat _ => hfresh e he hat⟩
  have hat_turn : Seeking entriesById roomId admin n x.1 pre (Rounds.round (visit approvalsByEntry) pre p).1 :=
    Rounds.round_keeps (fun p b p' hb h hvisit => h.step hone hpre hb (hpremem b hb) hvisit) hseeking
  have hopen := hat_turn.fresh first hmem hat fun _ => by
    rw [Bool.eq_false_iff, ne_eq, removesAdmin_iff]
    exact fun hremoves => hkeeps hremoves.2
  obtain ⟨p', hvisit⟩ := @TipAt.exists_visit_next approvalsByEntry _ _ _ _ _ _ _ hone hat_turn.tipAt
    (OrdMap.mem_entries.mp hmem) hopen hat hparent
  obtain ⟨before', behind', fuel', hsplit', hfuel', hrest⟩ := Rounds.exists_turn (μ := undecided entriesById)
    (fun p e p' he hvisit => undecided_lt he hvisit) hitems hturn hvisit hfuel
  refine ⟨before', behind', fuel', p', hsplit', hfuel', hrest, ?_⟩
  obtain rfl := passedOver_eq hafter hpre hcontinues
  refine hat_turn.meets hone hpremem (fun b hb => hseeking.refused hone hpre hpremem hb) hmem hcontinues hvisit ?_
    hrival
  -- a fork of the parent would still be there at the end
  rw [List.eq_nil_iff_forall_not_mem]
  intro f hf
  obtain ⟨-, hauthor, hseq⟩ := hat_turn.tipAt.chain.forks f hf
  have hadmin : admin = f.author := Option.some.inj (hat_turn.tipAt.holder.symm.trans hauthor)
  rw [← hadmin, hat_turn.tipAt.authorSeq_eq] at hseq
  refine hsmaller f ?_ hseq
  rw [hrest]
  refine Rounds.rest_keeps (P := fun p => f ∈ p.state.forks) (fun b hb => ?_)
    (fun p b p' _ hf hvisit => mem_forks_of_visit hvisit hf) (mem_forks_of_visit hvisit hf)
  rw [hsplit']
  exact List.mem_append_right _ (List.mem_cons_of_mem _ hb)

/-- The next turn behind the first entry decides about the fork: a rival freezes the chain, and what continues the first
entry leaves its position behind. -/
theorem Meeting.decides (hone : OneRoom entriesById roomId) {p : Pass} {fuel : Nat}
    {before behind : List (GovernanceEntryId × GovernanceEntryBody)}
    (hsplit : entriesById.entries = before ++ first :: behind)
    (h : Meeting entriesById roomId admin seq parent first.1 p) (hfuel : undecided entriesById p < fuel)
    {next : GovernanceEntryId × GovernanceEntryBody}
    (hnext : (Rounds.after Prod.fst entriesById.entries first.1).find? (fun e =>
      rivals entriesById.entries admin seq parent first.1 e || continues admin (seq + 1) first.1 e) = some next) :
    (rivals entriesById.entries admin seq parent first.1 next = true →
      TipAt entriesById roomId admin seq first.1
        (Rounds.rest (visit approvalsByEntry) entriesById.entries behind fuel p) ∧
      ∃ f ∈ (Rounds.rest (visit approvalsByEntry) entriesById.entries behind fuel p).state.forks,
        f.author = admin ∧ f.seq = seq) ∧
    (rivals entriesById.entries admin seq parent first.1 next = false → ∃ k t, seq.toNat < k.toNat ∧
      TipAt entriesById roomId admin k t
        (Rounds.rest (visit approvalsByEntry) entriesById.entries behind fuel p)) := by
  obtain ⟨hmeets, hitems, pre, post, -, hafter, hnone, hsub⟩ := turn_of_find? hsplit hnext
  have hmem : next ∈ entriesById.entries := hsub next (List.mem_append_right _ List.mem_cons_self)
  have hget := OrdMap.mem_entries.mp hmem
  have hturn : Meeting entriesById roomId admin seq parent first.1 (Rounds.round (visit approvalsByEntry) pre p).1 := by
    refine Rounds.round_keeps (fun p b p' hb h hvisit => ?_) h
    have hneither := Bool.or_eq_false_iff.mp (hnone b hb)
    exact h.step hone (hsub b (List.mem_append_left _ hb)) hneither.1 hneither.2 hvisit
  have hkeeps : ∀ {P : Pass → Prop} {p'}, (∀ p b p', entriesById.get? b.1 = some b.2 → P p →
        visit approvalsByEntry p b = some p' → P p') →
      visit approvalsByEntry (Rounds.round (visit approvalsByEntry) pre p).1 next = some p' → P p' →
        P (Rounds.rest (visit approvalsByEntry) entriesById.entries behind fuel p) := by
    intro P p' hkeep hvisit hp'
    obtain ⟨before', behind', fuel', hsplit', -, hrest⟩ := Rounds.exists_turn (μ := undecided entriesById)
      (fun p e p' he hvisit => undecided_lt he hvisit) hitems hafter hvisit hfuel
    rw [hrest]
    refine Rounds.rest_keeps (fun b hb => ?_) (fun p b p' hb => hkeep p b p' (OrdMap.mem_entries.mp hb)) hp'
    rw [hsplit']
    exact List.mem_append_right _ (List.mem_cons_of_mem _ hb)
  constructor
  · intro hrival
    obtain ⟨hat, hne⟩ := atSeq_of_rivals hrival
    have hopen := (hturn.open_iff next hmem hat hne).mpr hrival
    obtain ⟨p', hvisit⟩ := @TipAt.exists_visit_at approvalsByEntry _ _ _ _ _ _ _ hone hturn.tipAt hget hopen hat hne
    obtain ⟨-, -, ⟨hcontinues, -⟩ | ⟨-, -, hbad⟩ | ⟨htip, -, f, hauthor, hseq, hforks⟩⟩ :=
      hturn.tipAt.visit_cases hone hget hvisit
    · have hsame : seq = seq + 1 := (atSeq_iff.mp hat).2.2.symm.trans (atSeq_iff.mp (continues_iff.mp hcontinues).1).2.2
      simp at hsame
    · have hsame := (hbad _ hat).1
      simp at hsame
    · have hfrozen : TipAt entriesById roomId admin seq first.1 p' ∧ f ∈ p'.state.forks := by
        refine ⟨htip, ?_⟩
        rw [hforks]
        exact List.mem_append_right _ (List.mem_singleton_self _)
      have hstays : TipAt entriesById roomId admin seq first.1
          (Rounds.rest (visit approvalsByEntry) entriesById.entries behind fuel p) ∧
          f ∈ (Rounds.rest (visit approvalsByEntry) entriesById.entries behind fuel p).state.forks := by
        refine hkeeps (P := fun p => TipAt entriesById roomId admin seq first.1 p ∧ f ∈ p.state.forks)
          (fun p b p' hb hp hvisit => ?_) hvisit hfrozen
        -- with a fork on record nothing is accepted
        obtain ⟨-, -, ⟨-, -, hclear, -⟩ | ⟨htip, -⟩ | ⟨htip, -⟩⟩ := hp.1.visit_cases hone hb hvisit
        · rw [hclear] at hp
          exact absurd hp.2 List.not_mem_nil
        · exact ⟨htip, mem_forks_of_visit hvisit hp.2⟩
        · exact ⟨htip, mem_forks_of_visit hvisit hp.2⟩
      exact ⟨hstays.1, f, hstays.2, hauthor, hseq⟩
  · intro hnot
    rw [hnot, Bool.false_or] at hmeets
    obtain ⟨hat, hparent, hremoves⟩ := continues_iff.mp hmeets
    have hopen := hturn.ahead next hmem hmeets
    obtain ⟨p', hvisit⟩ := @TipAt.exists_visit_next approvalsByEntry _ _ _ _ _ _ _ hone hturn.tipAt hget hopen hat
      hparent
    obtain ⟨-, -, ⟨-, hroomy, -, -, htip⟩ | ⟨-, -, hbad⟩ | ⟨-, hbad, -⟩⟩ := hturn.tipAt.visit_cases hone hget hvisit
    · refine hkeeps (P := fun p => ∃ k t, seq.toNat < k.toNat ∧ TipAt entriesById roomId admin k t p)
        (fun p b p' hb hp hvisit => ?_) hvisit ⟨seq + 1, next.1, by omega, htip⟩
      obtain ⟨k, t, hlt, hp⟩ := hp
      obtain ⟨k', t', hle, htip⟩ := hp.step hone hb hvisit
      exact ⟨k', t', by omega, htip⟩
    · obtain ⟨-, -, hbad | hforks⟩ := hbad _ hat
      · exact absurd hbad hremoves
      · exact absurd hturn.clear hforks
    · have hsame : seq = seq + 1 := (atSeq_iff.mp hbad).2.2.symm.trans (atSeq_iff.mp hat).2.2
      simp at hsame

end Meeting

/-! ### A whole pass -/

theorem mem_after {entries : List (GovernanceEntryId × GovernanceEntryBody)} {k : GovernanceEntryId}
    {e : GovernanceEntryId × GovernanceEntryBody} : e ∈ Rounds.after Prod.fst entries k ↔ e ∈ entries := by
  unfold Rounds.after
  simp only [List.mem_append, List.mem_filter, decide_eq_true_eq, ← and_or_left]
  exact and_iff_left (lt_or_ge _ _)

/-- Of two entries that continue one parent, one is a rival of the first. -/
theorem exists_rival {admin : MemberId} {seq : UInt64} {parent : GovernanceEntryId}
    {a b : GovernanceEntryId × GovernanceEntryBody} (ha : a ∈ entriesById.entries) (hb : b ∈ entriesById.entries)
    (hab : a.1 ≠ b.1) (hfollows : continues admin seq parent a = true) (hfollows' : continues admin seq parent b = true)
    (first : GovernanceEntryId × GovernanceEntryBody) :
    ∃ e ∈ entriesById.entries, rivals entriesById.entries admin seq parent first.1 e = true := by
  have hsub : ∀ e ∈ passedOver entriesById.entries admin seq parent, e ∈ entriesById.entries :=
    fun e he => mem_after.mp ((List.takeWhile_sublist _).mem he)
  have hrival : ∀ e ∈ entriesById.entries, continues admin seq parent e = true → e.1 ≠ first.1 →
      rivals entriesById.entries admin seq parent first.1 e = true := by
    intro e he hfollows hne
    obtain ⟨hat, -, hkeeps⟩ := continues_iff.mp hfollows
    refine (rivals_iff entriesById.keys_nodup hsub he hat hne).mpr fun _ => ?_
    rw [Bool.eq_false_iff, ne_eq, removesAdmin_iff]
    exact fun hremoves => hkeeps hremoves.2
  by_cases hfirst : a.1 = first.1
  · exact ⟨b, hb, hrival b hb hfollows' fun heq => hab (hfirst.trans heq.symm)⟩
  · exact ⟨a, ha, hrival a ha hfollows hfirst⟩

/-- Behind an accepted parent with two entries at the next position, and with no fork before that position: the pass
freezes there with a fork exactly if the fork meets the tip, and else goes past it. -/
theorem passRounds_decides (hone : OneRoom entriesById roomId) {admin : MemberId} {seq : UInt64}
    {state : GovernanceState} {parent : GovernanceEntryId} {body : GovernanceEntryBody}
    (hadmin : (passRounds approvalsByEntry OrdMap.empty roomId entriesById).state.admin = some admin)
    (haccepted : AcceptedIn approvalsByEntry OrdMap.empty roomId entriesById state parent body)
    (hseq : body.seq.toNat + 1 = seq.toNat) {a b : GovernanceEntryId × GovernanceEntryBody}
    (ha : a ∈ entriesById.entries) (hb : b ∈ entriesById.entries) (hab : a.1 ≠ b.1)
    (hfollows : continues admin seq parent a = true) (hfollows' : continues admin seq parent b = true)
    (hsmaller : ∀ f ∈ (passRounds approvalsByEntry OrdMap.empty roomId entriesById).state.forks,
      seq.toNat ≤ f.seq.toNat) :
    (forkMeetsTip entriesById.entries admin seq parent = true →
      (∃ t, TipAt entriesById roomId admin seq t (passRounds approvalsByEntry OrdMap.empty roomId entriesById)) ∧
      ∃ f ∈ (passRounds approvalsByEntry OrdMap.empty roomId entriesById).state.forks,
        f.author = admin ∧ f.seq = seq) ∧
    (forkMeetsTip entriesById.entries admin seq parent = false → ∃ k t, seq.toNat < k.toNat ∧
      TipAt entriesById roomId admin k t (passRounds approvalsByEntry OrdMap.empty roomId entriesById)) := by
  obtain ⟨p, hmove, rfl, hclass⟩ := haccepted
  have hchain : OneChain entriesById roomId p := by
    have hall := (@passMoves_follows approvalsByEntry OrdMap.empty roomId entriesById).invariant
      (P := OneChain entriesById roomId) (fun m hm p' hstep h => h.step hone
        (OrdMap.mem_entries.mp (Rounds.mem_of_mem_moves hm)) hstep) .start
    exact hall.1 _ hmove
  have hget : entriesById.get? parent = some body := OrdMap.mem_entries.mp (Rounds.mem_of_mem_moves hmove)
  have hmove : (p, parent, body) ∈ Rounds.moves (visit approvalsByEntry) entriesById.entries
      (entriesById.entries.length + 1) (.start roomId) := hmove
  obtain ⟨before, behind, fuel, p', hsplit, hvisit, hfuel, hloop⟩ := Rounds.exists_rest (μ := undecided entriesById)
    (fun p e p' he hvisit => undecided_lt he hvisit) hmove (Nat.lt_succ_of_le (List.length_filter_le _ _))
  have hloop : passRounds approvalsByEntry OrdMap.empty roomId entriesById =
      Rounds.rest (visit approvalsByEntry) entriesById.entries behind fuel p' := hloop
  rw [hloop] at hadmin hsmaller ⊢
  have hbehind : ∀ e ∈ behind, e ∈ entriesById.entries := by
    intro e he
    rw [hsplit]
    exact List.mem_append_right _ (List.mem_cons_of_mem _ he)
  -- the parent is accepted, and the chain ends in it
  obtain ⟨hnext, -, hholder, -⟩ := hchain.of_accept (e := (parent, body)) hone hclass (Nat.zero_lt_of_lt (undecided_lt
    (OrdMap.mem_entries.mpr hget) hvisit))
  have htip := hchain.step hone hget hvisit
  obtain ⟨hopen, -, ⟨-, rfl⟩ | ⟨_, hbad, -⟩ | ⟨_, hbad, -⟩⟩ := visitEntry_cases hvisit
  · replace htip : TipAt entriesById roomId body.author body.seq parent
        ⟨applyEntry p.state body parent, p.items.insert parent (.accepted parent)⟩ :=
      ⟨htip, hholder, (get?_tips_applyEntry _).trans (if_pos rfl)⟩
    obtain rfl : admin = body.author := by
      have hstays : ∀ p b p', b ∈ entriesById.entries → (∃ n t, TipAt entriesById roomId body.author n t p) →
          visit approvalsByEntry p b = some p' → ∃ n t, TipAt entriesById roomId body.author n t p' := by
        intro p b p' hb hp hvisit
        obtain ⟨n, t, hp⟩ := hp
        obtain ⟨n', t', -, hp'⟩ := hp.step hone (OrdMap.mem_entries.mp hb) hvisit
        exact ⟨n', t', hp'⟩
      obtain ⟨n, t, hfinal⟩ := Rounds.rest_keeps hbehind hstays ⟨_, _, htip⟩
      exact Option.some.inj (hadmin.symm.trans hfinal.holder)
    obtain rfl : seq = body.seq + 1 := by
      apply UInt64.toNat_inj.mp
      rw [UInt64.toNat_add, ← hseq]
      exact (Nat.mod_eq_of_lt (hseq ▸ seq.toNat_lt)).symm
    have hfresh : ∀ e ∈ entriesById.entries, atSeq body.author (body.seq + 1) e = true →
        (p.items.insert parent (.accepted parent)).get? e.1 = none := by
      intro e he hat
      obtain ⟨hauthor, hinit, hat⟩ := atSeq_iff.mp hat
      have hlater : e.2.seq.toNat = body.seq.toNat + 1 := by
        rw [hat, hseq]
      rw [OrdMap.get?_insert]
      split_ifs with hparent
      · rw [Option.some.inj ((OrdMap.mem_entries.mp he).symm.trans (hparent ▸ hget))] at hlater
        omega
      · by_contra hdecided
        obtain ⟨item, hitem⟩ := Option.ne_none_iff_exists'.mp hdecided
        have hle := hchain.decided e.1 item e.2 hitem (OrdMap.mem_entries.mp he) hinit
        rw [hauthor] at hle
        dsimp only at hnext
        omega
    have hbefore : ∀ f ∈ (Rounds.rest (visit approvalsByEntry) entriesById.entries behind fuel
        ⟨applyEntry p.state body parent, p.items.insert parent (.accepted parent)⟩).state.forks, f.seq ≠ body.seq := by
      intro f hf heq
      have hle := hsmaller f hf
      rw [heq] at hle
      omega
    obtain ⟨first, hfirst⟩ : ∃ first, (Rounds.after Prod.fst entriesById.entries parent).find?
        (continues body.author (body.seq + 1) parent) = some first :=
      Option.isSome_iff_exists.mp (List.find?_isSome.mpr ⟨a, mem_after.mpr ha, hfollows⟩)
    have hrival := exists_rival ha hb hab hfollows hfollows' first
    obtain ⟨before', behind', fuel', p', hsplit', hfuel', hrest, hmeeting⟩ :=
      exists_meeting hone hsplit htip hfresh hfuel hbefore hfirst hrival
    obtain ⟨r, hr, hmeets⟩ := hrival
    obtain ⟨next, hnext⟩ : ∃ next, (Rounds.after Prod.fst entriesById.entries first.1).find? (fun e =>
        rivals entriesById.entries body.author (body.seq + 1) parent first.1 e ||
          continues body.author (body.seq + 1 + 1) first.1 e) = some next :=
      Option.isSome_iff_exists.mp (List.find?_isSome.mpr ⟨r, mem_after.mpr hr, by simp [hmeets]⟩)
    have hdecides := @Meeting.decides approvalsByEntry _ _ _ _ _ _ hone _ _ _ _ hsplit' hmeeting hfuel' _ hnext
    rw [← hrest] at hdecides
    have hmeets_iff : forkMeetsTip entriesById.entries body.author (body.seq + 1) parent =
        rivals entriesById.entries body.author (body.seq + 1) parent first.1 next := by
      unfold forkMeetsTip
      rw [hfirst]
      dsimp only
      rw [hnext]
    rw [hmeets_iff]
    exact ⟨fun hmet => ⟨⟨_, (hdecides.1 hmet).1⟩, (hdecides.1 hmet).2⟩, hdecides.2⟩
  · rw [hclass] at hbad
    cases hbad
  · rw [hclass] at hbad
    cases hbad

end Pass

/-! ### The fold -/

namespace GovernanceFold

variable (env : Env) (fold : GovernanceFold) (outcome : FoldOutcome) (admin : MemberId) (seq : UInt64)

/-- Two entries of the admin at one position name the same accepted entry of the admin as their parent. -/
def Equivocates (parent : GovernanceEntryId) : Prop :=
  .accepted parent ∈ outcome.items ∧
  (∃ body, (fold.entriesById env).get? parent = some body ∧ body.author = admin ∧ body.seq.toNat + 1 = seq.toNat) ∧
  ∃ a b : GovernanceEntryId × GovernanceEntryBody, a.1 ≠ b.1 ∧ ∀ e ∈ [a, b],
    (fold.entriesById env).get? e.1 = some e.2 ∧ e.2.author = admin ∧ e.2.action.isInitRoom = false ∧
    e.2.action ≠ .removeMember admin ∧ e.2.seq = seq ∧ e.2.parent = some parent

/-- The outcome has evidence of a fork at the position, and the admin gets no further. -/
def Detects : Prop :=
  (∃ f ∈ outcome.unresolvedForks, f.author = admin ∧ f.seq = seq) ∧
  ∀ id body, .accepted id ∈ outcome.items → (fold.entriesById env).get? id = some body → body.author = admin →
    body.seq ≤ seq

variable {env fold outcome admin seq}

/-- Without resolutions an outcome reports one pass with nothing dropped. -/
theorem finish_unresolved (h : fold.finish env = .ok outcome) (hresolutions : fold.resolutions = []) :
    (fold.resolved env outcome.roomId).dropped = OrdMap.empty ∧
    outcome.state.admin = (passRounds fold.approvalsByEntry OrdMap.empty outcome.roomId
      (fold.entriesById env)).state.admin ∧
    ∀ f, f ∈ outcome.unresolvedForks ↔ f ∈ (passRounds fold.approvalsByEntry OrdMap.empty outcome.roomId
      (fold.entriesById env)).state.forks ∧ f.resolved = false := by
  have hresolved : ∀ roomId, fold.resolved env roomId = ⟨[], OrdMap.empty⟩ := by
    intro roomId
    unfold resolved
    rw [hresolutions]
    rfl
  unfold finish at h
  split at h
  · cases h
  · rename_i roomId hroom
    obtain rfl := Except.ok.inj h
    dsimp only
    rw [hresolved roomId]
    refine ⟨rfl, rfl, fun f => ?_⟩
    rw [List.mem_filter, forks, OrdSet.sortDedup, OrdSet.mem_toList, OrdSet.mem_ofList, hresolved roomId]
    simp [pass, foldPass]

theorem exists_accepted_rounds (h : fold.finish env = .ok outcome) {id : GovernanceEntryId}
    (hitem : .accepted id ∈ outcome.items) : ∃ k, (passRounds fold.approvalsByEntry
      (fold.resolved env outcome.roomId).dropped outcome.roomId (fold.entriesById env)).items.get? k =
        some (.accepted id) := by
  rw [(finish_eq_ok h).2, OrdMap.mem_values] at hitem
  obtain ⟨k, hk⟩ := hitem
  exact ⟨k, accepted_of_markMissing (accepted_of_dropped hk)⟩

/-- For the entries of one room with a genesis, no policy change and no resolutions, where no earlier fork of the admin
is open: two entries of the admin behind one accepted parent are detected exactly if the second meets the tip. -/
theorem detects_iff (h : fold.finish env = .ok outcome) (hfits : fold.entries.length < 2 ^ 64)
    (hroom : ∀ body ∈ fold.entries, body.roomId = outcome.roomId)
    (hpolicy : ∀ body ∈ fold.entries, ∀ policy, body.action ≠ .setPolicy policy) (hresolutions : fold.resolutions = [])
    (hadmin : outcome.state.admin = some admin) {parent : GovernanceEntryId}
    (hequivocates : fold.Equivocates env outcome admin seq parent)
    (hsmaller : ∀ f ∈ outcome.unresolvedForks, f.author = admin → ¬ f.seq < seq) :
    fold.Detects env outcome admin seq ↔ forkMeetsTip (fold.entriesById env).entries admin seq parent = true := by
  have hone : OneRoom (fold.entriesById env) outcome.roomId := by
    refine ⟨fun id body hbody => ?_, fun id body hbody => ?_, Nat.lt_of_le_of_lt OrdMap.length_indexBy_le hfits⟩
    · exact hroom body (OrdMap.mem_of_get?_indexBy hbody).1
    · exact hpolicy body (OrdMap.mem_of_get?_indexBy hbody).1
  obtain ⟨hdropped, hstate, hforks⟩ := finish_unresolved h hresolutions
  obtain ⟨hparent, ⟨body, hbody, -, hseq⟩, a, b, hab, hentries⟩ := hequivocates
  have hfollows : ∀ e ∈ [a, b], e ∈ (fold.entriesById env).entries ∧ continues admin seq parent e = true := by
    intro e he
    obtain ⟨hget, hauthor, hinit, hkeeps, hat, hlinked⟩ := hentries e he
    exact ⟨OrdMap.mem_entries.mpr hget, continues_iff.mpr ⟨atSeq_iff.mpr ⟨hauthor, hinit, hat⟩, hlinked, hkeeps⟩⟩
  obtain ⟨state, body', haccepted⟩ := exists_acceptedIn h hparent
  obtain rfl : body = body' := Option.some.inj (hbody.symm.trans (RoomGovernance.AcceptedIn.get? haccepted))
  unfold AcceptedIn at haccepted
  rw [hdropped] at haccepted
  have hchain : OneChain (fold.entriesById env) outcome.roomId
      (passRounds fold.approvalsByEntry OrdMap.empty outcome.roomId (fold.entriesById env)) :=
    (passMoves_follows.invariant (fun m hm p' hstep hm' => hm'.step hone
      (OrdMap.mem_entries.mp (Rounds.mem_of_mem_moves hm)) hstep) .start).2
  rw [hstate] at hadmin
  have hlater : ∀ f ∈ (passRounds fold.approvalsByEntry OrdMap.empty outcome.roomId
      (fold.entriesById env)).state.forks, seq.toNat ≤ f.seq.toNat := by
    intro f hf
    obtain ⟨hopen, hauthor, -⟩ := hchain.forks f hf
    have hnot := hsmaller f ((hforks f).mpr ⟨hf, hopen⟩) (Option.some.inj (hauthor.symm.trans hadmin))
    exact Nat.le_of_not_lt hnot
  obtain ⟨ha, hafter⟩ := hfollows a List.mem_cons_self
  obtain ⟨hb, hafter'⟩ := hfollows b (List.mem_cons_of_mem _ List.mem_cons_self)
  obtain ⟨hmet, hpast⟩ := passRounds_decides hone hadmin haccepted hseq ha hb hab hafter hafter' hlater
  cases hmeets : forkMeetsTip (fold.entriesById env).entries admin seq parent with
  | true =>
    obtain ⟨⟨t, htip⟩, f, hf, hauthor, hat⟩ := hmet hmeets
    refine iff_of_true ⟨⟨f, (hforks f).mpr ⟨hf, (hchain.forks f hf).1⟩, hauthor, hat⟩, ?_⟩ rfl
    intro id body' hitem hbody' hauthor'
    obtain ⟨k, hk⟩ := exists_accepted_rounds h hitem
    rw [hdropped] at hk
    obtain ⟨rfl, hle⟩ := hchain.accepted k id hk
    have hle := hle body' hbody'
    rw [hauthor', htip.authorSeq_eq] at hle
    exact hle
  | false =>
    obtain ⟨k, t, hlt, htip⟩ := hpast hmeets
    refine iff_of_false ?_ Bool.false_ne_true
    rintro ⟨⟨f, hf, hauthor, hat⟩, -⟩
    have hseq' := (hchain.forks f ((hforks f).mp hf).1).2.2
    rw [hauthor, hat, htip.authorSeq_eq] at hseq'
    rw [hseq'] at hlt
    exact Nat.lt_irrefl _ hlt

end GovernanceFold

namespace Toy

/-- The admin's entry behind `add 3` that adds member `k`. -/
def behind (k : Nat) : GovernanceEntryBody :=
  entry 1 3 (some (idOfBody toyEnv (add 3))) (.addMember (who k) (.ofNat k) .member)

/-- Two entries behind the genesis, and one behind the one that is accepted. -/
def forkedRoom (k : Nat) : GovernanceFold :=
  (((GovernanceFold.new.entry genesis).entry (add 2)).entry (add 3)).entry (behind k)

/-- The genesis is accepted, and the entries are on record under their own ids. -/
def recorded (k : Nat) : Bool :=
  decide (.accepted (idOfBody toyEnv genesis) ∈ ((forkedRoom k).items toyEnv roomId).values) &&
  decide (∀ body ∈ [genesis, add 2, add 3],
    ((forkedRoom k).entriesById toyEnv).get? (idOfBody toyEnv body) = some body) &&
  decide (idOfBody toyEnv (add 2) ≠ idOfBody toyEnv (add 3))

theorem forkedRoom_equivocates {k : Nat} (hrecorded : recorded k = true) {outcome : FoldOutcome}
    (h : (forkedRoom k).finish toyEnv = .ok outcome) :
    (forkedRoom k).Equivocates toyEnv outcome (who 1) 2 (idOfBody toyEnv genesis) := by
  simp only [recorded, Bool.and_eq_true, decide_eq_true_eq, List.forall_mem_cons, List.not_mem_nil, false_imp_iff,
    implies_true, and_true] at hrecorded
  obtain ⟨⟨haccepted, hgenesis, hfirst, hsecond⟩, hne⟩ := hrecorded
  obtain ⟨hroom, hitems⟩ := GovernanceFold.finish_eq_ok h
  have hsame : outcome.roomId = roomId := (Option.some.inj hroom).symm
  rw [hsame] at hitems
  refine ⟨hitems ▸ haccepted, ⟨genesis, hgenesis, rfl, rfl⟩, (_, add 2), (_, add 3), hne, ?_⟩
  simp only [List.forall_mem_cons, List.not_mem_nil, false_imp_iff, implies_true, and_true]
  exact ⟨⟨hfirst, rfl, rfl, by simp [add, entry], rfl, rfl⟩, hsecond, rfl, rfl, by simp [add, entry], rfl, rfl⟩

theorem forkedRoom_plain (k : Nat) : (forkedRoom k).entries.length < 2 ^ 64 ∧
    (∀ body ∈ (forkedRoom k).entries, body.roomId = roomId ∧ ∀ policy, body.action ≠ .setPolicy policy) ∧
    (forkedRoom k).resolutions = [] := by
  have hlength : (forkedRoom k).entries.length = 4 := rfl
  refine ⟨by rw [hlength]; decide, fun body hbody => ?_, rfl⟩
  simp only [forkedRoom, GovernanceFold.entry, GovernanceFold.new, List.nil_append, List.cons_append, List.mem_cons,
    List.not_mem_nil, or_false] at hbody
  rcases hbody with rfl | rfl | rfl | rfl <;> exact ⟨rfl, fun policy => by simp [genesis, add, behind, entry]⟩

/-- A successor that comes up behind the second entry leaves it the time to meet the tip. -/
theorem detects_iff_met : ∃ outcome, (forkedRoom 5).finish toyEnv = .ok outcome ∧
    (forkedRoom 5).Equivocates toyEnv outcome (who 1) 2 (idOfBody toyEnv genesis) ∧
    (forkedRoom 5).Detects toyEnv outcome (who 1) 2 := by
  have hequivocates := forkedRoom_equivocates (k := 5) (by decide +kernel) rfl
  refine ⟨_, rfl, hequivocates, ?_⟩
  obtain ⟨hfits, hplain, hresolutions⟩ := forkedRoom_plain 5
  refine (GovernanceFold.detects_iff rfl hfits (fun body hbody => (hplain body hbody).1)
    (fun body hbody => (hplain body hbody).2) hresolutions ?_ hequivocates ?_).mpr ?_
  · decide +kernel
  · decide +kernel
  · decide +kernel

/-- The successor of the first entry comes up before the second entry: the fork goes unseen. -/
theorem fork_missed : ∃ outcome, (forkedRoom 4).finish toyEnv = .ok outcome ∧
    (forkedRoom 4).entries.length < 2 ^ 64 ∧
    (∀ body ∈ (forkedRoom 4).entries, body.roomId = outcome.roomId ∧ ∀ policy, body.action ≠ .setPolicy policy) ∧
    (forkedRoom 4).resolutions = [] ∧ outcome.state.admin = some (who 1) ∧
    (forkedRoom 4).Equivocates toyEnv outcome (who 1) 2 (idOfBody toyEnv genesis) ∧ outcome.unresolvedForks = [] ∧
    ¬ (forkedRoom 4).Detects toyEnv outcome (who 1) 2 := by
  obtain ⟨hfits, hplain, hresolutions⟩ := forkedRoom_plain 4
  refine ⟨_, rfl, hfits, hplain, hresolutions, by decide +kernel, forkedRoom_equivocates (by decide +kernel) rfl,
    by decide +kernel, ?_⟩
  rintro ⟨⟨f, hf, -⟩, -⟩
  have hnone : (((forkedRoom 4).forks toyEnv roomId).filter fun f => !f.resolved) = [] := by decide +kernel
  exact absurd (hnone ▸ hf) List.not_mem_nil

end Toy

end IrohRooms.RoomGovernance
