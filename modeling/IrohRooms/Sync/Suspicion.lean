import IrohRooms.Sync.Completeness
import IrohRooms.Sync.Frame

/-!
# How long a made-up tip denies

An admin tip that is ahead of the local chain arms a suspicion with a budget of ticks, and the node fails closed until
the event comes or the budget is spent. A repeat of the tip being chased does not refresh the budget, but a repeat
after it was spent arms the suspicion again. `closedTicks_le` bounds the ticks in the runs without such a repeat.
-/

namespace IrohRooms

section

variable {env : Env} {sealing : Sealing} {room : RoomId}

namespace SyncEngine

/-- Any two rings are related. -/
def anyRings (seed : Option SigningKey) : RingRelation env sealing room := ⟨seed, fun _ _ => True, fun _ _ _ => trivial⟩

theorem kept_self (e : SyncEngine env sealing room) : Kept (anyRings e.localDeviceSeed) e e e := .refl rfl trivial

/-! ### One call -/

/-- A call that keeps the suspicion or drops it, and the configuration. -/
structure Settles (e e' : SyncEngine env sealing room) : Prop where
  config : e'.config = e.config
  suspect : e'.suspectTip = e.suspectTip ∨ e'.suspectTip = none
  guarded : e.Guarded → e'.Guarded

theorem settles_of_kept {seed : Option SigningKey} {e a b : SyncEngine env sealing room}
    (h : Kept (anyRings seed) e a b) : Settles e a := ⟨h.config, h.suspect, h.guarded⟩

theorem Settles.some {e e' : SyncEngine env sealing room} (h : Settles e e') {t : SuspectTip}
    (ht : e'.suspectTip = some t) : e.suspectTip = some t := by
  rcases h.suspect with hsame | hnone
  · rw [← hsame, ht]
  · rw [hnone] at ht
    cases ht

/-- The calls that are neither a tick nor an admin tip of this room. -/
def Input.Plain (room : RoomId) : Input → Prop
  | .onTick => False
  | .onMessage msgRoom (.adminTip _) => msgRoom ≠ room
  | _ => True

theorem step_plain (e : SyncEngine env sealing room) {input : Input} (h : input.Plain room) :
    Settles e (e.step input) := by
  have hself := e.kept_self
  have hother : ∀ {msgRoom : RoomId} (msg : SyncMessage), msgRoom ≠ room → Settles e (e.onMessage msgRoom msg) := by
    intro msgRoom msg hroom
    unfold onMessage
    rw [if_pos hroom]
    exact settles_of_kept hself
  cases input with
  | ingestFrame f => exact settles_of_kept (hself.deliverFrame f).finalizeDelivery
  | publish f =>
    unfold step
    dsimp only
    split
    · rename_i e' hok
      obtain ⟨v, -, rfl⟩ := publish_ok hok
      exact settles_of_kept (hself.deliver v).finalizeDelivery
    · exact settles_of_kept hself
  | onConnect peer =>
    have hadded := kept_self ({ e with peers := e.peers.add peer } : SyncEngine env sealing room)
    have hrest := settles_of_kept hadded.retryRestoredPark
    exact ⟨hrest.config, hrest.suspect, hrest.guarded⟩
  | onDisconnect peer => exact ⟨rfl, Or.inl rfl, id⟩
  | onMessage msgRoom msg =>
    by_cases hroom : msgRoom ≠ room
    · exact hother msg hroom
    · unfold step onMessage
      dsimp only
      rw [if_neg hroom]
      cases msg with
      | adminTip tip => exact absurd h hroom
      | events frames => exact settles_of_kept (Kept.foldl (fun f hf => hf.deliverFrame f) frames hself).finalizeDelivery
      | terminalEvents frames =>
        exact settles_of_kept (Kept.foldl (fun f hf => hf.deliverFrame f) frames hself).finalizeDelivery
      | keyHistory chunks =>
        obtain ⟨ring, hadopted⟩ := e.adoptKeyHistory_eq chunks
        dsimp only
        rw [hadopted]
        have hring := settles_of_kept (e.withRing ring).kept_self.finalizeDelivery
        exact ⟨hring.config, hring.suspect, hring.guarded⟩
      | other => exact settles_of_kept hself.finalizeDelivery
  | onTick => exact absurd h id
  | insertRoomKey epoch key => exact ⟨rfl, Or.inl rfl, id⟩

theorem recomputeCompleteness_settles (e : SyncEngine env sealing room) : Settles e e.recomputeCompleteness :=
  settles_of_kept e.kept_self.recomputeCompleteness

/-- After a recomputation nobody is denied without a tip being chased. -/
theorem recomputeCompleteness_guarded (e : SyncEngine env sealing room) : e.recomputeCompleteness.Guarded := by
  intro hnone
  unfold recomputeCompleteness at hnone ⊢
  dsimp only at hnone ⊢
  split_ifs at hnone ⊢ with hbehind
  · rw [stillBehind, hnone] at hbehind
    cases hbehind
  · rfl

theorem handleAdminTip_guarded (e : SyncEngine env sealing room) (tip : Option (EventId × Nat)) :
    (e.handleAdminTip tip).Guarded := recomputeCompleteness_guarded _

theorem handleAdminTip_config (e : SyncEngine env sealing room) (tip : Option (EventId × Nat)) :
    (e.handleAdminTip tip).config = e.config := by
  unfold handleAdminTip
  rw [(recomputeCompleteness_settles _).config]
  split
  · unfold armSuspectTip
    dsimp only
    split_ifs <;> rfl
  · rfl

/-- A suspicion after an admin tip is the one before it, or the tip's own with a full budget. -/
theorem handleAdminTip_some {e : SyncEngine env sealing room} {tip : Option (EventId × Nat)} {t : SuspectTip}
    (h : (e.handleAdminTip tip).suspectTip = some t) :
    e.suspectTip = some t ∨ tip = some (t.id, t.seq) ∧ e.isAhead t.id t.seq = true ∧
      t.attempts = e.config.maxUnconfirmedTipAttempts ∧
      ∀ old, e.suspectTip = some old → ¬ (old.id = t.id ∧ old.seq = t.seq) := by
  unfold handleAdminTip at h
  have harmed := (recomputeCompleteness_settles _).some h
  cases tip with
  | none => exact Or.inl harmed
  | some p =>
    dsimp only at harmed
    split_ifs at harmed with hahead
    · unfold armSuspectTip at harmed
      dsimp only at harmed
      split_ifs at harmed with hfresh
      · obtain rfl := Option.some.inj harmed
        refine Or.inr ⟨rfl, hahead, rfl, ?_⟩
        intro old hold hsame
        simp [hold, hsame.1, hsame.2] at hfresh
      · exact Or.inl harmed
    · exact Or.inl harmed

theorem expireSuspectTip_settles (e : SyncEngine env sealing room) :
    e.expireSuspectTip.config = e.config ∧ (e.Guarded → e.expireSuspectTip.Guarded) ∧
    ∀ t, e.expireSuspectTip.suspectTip = some t →
      ∃ old, e.suspectTip = some old ∧ old = { t with attempts := t.attempts + 1 } := by
  unfold expireSuspectTip
  split
  · rename_i hnone
    exact ⟨rfl, id, fun t ht => by rw [hnone] at ht; cases ht⟩
  · rename_i old hold
    split_ifs with hspent
    · refine ⟨rfl, fun _ => recomputeCompleteness_guarded _, ?_⟩
      intro t ht
      have hdropped := (recomputeCompleteness_settles _).some ht
      cases hdropped
    · refine ⟨rfl, fun _ hnone => absurd hnone (Option.some_ne_none _), ?_⟩
      intro t ht
      obtain rfl := Option.some.inj ht
      refine ⟨old, hold, ?_⟩
      have hback : old.attempts - 1 + 1 = old.attempts := by omega
      dsimp only
      rw [hback]

/-- A tick takes one from the budget, or leaves no suspicion. -/
theorem onTick_some {e : SyncEngine env sealing room} {t : SuspectTip} (h : e.onTick.suspectTip = some t) :
    e.suspectTip = some { t with attempts := t.attempts + 1 } := by
  have hrest := settles_of_kept
    (e.refillTokens.expireSuspectTip.kept_self.retryStore.retryPark.retryRestoredPark)
  obtain ⟨old, hold, rfl⟩ := e.refillTokens.expireSuspectTip_settles.2.2 t (hrest.some h)
  exact hold

theorem onTick_settles (e : SyncEngine env sealing room) :
    e.onTick.config = e.config ∧ (e.Guarded → e.onTick.Guarded) := by
  have hrest := settles_of_kept
    (e.refillTokens.expireSuspectTip.kept_self.retryStore.retryPark.retryRestoredPark)
  obtain ⟨hconfig, hguarded, -⟩ := e.refillTokens.expireSuspectTip_settles
  exact ⟨hrest.config.trans hconfig, fun hg => hrest.guarded (hguarded hg)⟩

/-- What a call does to the suspicion. -/
theorem step_some {e : SyncEngine env sealing room} {input : Input} {t : SuspectTip}
    (h : (e.step input).suspectTip = some t) :
    (input ≠ .onTick ∧ e.suspectTip = some t) ∨
    (input = .onTick ∧ e.suspectTip = some { t with attempts := t.attempts + 1 }) ∨
    (input = .onMessage room (.adminTip (some (t.id, t.seq))) ∧ e.isAhead t.id t.seq = true ∧
      t.attempts = e.config.maxUnconfirmedTipAttempts ∧
      ∀ old, e.suspectTip = some old → ¬ (old.id = t.id ∧ old.seq = t.seq)) := by
  by_cases htick : input = .onTick
  · subst htick
    exact Or.inr (Or.inl ⟨rfl, onTick_some h⟩)
  · by_cases hplain : input.Plain room
    · exact Or.inl ⟨htick, (e.step_plain hplain).some h⟩
    · obtain ⟨tip, rfl⟩ : ∃ tip, input = .onMessage room (.adminTip tip) := by
        unfold Input.Plain at hplain
        split at hplain
        · exact absurd rfl htick
        · rename_i msgRoom tip
          exact ⟨tip, by rw [not_not.mp hplain]⟩
        · exact absurd trivial hplain
      unfold step onMessage at h
      dsimp only at h
      rw [if_neg (not_not.mpr rfl)] at h
      have hhandled := (settles_of_kept (e.handleAdminTip tip).kept_self.finalizeDelivery).some h
      rcases handleAdminTip_some hhandled with hkept | ⟨htip, harmed⟩
      · exact Or.inl ⟨htick, hkept⟩
      · exact Or.inr (Or.inr ⟨by rw [htip], harmed⟩)

/-- The configuration stays, and the guard holds again after every call. -/
theorem step_guarded (e : SyncEngine env sealing room) (input : Input) :
    (e.step input).config = e.config ∧ (e.Guarded → (e.step input).Guarded) := by
  by_cases hplain : input.Plain room
  · exact ⟨(e.step_plain hplain).config, (e.step_plain hplain).guarded⟩
  · unfold Input.Plain at hplain
    split at hplain
    · exact e.onTick_settles
    · rename_i msgRoom tip
      obtain rfl := not_not.mp hplain
      unfold step onMessage
      dsimp only
      rw [if_neg (not_not.mpr rfl)]
      have hrest := settles_of_kept (e.handleAdminTip tip).kept_self.finalizeDelivery
      exact ⟨hrest.config.trans (e.handleAdminTip_config tip), fun _ => hrest.guarded (e.handleAdminTip_guarded tip)⟩
    · exact absurd trivial hplain

/-! ### A run -/

/-- One for a tick after which somebody is denied. -/
def closedTick (next : SyncEngine env sealing room) : Input → Nat
  | .onTick => if next.failClosedSubjects ≠ [] then 1 else 0
  | _ => 0

/-- The number of ticks after which somebody is denied. -/
def closedTicks (e : SyncEngine env sealing room) : List Input → Nat
  | [] => 0
  | input :: inputs => (e.step input).closedTick input + (e.step input).closedTicks inputs

/-- Every admin tip received that is ahead of the local chain is this one. -/
def OnlyTip (tip : EventId × Nat) (e : SyncEngine env sealing room) : List Input → Prop
  | [] => True
  | input :: inputs =>
    (∀ t, input = .onMessage room (.adminTip (some t)) → e.isAhead t.1 t.2 = true → t = tip) ∧
      (e.step input).OnlyTip tip inputs

/-- Once a tip has been chased, no tip ahead of the local chain is received while none is being chased. -/
def NeverRearmed (chased : Bool) (e : SyncEngine env sealing room) : List Input → Prop
  | [] => True
  | input :: inputs =>
    (chased = true → e.suspectTip = none →
      ∀ t, input = .onMessage room (.adminTip (some t)) → e.isAhead t.1 t.2 = false) ∧
    (e.step input).NeverRearmed (chased || (e.step input).suspectTip.isSome) inputs

/-- The ticks that the suspicion can still last. -/
def remaining (chased : Bool) (e : SyncEngine env sealing room) : Nat :=
  match e.suspectTip with
  | some t => t.attempts
  | none => if chased then 0 else e.config.maxUnconfirmedTipAttempts

theorem closedTick_le (next : SyncEngine env sealing room) (input : Input) : next.closedTick input ≤ 1 := by
  unfold closedTick
  split
  · split_ifs <;> omega
  · omega

theorem closedTick_of_ne {next : SyncEngine env sealing room} {input : Input} (h : input ≠ .onTick) :
    next.closedTick input = 0 := by
  unfold closedTick
  split
  · exact absurd rfl h
  · rfl

theorem closedTick_of_guarded {next : SyncEngine env sealing room} (h : next.Guarded) (hnone : next.suspectTip = none)
    (input : Input) : next.closedTick input = 0 := by
  unfold closedTick failClosedSubjects
  split
  · rw [h hnone]
    rfl
  · rfl

/-- The invariant of a run: what is being chased is the one tip. -/
def Chases (tip : EventId × Nat) (chased : Bool) (e : SyncEngine env sealing room) : Prop :=
  ∀ t, e.suspectTip = some t → (t.id, t.seq) = tip ∧ chased = true

/-- One call, paid from the budget. -/
theorem closedTick_add_remaining {tip : EventId × Nat} {chased : Bool} {e : SyncEngine env sealing room}
    {input : Input} (hguarded : (e.step input).Guarded) (hchases : e.Chases tip chased)
    (honly : ∀ t, input = .onMessage room (.adminTip (some t)) → e.isAhead t.1 t.2 = true → t = tip)
    (hrearm : chased = true → e.suspectTip = none →
      ∀ t, input = .onMessage room (.adminTip (some t)) → e.isAhead t.1 t.2 = false) :
    (e.step input).Chases tip (chased || (e.step input).suspectTip.isSome) ∧
    (e.step input).closedTick input + (e.step input).remaining (chased || (e.step input).suspectTip.isSome) ≤
      e.remaining chased := by
  cases hnext : (e.step input).suspectTip with
  | none =>
    constructor
    · intro t ht
      rw [hnext] at ht
      cases ht
    · rw [closedTick_of_guarded hguarded hnext, remaining, hnext, remaining, (e.step_guarded input).1]
      cases hold : e.suspectTip with
      | none => simp
      | some old => simp [(hchases old hold).2]
  | some t =>
    unfold Chases remaining
    rw [hnext]
    simp only [Option.some.injEq, forall_eq', Option.isSome_some, Bool.or_true, and_true]
    rcases step_some hnext with ⟨hne, hsame⟩ | ⟨-, hspent⟩ | ⟨hinput, hahead, hfull, hfresh⟩
    · rw [closedTick_of_ne hne, hsame]
      exact ⟨(hchases t hsame).1, by dsimp only; omega⟩
    · have hle := (e.step input).closedTick_le input
      rw [hspent]
      exact ⟨(hchases _ hspent).1, by dsimp only; omega⟩
    · -- armed afresh: nothing was being chased, and nothing had been
      have htip := honly _ hinput hahead
      have hidle : e.suspectTip = none := by
        cases hold : e.suspectTip with
        | none => rfl
        | some old =>
          have hsame := (hchases old hold).1.trans htip.symm
          exact absurd (Prod.mk.injEq _ _ _ _ ▸ hsame) (hfresh old hold)
      have hnever : chased = false := by
        by_contra hchased
        rw [hrearm (by simpa using hchased) hidle _ hinput] at hahead
        cases hahead
      have hcost : (e.step input).closedTick input = 0 := closedTick_of_ne (by rw [hinput]; exact Input.noConfusion)
      rw [hcost, hidle, hnever, hfull]
      exact ⟨htip, by simp⟩

theorem closedTicks_le_remaining {tip : EventId × Nat} {chased : Bool} {e : SyncEngine env sealing room}
    {inputs : List Input} (hguarded : e.Guarded) (hchases : e.Chases tip chased) (honly : e.OnlyTip tip inputs)
    (hrearm : e.NeverRearmed chased inputs) : e.closedTicks inputs ≤ e.remaining chased := by
  induction inputs generalizing e chased with
  | nil => exact Nat.zero_le _
  | cons input inputs ih =>
    have hguarded' := (e.step_guarded input).2 hguarded
    obtain ⟨hchases', hpaid⟩ := closedTick_add_remaining hguarded' hchases honly.1 hrearm.1
    have hlater := ih hguarded' hchases' honly.2 hrearm.2
    rw [closedTicks]
    omega

end SyncEngine

/-- In every reachable state somebody is denied only while a tip is being chased. -/
theorem Reachable.guarded {occurs : EventId → SignedEvent → Prop} {e : SyncEngine env sealing room}
    (h : Reachable occurs e) : e.Guarded := by
  induction h with
  | opened _ hopen =>
    rw [SyncEngine.openEngine_ok hopen]
    exact SyncEngine.recomputeCompleteness_guarded _
  | reopened _ _ hopen =>
    rw [SyncEngine.openEngine_ok hopen]
    exact SyncEngine.recomputeCompleteness_guarded _
  | step _ input _ ih => exact (SyncEngine.step_guarded _ input).2 ih

/-- A tip that is not taken up again once it was dropped denies for no more ticks than its budget. -/
theorem closedTicks_le {occurs : EventId → SignedEvent → Prop} {e : SyncEngine env sealing room}
    (hreach : Reachable occurs e) {tip : EventId × Nat}
    (hstart : ∀ t, e.suspectTip = some t →
      (t.id, t.seq) = tip ∧ t.attempts ≤ e.config.maxUnconfirmedTipAttempts)
    {inputs : List SyncEngine.Input} (honly : e.OnlyTip tip inputs)
    (hrearm : e.NeverRearmed e.suspectTip.isSome inputs) :
    e.closedTicks inputs ≤ e.config.maxUnconfirmedTipAttempts + 1 := by
  have hchases : e.Chases tip e.suspectTip.isSome := by
    intro t ht
    rw [ht]
    exact ⟨(hstart t ht).1, rfl⟩
  have hle := SyncEngine.closedTicks_le_remaining hreach.guarded hchases honly hrearm
  have hbudget : e.remaining e.suspectTip.isSome ≤ e.config.maxUnconfirmedTipAttempts := by
    unfold SyncEngine.remaining
    cases hold : e.suspectTip with
    | none => simp
    | some t => exact (hstart t hold).2
  omega

end

/-! ### The worked room -/

namespace Toy

/-- An admin tip that nobody holds. -/
def madeUpTip : SyncEngine.Input := .onMessage room (.adminTip (some (Bytes32.ofNat 9, 5)))

/-- The tip, and the ticks until it is dropped. -/
def round : List SyncEngine.Input := madeUpTip :: List.replicate 17 .onTick

theorem onlyTip_of_mem {tip : EventId × Nat} {inputs : List SyncEngine.Input} {e : SyncEngine toyEnv sealing room}
    (h : ∀ t, .onMessage room (.adminTip (some t)) ∈ inputs → t = tip) : e.OnlyTip tip inputs := by
  induction inputs generalizing e with
  | nil => trivial
  | cons input inputs ih =>
    refine ⟨?_, ih fun t ht => h t (List.mem_cons_of_mem _ ht)⟩
    intro t ht _
    exact h t (ht ▸ List.mem_cons_self)

/-- After the tip was dropped, ticks alone arm nothing. -/
theorem neverRearmed_ticks (n : Nat) (chased : Bool) (e : SyncEngine toyEnv sealing room) :
    e.NeverRearmed chased (List.replicate n .onTick) := by
  induction n generalizing chased e with
  | zero => trivial
  | succ n ih => exact ⟨fun _ _ _ ht => (by cases ht), ih _ _⟩

end Toy

/-- One round on a room with a member to deny. -/
theorem closedTicks_le_round : (Toy.run Toy.memberRoom).closedTicks Toy.round ≤ 17 := by
  have hreach : Reachable (fun _ _ => True) (Toy.run Toy.memberRoom) := Toy.reachable_run fun _ _ => trivial
  obtain ⟨hidle, hmax⟩ : (Toy.run Toy.memberRoom).suspectTip = none ∧
      (Toy.run Toy.memberRoom).config.maxUnconfirmedTipAttempts = 16 := by decide +kernel
  have honly : (Toy.run Toy.memberRoom).OnlyTip (Bytes32.ofNat 9, 5) Toy.round :=
    Toy.onlyTip_of_mem (by simp [Toy.round, Toy.madeUpTip])
  have hrearm : (Toy.run Toy.memberRoom).NeverRearmed false Toy.round :=
    ⟨fun h => (by cases h), Toy.neverRearmed_ticks 17 _ _⟩
  have hle := closedTicks_le hreach (by simp [hidle]) honly (by rw [hidle]; exact hrearm)
  rwa [hmax] at hle

/-- The tip repeated after it was dropped denies for another round. -/
theorem closedTicks_two_rounds :
    Reachable (fun _ _ => True) (Toy.run Toy.memberRoom) ∧ (Toy.run Toy.memberRoom).suspectTip = none ∧
    (Toy.run Toy.memberRoom).OnlyTip (Bytes32.ofNat 9, 5) (Toy.round ++ Toy.round) ∧
    (∀ input ∈ Toy.round ++ Toy.round, input.frames = []) ∧
    ((Toy.round ++ Toy.round).foldl SyncEngine.step (Toy.run Toy.memberRoom)).store.adminChainTip =
      (Toy.run Toy.memberRoom).store.adminChainTip ∧
    (Toy.run Toy.memberRoom).config.maxUnconfirmedTipAttempts = 16 ∧
    (Toy.run Toy.memberRoom).closedTicks (Toy.round ++ Toy.round) = 32 := by
  refine ⟨Toy.reachable_run fun _ _ => trivial, by decide +kernel, ?_, by decide +kernel⟩
  exact Toy.onlyTip_of_mem (by simp [Toy.round, Toy.madeUpTip])

end IrohRooms
