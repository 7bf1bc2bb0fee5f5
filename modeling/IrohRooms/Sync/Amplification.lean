import IrohRooms.Store.Rebuild
import IrohRooms.Sync.Completeness
import IrohRooms.Sync.Journal

/-!
# Bounded backfill

The buckets of backfill tokens and the park are held in memory and in tables of the store. `Ledger` follows all four
through a journal. A process may end after any deed of a call; the next one finds the tables as they were left and
starts with them. In such a run no author is granted more tokens than a bucket holds and the ticks refilled, and the
park keeps its caps at every point (`backfill_bounded`).
-/

namespace IrohRooms

open Journal

variable {env : Env} {sealing : Sealing} {room : RoomId}

/-- What the table of the park keeps of a frame. -/
def Parked.row (p : Parked env room) : Parked env room := { p with depth := min p.depth u32Max }

/-- The buckets and the park, in memory and in the tables, with the tokens granted and the ticks so far. -/
structure Ledger (env : Env) (room : RoomId) where
  tokens : OrdMap IdentityKey Nat
  park : OrdMap EventId (Parked env room)
  savedTokens : OrdMap IdentityKey Nat
  savedPark : OrdMap EventId (Parked env room)
  granted : IdentityKey → Nat
  ticks : Nat

namespace Ledger

def empty : Ledger env room := ⟨.empty, .empty, .empty, .empty, fun _ => 0, 0⟩

def enter (l : Ledger env room) : Deed env room → Ledger env room
  | .ticked => { l with ticks := l.ticks + 1 }
  | .reopened => { l with tokens := l.savedTokens, park := l.savedPark }
  | .buckets tokens => { l with tokens := tokens }
  | .savedTokens => { l with savedTokens := l.tokens }
  | .granted author => { l with granted := fun a => if a = author then l.granted a + 1 else l.granted a }
  | .parked id p => { l with park := l.park.insert id p }
  | .savedParked id =>
    match l.park.get? id with
    | some p => { l with savedPark := l.savedPark.insert id p.row }
    | none => l
  | .unparked id => { l with park := l.park.erase id }
  | .deletedParked id => { l with savedPark := l.savedPark.erase id }
  | .wrote .. | .failed _ | .reported .. | .fannedOut .. | .queued .. | .dequeued _ | .degraded _ => l

/-- Where a journal leads that starts with nothing. -/
def after (past : List (Deed env room)) : Ledger env room := past.foldl enter empty

end Ledger

theorem Ledger.enter_of_aboutEvents {d : Deed env room} (h : d.aboutEvents = true) (l : Ledger env room) :
    l.enter d = l := by
  cases d <;> first | rfl | cases h

/-! ### The bounds -/

namespace SyncConfig

variable (config : SyncConfig)

/-- What is left in a bucket; one that was never opened is full. -/
def bucket (tokens : OrdMap IdentityKey Nat) (author : IdentityKey) : Nat :=
  (tokens.get? author).getD config.backfillTokensPerAuthor

theorem parkCaps_pos {config : SyncConfig} (h : config.validate = none) :
    0 < config.maxParkedTotal ∧ 0 < config.maxParkedPerAuthor := by
  unfold validate at h
  split_ifs at h
  omega

/-- The caps of the park, on the authors of its frames. -/
def Within (authors : OrdMap EventId IdentityKey) : Prop :=
  authors.entries.length ≤ config.maxParkedTotal ∧ ∀ a, authors.values.count a ≤ config.maxParkedPerAuthor

variable {config} {authors : OrdMap EventId IdentityKey}

theorem Within.erase (h : config.Within authors) (id : EventId) : config.Within (authors.erase id) := by
  refine ⟨(List.length_filter_le _ _).trans h.1, fun a => ?_⟩
  exact ((authors.values_erase_sublist id).count_le a).trans (h.2 a)

theorem Within.insert (h : config.Within authors) {id : EventId} {author : IdentityKey}
    (htotal : authors.entries.length < config.maxParkedTotal)
    (hauthor : authors.values.count author < config.maxParkedPerAuthor) :
    config.Within (authors.insert id author) := by
  refine ⟨(authors.length_insert_le id author).trans htotal, fun a => ?_⟩
  have hcount := authors.count_values_insert_le id author a
  split_ifs at hcount with ha
  · rw [ha] at hauthor
    omega
  · exact hcount.trans (h.2 a)

end SyncConfig

/-- The tokens granted so far and those left in any bucket are within the budget, and so are both parks. -/
structure Budgeted (config : SyncConfig) (l : Ledger env room) : Prop where
  tokens : ∀ a, l.granted a + config.bucket l.tokens a ≤
    config.backfillTokensPerAuthor + l.ticks * config.backfillRefillPerTick
  savedTokens : ∀ a, l.granted a + config.bucket l.savedTokens a ≤
    config.backfillTokensPerAuthor + l.ticks * config.backfillRefillPerTick
  park : config.Within (l.park.mapValues Parked.author)
  savedPark : config.Within (l.savedPark.mapValues Parked.author)

/-- The ledger has the engine's buckets and park, and the table of the park is up to date. -/
structure Accounted (config : SyncConfig) (l : Ledger env room) (e : SyncEngine env sealing room) : Prop
    extends Budgeted config l where
  config : e.config = config
  tokensNow : l.tokens = e.tokens
  parkNow : l.park = e.park
  rows : l.savedPark.mapValues Parked.author = e.park.mapValues Parked.author

variable {config : SyncConfig} {l : Ledger env room} {e f : SyncEngine env sealing room}

namespace Accounted

theorem congr (h : Accounted config l e) (hconfig : f.config = e.config) (htokens : f.tokens = e.tokens)
    (hpark : f.park = e.park) : Accounted config l f := by
  refine ⟨h.toBudgeted, hconfig.trans h.config, h.tokensNow.trans htokens.symm, h.parkNow.trans hpark.symm, ?_⟩
  rw [hpark]
  exact h.rows

theorem leads_plain (h : Accounted config l e) {es : List (Deed env room)} (hes : ∀ d ∈ es, d.aboutEvents = true) :
    Leads Ledger.enter (Accounted config) (Budgeted config) l es e := by
  induction es with
  | nil => exact .nil h h.toBudgeted
  | cons d es ih =>
    refine .cons h.toBudgeted ?_
    rw [Ledger.enter_of_aboutEvents (hes d List.mem_cons_self)]
    exact ih fun d' hd' => hes d' (List.mem_cons_of_mem _ hd')

/-! ### Buckets -/

theorem bucket_refillTokens (h : Accounted config l e) (a : IdentityKey) :
    config.bucket e.refillTokens.tokens a ≤ config.bucket l.tokens a + config.backfillRefillPerTick := by
  unfold SyncConfig.bucket SyncEngine.refillTokens
  rw [OrdMap.get?_mapValues, h.config, h.tokensNow]
  cases e.tokens.get? a with
  | none => exact Nat.le_add_right _ _
  | some t => exact Nat.min_le_left _ _

theorem refill (h : Accounted config l e) :
    Leads Ledger.enter (Accounted config) (Budgeted config) l (.ticked :: e.refillDeeds) e.refillTokens := by
  have hbudget : ∀ a, l.granted a + config.bucket e.refillTokens.tokens a ≤
      config.backfillTokensPerAuthor + (l.ticks + 1) * config.backfillRefillPerTick := by
    intro a
    have htokens := h.tokens a
    have hrefill := h.bucket_refillTokens a
    rw [Nat.add_mul]
    omega
  have hsaved : ∀ a, l.granted a + config.bucket l.savedTokens a ≤
      config.backfillTokensPerAuthor + (l.ticks + 1) * config.backfillRefillPerTick := by
    intro a
    have htokens := h.savedTokens a
    rw [Nat.add_mul]
    omega
  have hticked : Budgeted config (l.enter .ticked) := by
    refine ⟨fun a => ?_, hsaved, h.park, h.savedPark⟩
    have htokens := h.tokens a
    show l.granted a + config.bucket l.tokens a ≤ _ + (l.ticks + 1) * _
    rw [Nat.add_mul]
    omega
  refine .cons h.toBudgeted (.cons hticked ?_)
  split_ifs
  · exact .nil ⟨⟨hbudget, hsaved, h.park, h.savedPark⟩, h.config, rfl, h.parkNow, h.rows⟩
      ⟨hbudget, hsaved, h.park, h.savedPark⟩
  · refine .cons ⟨hbudget, hsaved, h.park, h.savedPark⟩ (.nil ?_ ⟨hbudget, hbudget, h.park, h.savedPark⟩)
    exact ⟨⟨hbudget, hbudget, h.park, h.savedPark⟩, h.config, rfl, h.parkNow, h.rows⟩

/-- A token is out of the bucket, and out of its table, when it is granted. -/
theorem take (h : Accounted config l e) (author : IdentityKey) :
    Leads Ledger.enter (Accounted config) (Budgeted config) l (e.takeDeeds author)
      (e.takeBackfillToken author).1 := by
  obtain ⟨tokens, htokens⟩ : ∃ t, t = (e.takeBackfillToken author).1.tokens := ⟨_, rfl⟩
  have hbucket : ∀ a, config.bucket tokens a =
      if a = author then config.bucket l.tokens a - 1 else config.bucket l.tokens a := by
    intro a
    rw [htokens]
    unfold SyncConfig.bucket SyncEngine.takeBackfillToken
    dsimp only
    rw [OrdMap.get?_insert, h.config, h.tokensNow]
    split_ifs with ha
    · rw [ha]
      rfl
    · rfl
  have hspent : ∀ a, l.granted a + config.bucket tokens a ≤
      config.backfillTokensPerAuthor + l.ticks * config.backfillRefillPerTick := by
    intro a
    have hold := h.tokens a
    rw [hbucket a]
    split_ifs <;> omega
  have hafter : Accounted config (l.enter (.buckets tokens)) (e.takeBackfillToken author).1 :=
    ⟨⟨hspent, h.savedTokens, h.park, h.savedPark⟩, h.config, htokens, h.parkNow, h.rows⟩
  unfold SyncEngine.takeDeeds
  rw [← htokens]
  refine .cons h.toBudgeted ?_
  split_ifs with hleft
  · have hpositive : 0 < config.bucket l.tokens author := by
      have htaken : decide ((e.tokens.get? author).getD e.config.backfillTokensPerAuthor > 0) = true := hleft
      rw [h.config, ← h.tokensNow] at htaken
      exact of_decide_eq_true htaken
    have hgranted : ∀ a, (if a = author then l.granted a + 1 else l.granted a) + config.bucket tokens a ≤
        config.backfillTokensPerAuthor + l.ticks * config.backfillRefillPerTick := by
      intro a
      have hold := h.tokens a
      rw [hbucket a]
      split_ifs with ha
      · rw [ha] at hold ⊢
        omega
      · exact hold
    refine .cons hafter.toBudgeted (.cons ⟨hspent, hspent, h.park, h.savedPark⟩ (.nil ?_ ?_))
    · exact ⟨⟨hgranted, hgranted, h.park, h.savedPark⟩, h.config, htokens, h.parkNow, h.rows⟩
    · exact ⟨hgranted, hgranted, h.park, h.savedPark⟩
  · exact .nil hafter hafter.toBudgeted

/-! ### The park -/

theorem evict (h : Accounted config l e) (id : EventId) :
    Leads Ledger.enter (Accounted config) (Budgeted config) l (SyncEngine.evictDeeds id) (e.evictParked id) := by
  have herased : ∀ park : OrdMap EventId (Parked env room), config.Within (park.mapValues Parked.author) →
      config.Within ((park.erase id).mapValues Parked.author) := by
    intro park hpark
    rw [OrdMap.mapValues_erase]
    exact hpark.erase id
  have hboth : Budgeted config ((l.enter (.unparked id)).enter (.deletedParked id)) :=
    ⟨h.tokens, h.savedTokens, herased _ h.park, herased _ h.savedPark⟩
  refine .cons h.toBudgeted (.cons ⟨h.tokens, h.savedTokens, herased _ h.park, h.savedPark⟩ (.nil ?_ hboth))
  refine ⟨hboth, h.config, h.tokensNow, ?_, ?_⟩
  · show l.park.erase id = e.park.erase id
    rw [h.parkNow]
  · show (l.savedPark.erase id).mapValues Parked.author = (e.park.erase id).mapValues Parked.author
    rw [OrdMap.mapValues_erase, OrdMap.mapValues_erase, h.rows]

theorem enforceTotal (fuel : Nat) (h : Accounted config l e) :
    Leads Ledger.enter (Accounted config) (Budgeted config) l (SyncEngine.enforceTotalDeeds fuel e)
      (SyncEngine.enforceTotal fuel e) := by
  induction fuel generalizing l e with
  | zero => exact .nil h h.toBudgeted
  | succ fuel ih =>
    unfold SyncEngine.enforceTotalDeeds SyncEngine.enforceTotal
    split_ifs
    · cases e.oldestParked none with
      | none => exact .nil h h.toBudgeted
      | some id => exact (h.evict id).append ih
    · exact .nil h h.toBudgeted

theorem enforceAuthor (h : Accounted config l e) (author : IdentityKey) :
    Leads Ledger.enter (Accounted config) (Budgeted config) l (e.enforceAuthorDeeds author)
      (e.enforceAuthor author) := by
  unfold SyncEngine.enforceAuthorDeeds SyncEngine.enforceAuthor
  split_ifs
  · cases e.oldestParked (some author) with
    | none => exact .nil h h.toBudgeted
    | some id => exact h.evict id
  · exact .nil h h.toBudgeted

end Accounted

namespace SyncEngine

theorem oldestParked_eq_some {author : Option IdentityKey} {id : EventId} (h : e.oldestParked author = some id) :
    ∃ p, e.park.get? id = some p ∧ (author.all fun a => a == p.author) = true := by
  obtain ⟨key, hkey, rfl⟩ := Option.map_eq_some_iff.mp h
  obtain ⟨entry, hentry, rfl⟩ := List.mem_map.mp (List.min?_mem hkey)
  obtain ⟨hmem, hauthor⟩ := List.mem_filter.mp hentry
  exact ⟨entry.2, OrdMap.mem_entries.mp hmem, hauthor⟩

theorem oldestParked_eq_none {author : Option IdentityKey} (h : e.oldestParked author = none) :
    ∀ p ∈ e.park.values, (author.all fun a => a == p.author) = false := by
  intro p hp
  obtain ⟨id, hid⟩ := OrdMap.mem_values.mp hp
  by_contra hauthor
  have hmem : (id, p) ∈ e.park.entries.filter fun p => author.all (· == p.2.author) :=
    List.mem_filter.mpr ⟨OrdMap.mem_entries.mpr hid, by simpa using hauthor⟩
  have hempty := List.min?_eq_none_iff.mp (Option.map_eq_none_iff.mp h)
  rw [List.map_eq_nil_iff] at hempty
  rw [hempty] at hmem
  cases hmem

theorem count_authors (e : SyncEngine env sealing room) (author : IdentityKey) :
    (e.park.values.filter fun p => p.author == author).length =
      (e.park.mapValues Parked.author).values.count author := by
  rw [OrdMap.values_mapValues, List.count, List.countP_map, List.countP_eq_length_filter]
  rfl

/-- The park is below its cap once the oldest frames are gone. -/
theorem length_enforceTotal (fuel : Nat) (hfuel : e.park.entries.length < fuel) (hcap : 0 < e.config.maxParkedTotal) :
    (enforceTotal fuel e).park.entries.length < e.config.maxParkedTotal := by
  induction fuel generalizing e with
  | zero => omega
  | succ fuel ih =>
    unfold enforceTotal
    split_ifs with hfull
    · cases hold : e.oldestParked none with
      | none =>
        have hempty : e.park.values = [] := List.eq_nil_iff_forall_not_mem.mpr fun p hp => by
          have hall := oldestParked_eq_none hold p hp
          cases hall
        have hlength : e.park.values.length = e.park.entries.length := List.length_map _
        rw [hempty, List.length_nil] at hlength
        dsimp only
        omega
      | some id =>
        obtain ⟨p, hp, -⟩ := oldestParked_eq_some hold
        have hlt := OrdMap.length_erase_lt (m := e.park) (k := id) (by rw [OrdMap.contains, hp]; rfl)
        exact ih (e := e.evictParked id) (by show (e.park.erase id).entries.length < fuel; omega) hcap
    · omega

theorem length_enforceAuthor_le (author : IdentityKey) :
    (e.enforceAuthor author).park.entries.length ≤ e.park.entries.length := by
  unfold enforceAuthor
  split_ifs
  · cases e.oldestParked (some author) with
    | none => exact Nat.le_refl _
    | some id => exact List.length_filter_le _ _
  · exact Nat.le_refl _

/-- One frame of an author at its cap makes room for another. -/
theorem count_enforceAuthor (author : IdentityKey) (hcap : 0 < e.config.maxParkedPerAuthor)
    (hcount : (e.park.mapValues Parked.author).values.count author ≤ e.config.maxParkedPerAuthor) :
    ((e.enforceAuthor author).park.mapValues Parked.author).values.count author < e.config.maxParkedPerAuthor := by
  unfold enforceAuthor
  split_ifs with hfull
  · cases hold : e.oldestParked (some author) with
    | none =>
      have hnone : e.park.values.filter (fun p => p.author == author) = [] := by
        refine List.filter_eq_nil_iff.mpr fun p hp => ?_
        have hother : (author == p.author) = false := oldestParked_eq_none hold p hp
        intro hsame
        rw [eq_of_beq hsame, beq_self_eq_true] at hother
        cases hother
      rw [hnone, List.length_nil] at hfull
      omega
    | some id =>
      obtain ⟨p, hp, hauthor⟩ := oldestParked_eq_some hold
      have hget : (e.park.mapValues Parked.author).get? id = some author := by
        rw [OrdMap.get?_mapValues, hp]
        exact congrArg some (eq_of_beq hauthor).symm
      have hlt := OrdMap.count_values_erase_lt hget
      show ((e.park.erase id).mapValues Parked.author).values.count author < _
      rw [OrdMap.mapValues_erase]
      omega
  · rw [count_authors] at hfull
    omega

end SyncEngine

namespace Accounted

/-- With room for it, a frame is parked and its row written. -/
theorem insert (h : Accounted config l e) {id : EventId} {p : Parked env room} (seq : Nat)
    (htotal : e.park.entries.length < config.maxParkedTotal)
    (hauthor : (e.park.mapValues Parked.author).values.count p.author < config.maxParkedPerAuthor) :
    Leads Ledger.enter (Accounted config) (Budgeted config) l [.parked id p, .savedParked id]
      ({ e with parkSeq := seq, park := e.park.insert id p } : SyncEngine env sealing room) := by
  have hpark : config.Within ((e.park.insert id p).mapValues Parked.author) := by
    rw [OrdMap.mapValues_insert]
    refine SyncConfig.Within.insert (h.parkNow ▸ h.park) ?_ hauthor
    show (e.park.entries.map _).length < _
    rwa [List.length_map]
  have hrows : (l.savedPark.insert id p.row).mapValues Parked.author =
      (e.park.insert id p).mapValues Parked.author := by
    rw [OrdMap.mapValues_insert, OrdMap.mapValues_insert, h.rows]
    rfl
  have hsaved : (l.enter (.parked id p)).enter (.savedParked id) =
      { l with park := l.park.insert id p, savedPark := l.savedPark.insert id p.row } := by
    show (match (l.park.insert id p).get? id with
      | some p => ({ l with park := _, savedPark := l.savedPark.insert id p.row } : Ledger env room)
      | none => _) = _
    rw [OrdMap.get?_insert_self]
    rfl
  have hnow : l.park.insert id p = e.park.insert id p := by rw [h.parkNow]
  have hheld : config.Within ((l.park.insert id p).mapValues Parked.author) := by rwa [hnow]
  have hboth : Budgeted config ((l.enter (.parked id p)).enter (.savedParked id)) := by
    rw [hsaved]
    exact ⟨h.tokens, h.savedTokens, hheld, hrows ▸ hpark⟩
  refine .cons h.toBudgeted (.cons ⟨h.tokens, h.savedTokens, hheld, h.savedPark⟩ (.nil ?_ hboth))
  refine ⟨hboth, h.config, ?_, ?_, ?_⟩
  · rw [hsaved]
    exact h.tokensNow
  · rw [hsaved]
    exact hnow
  · rw [hsaved]
    exact hrows

theorem parkFrame (hvalid : config.validate = none) (h : Accounted config l e) (v : ValidatedEvent env room)
    (depth : Nat) (missing : List EventId) :
    Leads Ledger.enter (Accounted config) (Budgeted config) l (e.parkFrameDeeds v depth missing)
      (e.parkFrame v depth missing) := by
  unfold SyncEngine.parkFrameDeeds SyncEngine.parkFrame
  split_ifs
  · exact .nil h h.toBudgeted
  · obtain ⟨hcap, hauthorCap⟩ := SyncConfig.parkCaps_pos hvalid
    have htotal := h.enforceTotal (e.park.entries.length + 1)
    have hkept := htotal.1
    refine (htotal.append fun hend => hend.enforceAuthor v.event.senderId).append fun hend => hend.insert _ ?_ ?_
    · have hbelow := SyncEngine.length_enforceTotal (e.park.entries.length + 1) (Nat.lt_succ_self _) (h.config ▸ hcap)
      rw [h.config] at hbelow
      exact lt_of_le_of_lt (SyncEngine.length_enforceAuthor_le v.event.senderId) hbelow
    · have hbelow := SyncEngine.count_enforceAuthor v.event.senderId (hkept.config ▸ hauthorCap)
        (hkept.config ▸ hkept.parkNow ▸ hkept.park.2 v.event.senderId)
      rwa [hkept.config] at hbelow

end Accounted

namespace Accounted

theorem aside (h : Accounted config l e) (hf : SyncEngine.Aside e f) {es : List (Deed env room)}
    (hes : ∀ d ∈ es, d.aboutEvents = true) : Leads Ledger.enter (Accounted config) (Budgeted config) l es f :=
  (h.congr hf.config hf.tokens hf.park).leads_plain hes

/-- Every move keeps the books. -/
theorem move (hvalid : config.validate = none) (h : Accounted config l e) {es : List (Deed env room)}
    (hmove : SyncEngine.Move e es f) : Leads Ledger.enter (Accounted config) (Budgeted config) l es f := by
  cases hmove with
  | silent hsilent =>
    exact h.aside ⟨hsilent.config, hsilent.tokens, hsilent.park⟩ fun _ hd => absurd hd List.not_mem_nil
  | refill => exact h.refill
  | take author => exact h.take author
  | evict id => exact h.evict id
  | park v depth missing => exact h.parkFrame hvalid v depth missing
  | flush origin => exact h.aside SyncEngine.flushStoreBatch_aside (SyncEngine.aboutEvents_flushDeeds origin)
  | store origin v => exact h.aside (SyncEngine.storeAndFanout_aside v) (SyncEngine.aboutEvents_storeDeeds origin v)
  | retry origins =>
    exact h.aside (SyncEngine.retryStoreLoop_aside _ e) (SyncEngine.aboutEvents_retryLoopDeeds origins _ e)

end Accounted

/-! ### Runs with restarts -/

/-- What a starting process finds besides the buckets and the park. -/
structure Found (env : Env) (room : RoomId) where
  localDeviceSeed : Option SigningKey
  store : EventStore env room
  suspectTip : Option SuspectTip
  roomKeys : OrdMap Nat (RoomKey × EventId)

/-- A call that returns, or one that the process ends in after some of its deeds, and the start of the next process. -/
inductive Life (env : Env) (room : RoomId)
  | call (c : Call)
  | crash (c : Call) (done : Nat) (found : Found env room)

namespace Session

/-- The engine over the tables as a journal leaves them. -/
def reopened (config : SyncConfig) (found : Found env room) (past : List (Deed env room)) : Session env sealing room :=
  ⟨.restore config found.localDeviceSeed found.store ⟨(Ledger.after past).savedPark, found.suspectTip,
    (Ledger.after past).savedTokens, found.roomKeys⟩, past ++ [.reopened]⟩

def live (s : Session env sealing room) : Life env room → Session env sealing room
  | .call c => s.call c
  | .crash c done found => reopened s.engine.config found (s.past ++ (s.engine.deeds s.past c).take done)

/-- The first process finds neither buckets nor parked frames. -/
def opened (config : SyncConfig) (found : Found env room) : Session env sealing room := reopened config found []

end Session

namespace Deed

/-- The tokens granted for an author. -/
def grants (author : IdentityKey) (past : List (Deed env room)) : Nat :=
  past.countP fun d =>
    match d with
    | .granted a => a == author
    | _ => false

/-- The calls of `on_tick`. -/
def ticks (past : List (Deed env room)) : Nat :=
  past.countP fun d =>
    match d with
    | .ticked => true
    | _ => false

end Deed

namespace Ledger

theorem after_append (past es : List (Deed env room)) : after (past ++ es) = es.foldl enter (after past) :=
  List.foldl_append ..

theorem after_counts (past : List (Deed env room)) (author : IdentityKey) :
    (after past).granted author = Deed.grants author past ∧ (after past).ticks = Deed.ticks past := by
  induction past using List.reverseRecOn with
  | nil => exact ⟨rfl, rfl⟩
  | append_singleton past d ih =>
    rw [after_append, Deed.grants, Deed.ticks, List.countP_append, List.countP_append, ← Deed.grants, ← Deed.ticks,
      ← ih.1, ← ih.2]
    cases d with
    | granted a =>
      by_cases ha : author = a
      · subst ha
        simp [enter]
      · have hother : (a == author) = false := beq_false_of_ne (Ne.symm ha)
        simp [enter, ha, hother]
    | savedParked id =>
      have hsame : ((after past).enter (.savedParked id)).granted = (after past).granted ∧
          ((after past).enter (.savedParked id)).ticks = (after past).ticks := by
        unfold enter
        dsimp only
        split <;> exact ⟨rfl, rfl⟩
      exact ⟨congrFun hsame.1 author, hsame.2⟩
    | _ => exact ⟨rfl, rfl⟩

end Ledger

/-- A process that starts has the books in order that the last one left. -/
theorem Budgeted.reopened {past : List (Deed env room)} (h : Budgeted config (Ledger.after past))
    (found : Found env room) : Accounted config (Ledger.after (past ++ [Deed.reopened]))
      (Session.reopened config found past : Session env sealing room).engine := by
  rw [Ledger.after_append]
  exact ⟨⟨h.savedTokens, h.savedTokens, h.savedPark, h.savedPark⟩, rfl, rfl, rfl, rfl⟩

namespace Session

/-- The books are in order, and were at every point. -/
structure InOrder (config : SyncConfig) (s : Session env sealing room) : Prop where
  now : Accounted config (Ledger.after s.past) s.engine
  ever : ∀ past, past <+: s.past → Budgeted config (Ledger.after past)

theorem InOrder.live (hvalid : config.validate = none) {s : Session env sealing room} (h : s.InOrder config)
    (life : Life env room) : (s.live life).InOrder config := by
  have hstory : ∀ c, Leads Ledger.enter (Accounted config) (Budgeted config) (Ledger.after s.past)
      (s.engine.deeds s.past c) (s.engine.step c.input) := fun c =>
    (SyncEngine.step_story s.past c).leads (fun _ _ ha => ha.toBudgeted) (fun _ _ _ _ ha hm => ha.move hvalid hm) h.now
  -- the points of the session, and those of the call
  have hever : ∀ (c : Call) (es past : List (Deed env room)), es <+: s.engine.deeds s.past c → past <+: s.past ++ es →
      Budgeted config (Ledger.after past) := by
    intro c es past hes hpast
    rcases List.prefix_or_prefix_of_prefix hpast (List.prefix_append s.past es) with hearly | ⟨rest, rfl⟩
    · exact h.ever past hearly
    · rw [Ledger.after_append]
      exact (hstory c).2 rest (((List.prefix_append_right_inj s.past).mp hpast).trans hes)
  cases life with
  | call c =>
    refine ⟨?_, fun past hpast => hever c _ past (List.prefix_refl _) hpast⟩
    show Accounted config (Ledger.after (s.past ++ s.engine.deeds s.past c)) (s.engine.step c.input)
    rw [Ledger.after_append]
    exact (hstory c).1
  | crash c done found =>
    obtain ⟨es, hes⟩ : ∃ es, es = s.past ++ (s.engine.deeds s.past c).take done := ⟨_, rfl⟩
    have hcrash : Budgeted config (Ledger.after es) :=
      hever c _ es (List.take_prefix done _) (hes ▸ List.prefix_refl _)
    have hnow : Accounted config (Ledger.after (es ++ [Deed.reopened]))
        (Session.reopened config found es : Session env sealing room).engine := hcrash.reopened found
    have hlive : s.live (.crash c done found) = Session.reopened config found es := by
      rw [hes, ← h.now.config]
      rfl
    rw [hlive]
    refine ⟨hnow, fun past hpast => ?_⟩
    rcases List.prefix_concat_iff.mp hpast with rfl | hearly
    · exact hnow.toBudgeted
    · exact hever c _ past (List.take_prefix done _) (hes ▸ hearly)

theorem opened_inOrder (config : SyncConfig) (found : Found env room) :
    (opened config found : Session env sealing room).InOrder config := by
  have hfull : ∀ a, config.bucket .empty a = config.backfillTokensPerAuthor := fun _ => rfl
  have hempty : Budgeted config (Ledger.after ([] : List (Deed env room))) := by
    refine ⟨fun a => ?_, fun a => ?_, ⟨Nat.zero_le _, fun a => Nat.zero_le _⟩, ⟨Nat.zero_le _, fun a => Nat.zero_le _⟩⟩
    · show 0 + config.bucket .empty a ≤ _
      rw [hfull]
      omega
    · show 0 + config.bucket .empty a ≤ _
      rw [hfull]
      omega
  have hnow : Accounted config (Ledger.after ([] ++ [Deed.reopened]))
      (Session.reopened config found [] : Session env sealing room).engine := hempty.reopened found
  refine ⟨hnow, fun past hpast => ?_⟩
  rcases List.prefix_concat_iff.mp hpast with rfl | hearly
  · exact hnow.toBudgeted
  · rw [List.prefix_nil.mp hearly]
    exact hempty

end Session

/-- Through any calls and any restarts, at every point: the tokens granted for an author are within one full bucket and
what the ticks so far refill, and the park is within its caps. Whenever a call has returned, the journal's park is the
engine's. -/
theorem backfill_bounded (hvalid : config.validate = none) (found : Found env room) (lives : List (Life env room)) :
    (∀ past, past <+: (lives.foldl Session.live (Session.opened config found : Session env sealing room)).past →
      (∀ a, Deed.grants a past ≤ config.backfillTokensPerAuthor + Deed.ticks past * config.backfillRefillPerTick) ∧
      (Ledger.after past).park.entries.length ≤ config.maxParkedTotal ∧
      ∀ a, ((Ledger.after past).park.values.filter fun p => p.author == a).length ≤ config.maxParkedPerAuthor) ∧
    (Ledger.after (lives.foldl Session.live (Session.opened config found : Session env sealing room)).past).park =
      (lives.foldl Session.live (Session.opened config found : Session env sealing room)).engine.park := by
  have horder := List.foldlRecOn lives Session.live (motive := fun s : Session env sealing room => s.InOrder config)
    (Session.opened_inOrder config found) fun s hs life _ => hs.live hvalid life
  refine ⟨fun past hpast => ?_, horder.now.parkNow⟩
  have hbudget := horder.ever past hpast
  refine ⟨fun a => ?_, ?_, fun a => ?_⟩
  · obtain ⟨hgrants, hticks⟩ := Ledger.after_counts past a
    have htokens := hbudget.tokens a
    rw [hgrants, hticks] at htokens
    omega
  · have htotal : ((Ledger.after past).park.entries.map _).length ≤ _ := hbudget.park.1
    rwa [List.length_map] at htotal
  · have hauthor := hbudget.park.2 a
    rwa [OrdMap.values_mapValues, List.count, List.countP_map, List.countP_eq_length_filter] at hauthor

namespace Toy

/-- One token an author, never refilled. -/
def thrifty : SyncConfig := { SyncConfig.standard with backfillTokensPerAuthor := 1, backfillRefillPerTick := 0 }

def foundRoom : Found toyEnv Toy.room := ⟨none, EventStore.insertAll (Toy.log memberRoom), none, .empty⟩

/-- Member 2 sends an orphan before and another one after a restart in the middle of a tick. -/
def twoLives : List (Life toyEnv Toy.room) :=
  [.call (.ingestFrame (device 2) (frame (4, message 2 "a" [9]))), .crash .onTick 2 foundRoom,
    .call (.ingestFrame (device 2) (frame (5, message 2 "b" [8])))]

def restartedSession : Session toyEnv Toy.sealing Toy.room :=
  twoLives.foldl Session.live (.opened thrifty foundRoom)

end Toy

/-- The second orphan is parked like the first, but no token is left for it. -/
theorem backfill_bounded_restarted :
    Deed.grants (Toy.identity 2) Toy.restartedSession.past = 1 ∧
      Toy.restartedSession.engine.park.entries.length = 2 := by
  obtain ⟨hgrants, hpark⟩ : 0 < Deed.grants (Toy.identity 2) Toy.restartedSession.past ∧
      Toy.restartedSession.engine.park.entries.length = 2 := by decide +kernel
  have hbound : Deed.grants (Toy.identity 2) Toy.restartedSession.past ≤ Toy.thrifty.backfillTokensPerAuthor +
      Deed.ticks Toy.restartedSession.past * Toy.thrifty.backfillRefillPerTick :=
    ((backfill_bounded (by decide) Toy.foundRoom Toy.twoLives).1 Toy.restartedSession.past (List.prefix_refl _)).1 _
  rw [show Toy.thrifty.backfillRefillPerTick = 0 from rfl, Nat.mul_zero] at hbound
  exact ⟨Nat.le_antisymm hbound hgrants, hpark⟩

end IrohRooms
