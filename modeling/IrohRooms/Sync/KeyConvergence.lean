import Mathlib.Data.List.Induction
import IrohRooms.Event.Build
import IrohRooms.Sync.EpochSlot

/-!
# Convergence of epoch keys

The key of an epoch is the one with the lowest event id among those a device could unwrap, whatever order they came
in, as long as conflicting distributions reach the same devices (`epoch_key_converges`). A distribution that comes
after one of a higher epoch is a replay and takes no part: which ones do is `taken`.
-/

namespace IrohRooms

namespace EpochSlot

open EpochKeyStore

def run (offers : List KeyOffer) : EpochSlot := offers.foldl adopt empty

/-- The keys offered, with the events that offered them. -/
def keyed (offers : List KeyOffer) : List (EventId × RoomKey) :=
  offers.filterMap fun o => o.key.map fun k => (o.eventId, k)

theorem mem_keyed {offers : List KeyOffer} {w : EventId × RoomKey} :
    w ∈ keyed offers ↔ ∃ o ∈ offers, o.eventId = w.1 ∧ o.key = some w.2 := by
  simp only [keyed, List.mem_filterMap, Option.map_eq_some_iff]
  constructor
  · intro ⟨o, ho, k, hk, hw⟩
    exact ⟨o, ho, by rw [← hw], by rw [← hw, hk]⟩
  · intro ⟨o, ho, hid, hk⟩
    exact ⟨o, ho, w.2, hk, by rw [hid]⟩

theorem run_append (offers : List KeyOffer) (o : KeyOffer) : run (offers ++ [o]) = (run offers).adopt o := by
  simp [run, List.foldl_append]

theorem tidy_run (offers : List KeyOffer) : (run offers).Tidy :=
  List.foldlRecOn (motive := Tidy) offers adopt (fun _ => rfl) fun _ hs o _ => (adopt_spec hs o).1

/-- The first commitment stays. -/
theorem commitment_run (o : KeyOffer) (offers : List KeyOffer) :
    (run (o :: offers)).commitment = some (o.eventId, o.commitment) := by
  have hstart : (empty.adopt o).commitment = some (o.eventId, o.commitment) := by
    rw [commitment_adopt]
    rfl
  refine List.foldlRecOn (motive := fun s : EpochSlot => s.commitment = some (o.eventId, o.commitment))
    offers adopt hstart ?_
  intro s hs o' _
  rw [commitment_adopt, hs]
  rfl

theorem conflicts_run (o o' : KeyOffer) (offers : List KeyOffer) :
    (run (o :: offers)).conflicts o' = true ↔ o.commitment ≠ o'.commitment := by
  unfold conflicts
  rw [commitment_run]
  simp

/-- The best key is an offered one of lowest event id. -/
theorem best_run (offers : List KeyOffer) :
    match (run offers).best with
    | none => keyed offers = []
    | some w => w ∈ keyed offers ∧ ∀ w' ∈ keyed offers, w.1 ≤ w'.1 := by
  induction offers using List.reverseRecOn with
  | nil => rfl
  | append_singleton offers o ih =>
    have hsplit : keyed (offers ++ [o]) = keyed offers ++ keyed [o] := List.filterMap_append
    rw [run_append, (adopt_spec (tidy_run offers) o).2.1, hsplit]
    cases hkey : o.key with
    | none => simpa [keyed, hkey] using ih
    | some k =>
      have hlast : keyed [o] = [(o.eventId, k)] := by simp [keyed, hkey]
      rw [hlast]
      dsimp only
      cases hbest : (run offers).best with
      | none =>
        rw [hbest] at ih
        simp [pick, ih]
      | some b =>
        rw [hbest] at ih
        obtain ⟨hmem, hleast⟩ := ih
        unfold pick
        dsimp only
        split_ifs with hlt
        · refine ⟨by simp, ?_⟩
          intro w hw
          rcases List.mem_append.mp hw with hw | hw
          · exact hlt.le.trans (hleast w hw)
          · rw [List.mem_singleton.mp hw]
        · refine ⟨List.mem_append_left _ hmem, ?_⟩
          intro w hw
          rcases List.mem_append.mp hw with hw | hw
          · exact hleast w hw
          · rw [List.mem_singleton.mp hw]
            exact not_lt.mp hlt

theorem best_run_mem {offers : List KeyOffer} {w : EventId × RoomKey} (h : (run offers).best = some w) :
    w ∈ keyed offers ∧ ∀ w' ∈ keyed offers, w.1 ≤ w'.1 := by
  have hbest := best_run offers
  rwa [h] at hbest

/-! ### Poisoning -/

theorem poisoned_run_append (offers : List KeyOffer) (o : KeyOffer) :
    (run (offers ++ [o])).state = some .poisoned ↔
      o.key = none ∧ ((run offers).conflicts o = true ∨ (run offers).state = some .poisoned) := by
  rw [run_append]
  exact (adopt_spec (tidy_run offers) o).2.2

theorem not_poisoned_of_keyed {offers : List KeyOffer} (h : ∀ o ∈ offers, o.key ≠ none) :
    (run offers).state ≠ some .poisoned := by
  induction offers using List.reverseRecOn with
  | nil => simp [run, empty]
  | append_singleton offers o =>
    rw [Ne, poisoned_run_append]
    intro ⟨hnone, _⟩
    exact h o (by simp) hnone

theorem not_poisoned_of_agree {offers : List KeyOffer}
    (h : ∀ o ∈ offers, ∀ o' ∈ offers, o.commitment = o'.commitment) : (run offers).state ≠ some .poisoned := by
  induction offers using List.reverseRecOn with
  | nil => simp [run, empty]
  | append_singleton offers o ih =>
    rw [Ne, poisoned_run_append]
    intro ⟨_, hbad⟩
    rcases hbad with hconflict | hpoisoned
    · cases offers with
      | nil => simp [run, conflicts, empty] at hconflict
      | cons first offers => exact (conflicts_run first o offers).mp hconflict (h first (by simp) o (by simp))
    · exact ih (fun a ha b hb => h a (by simp [ha]) b (by simp [hb])) hpoisoned

/-- Without any key, exactly a disagreement poisons. -/
theorem poisoned_of_keyless {offers : List KeyOffer} (h : ∀ o ∈ offers, o.key = none)
    {o o' : KeyOffer} (ho : o ∈ offers) (ho' : o' ∈ offers) (hne : o.commitment ≠ o'.commitment) :
    (run offers).state = some .poisoned := by
  cases offers with
  | nil => cases ho
  | cons first rest =>
    -- one of the two disagrees with the first offer
    obtain ⟨bad, hbad, hdiffers⟩ : ∃ bad ∈ first :: rest, first.commitment ≠ bad.commitment := by
      by_cases hfirst : first.commitment = o.commitment
      · exact ⟨o', ho', hfirst ▸ hne⟩
      · exact ⟨o, ho, hfirst⟩
    have hrest : bad ∈ rest := by
      rcases List.mem_cons.mp hbad with hsame | hmem
      · exact absurd (by rw [hsame]) hdiffers
      · exact hmem
    clear ho ho' hne hbad o o'
    induction rest using List.reverseRecOn with
    | nil => cases hrest
    | append_singleton rest o ih =>
      rw [← List.cons_append, poisoned_run_append]
      refine ⟨h o (by simp), ?_⟩
      rcases List.mem_append.mp hrest with hmem | hmem
      · exact Or.inr (ih (fun a ha => h a (by
          rw [← List.cons_append]
          exact List.mem_append_left _ ha)) hmem)
      · rw [List.mem_singleton.mp hmem] at hdiffers
        exact Or.inl ((conflicts_run first o rest).mpr hdiffers)

/-- The same offers of distinct events have one best key. -/
theorem best_run_perm {offers offers' : List KeyOffer} (hperm : offers.Perm offers')
    (hids : (offers.map KeyOffer.eventId).Nodup) : (run offers).best = (run offers').best := by
  have hkeyed : ∀ w, w ∈ keyed offers ↔ w ∈ keyed offers' := by
    intro w
    simp only [mem_keyed, hperm.mem_iff]
  have hone : ∀ {w w'}, w ∈ keyed offers → w' ∈ keyed offers → w.1 = w'.1 → w = w' := by
    intro w w' hw hw' hid
    obtain ⟨o, ho, hoid, hokey⟩ := mem_keyed.mp hw
    obtain ⟨o', ho', hoid', hokey'⟩ := mem_keyed.mp hw'
    have hsame : o = o' := List.inj_on_of_nodup_map hids ho ho' (by rw [hoid, hoid', hid])
    rw [hsame, hokey'] at hokey
    exact Prod.ext hid (Option.some.inj hokey).symm
  cases hbest : (run offers).best with
  | none =>
    have hnil := best_run offers
    rw [hbest] at hnil
    cases hbest' : (run offers').best with
    | none => rfl
    | some w' =>
      have hmem := (hkeyed w').mpr (best_run_mem hbest').1
      rw [hnil] at hmem
      cases hmem
  | some w =>
    obtain ⟨hmem, hleast⟩ := best_run_mem hbest
    cases hbest' : (run offers').best with
    | none =>
      have hnil := best_run offers'
      rw [hbest'] at hnil
      have hmem' := (hkeyed w).mp hmem
      rw [hnil] at hmem'
      cases hmem'
    | some w' =>
      obtain ⟨hmem', hleast'⟩ := best_run_mem hbest'
      have hback := (hkeyed w').mpr hmem'
      rw [hone hmem hback (le_antisymm (hleast w' hback) (hleast' w ((hkeyed w).mp hmem)))]

/-- Offers that agree on the commitment, or of which all or none could be unwrapped. -/
def Uniform (offers : List KeyOffer) : Prop :=
  (∀ o ∈ offers, ∀ o' ∈ offers, o.commitment = o'.commitment) ∨
    (∀ o ∈ offers, o.key ≠ none) ∨ ∀ o ∈ offers, o.key = none

/-- Whether a uniform list of offers poisons the epoch does not depend on the order. -/
theorem poisoned_run_perm {offers offers' : List KeyOffer} (hperm : offers.Perm offers') (h : Uniform offers) :
    (run offers).state = some .poisoned → (run offers').state = some .poisoned := by
  intro hpoisoned
  rcases h with hagree | hkeyed | hkeyless
  · exact absurd hpoisoned (not_poisoned_of_agree hagree)
  · exact absurd hpoisoned (not_poisoned_of_keyed hkeyed)
  · by_contra hfree
    -- an unpoisoned run without keys saw one commitment only
    apply not_poisoned_of_agree _ hpoisoned
    intro o ho o' ho'
    by_contra hne
    exact hfree (poisoned_of_keyless (fun a ha => hkeyless a (hperm.mem_iff.mpr ha)) (hperm.mem_iff.mp ho)
      (hperm.mem_iff.mp ho') hne)

theorem Uniform.perm {offers offers' : List KeyOffer} (hperm : offers.Perm offers') (h : Uniform offers) :
    Uniform offers' := by
  unfold Uniform at h ⊢
  simpa only [hperm.mem_iff] using h

theorem run_state_perm {offers offers' : List KeyOffer} (hperm : offers.Perm offers')
    (hids : (offers.map KeyOffer.eventId).Nodup) (h : Uniform offers) : (run offers).state = (run offers').state :=
  state_eq (best_run_perm hperm hids)
    ⟨poisoned_run_perm hperm h, poisoned_run_perm hperm.symm (h.perm hperm)⟩

end EpochSlot

namespace KeyRing

variable (env : Env) (sealing : Sealing) (room : RoomId) (seed : Option SigningKey)

/-- The ring of a device that saw the events in this order. -/
def run (ring : KeyRing) (events : List (EventId × Content)) : KeyRing :=
  events.foldl (fun ring p => ring.adoptKeyFromEvent env sealing room seed p.1 p.2) ring

/-- The distributions among the events. -/
def distributions (events : List (EventId × Content)) : List (EventId × MemberKeyDistribution) :=
  events.filterMap fun p => (distributionOf p.2).map fun d => (p.1, d)

/-- The distributions for an epoch that come before every distribution for a higher one. -/
def taken (epoch : Nat) (events : List (EventId × Content)) : List (EventId × MemberKeyDistribution) :=
  ((distributions events).takeWhile fun p => p.2.newEpoch ≤ epoch).filter fun p => p.2.newEpoch = epoch

theorem mem_taken {epoch : Nat} {events : List (EventId × Content)} {q : EventId × MemberKeyDistribution}
    (h : q ∈ taken epoch events) : q ∈ distributions events ∧ q.2.newEpoch = epoch := by
  obtain ⟨hmem, hepoch⟩ := List.mem_filter.mp h
  exact ⟨(List.takeWhile_sublist _).mem hmem, of_decide_eq_true hepoch⟩

theorem adoptKeyFromEvent_of_distribution {ring : KeyRing} {p : EventId × Content} {d : MemberKeyDistribution}
    (hd : distributionOf p.2 = some d) :
    ring.adoptKeyFromEvent env sealing room seed p.1 p.2 =
      ring.adoptKeyDistribution env sealing room seed p.1 d false := by
  rw [adoptKeyFromEvent, hd]

/-- Once a higher epoch was seen, an epoch no longer changes. -/
theorem slot_run_of_behind {events : List (EventId × Content)} {ring : KeyRing} {epoch : Nat}
    (h : epoch < ring.highestEpochSeen) : (ring.run env sealing room seed events).slot epoch = ring.slot epoch := by
  induction events generalizing ring with
  | nil => rfl
  | cons p events ih =>
    show ((ring.adoptKeyFromEvent env sealing room seed p.1 p.2).run env sealing room seed events).slot epoch = _
    cases hd : distributionOf p.2 with
    | none =>
      rw [adoptKeyFromEvent, hd]
      exact ih h
    | some d =>
      rw [adoptKeyFromEvent_of_distribution env sealing room seed hd]
      by_cases hlate : d.newEpoch < ring.highestEpochSeen
      · rw [adoptKeyDistribution_ignored env sealing room seed ring p.1 d hlate]
        exact ih h
      · have htaken : false = true ∨ ring.highestEpochSeen ≤ d.newEpoch := Or.inr (not_lt.mp hlate)
        rw [ih, slot_adopt_of_ne env sealing room seed ring p.1 d htaken (by omega)]
        rw [highestEpochSeen_adopt env sealing room seed ring p.1 d htaken]
        omega

/-- The slot of an epoch after a run is the run of what the distributions taken offer to it. -/
theorem slot_run {events : List (EventId × Content)} {ring : KeyRing} {epoch : Nat}
    (h : ring.highestEpochSeen ≤ epoch) : (ring.run env sealing room seed events).slot epoch =
      ((taken epoch events).map fun q => offer env sealing room seed q.1 q.2).foldl .adopt (ring.slot epoch) := by
  induction events generalizing ring with
  | nil => rfl
  | cons p events ih =>
    show ((ring.adoptKeyFromEvent env sealing room seed p.1 p.2).run env sealing room seed events).slot epoch = _
    cases hd : distributionOf p.2 with
    | none =>
      have hskip : taken epoch (p :: events) = taken epoch events := by simp [taken, distributions, hd]
      rw [adoptKeyFromEvent, hd, hskip]
      exact ih h
    | some d =>
      have hlist : distributions (p :: events) = (p.1, d) :: distributions events := by simp [distributions, hd]
      rw [adoptKeyFromEvent_of_distribution env sealing room seed hd, taken, hlist]
      by_cases hlate : d.newEpoch < ring.highestEpochSeen
      · have hlow : d.newEpoch ≤ epoch := by omega
        have hother : ¬ d.newEpoch = epoch := by omega
        rw [adoptKeyDistribution_ignored env sealing room seed ring p.1 d hlate, ih h, List.takeWhile_cons,
          if_pos (by simpa using hlow), List.filter_cons, if_neg (by simpa using hother)]
        rfl
      · have htaken : false = true ∨ ring.highestEpochSeen ≤ d.newEpoch := Or.inr (not_lt.mp hlate)
        have hhighest := highestEpochSeen_adopt env sealing room seed ring p.1 d htaken
        have hslot := slot_adoptKeyDistribution env sealing room seed ring p.1 d htaken epoch
        rw [max_eq_right (not_lt.mp hlate)] at hhighest
        rcases Nat.lt_trichotomy d.newEpoch epoch with hlt | heq | hgt
        · rw [if_neg (by omega)] at hslot
          rw [ih (by omega), hslot, List.takeWhile_cons, if_pos (by simpa using hlt.le), List.filter_cons,
            if_neg (by simpa using hlt.ne)]
          rfl
        · rw [if_pos heq.symm] at hslot
          rw [ih (by omega), hslot, List.takeWhile_cons, if_pos (by simpa using heq.le), List.filter_cons,
            if_pos (by simpa using heq)]
          rfl
        · rw [if_neg (by omega)] at hslot
          rw [slot_run_of_behind env sealing room seed (by omega), hslot, List.takeWhile_cons,
            if_neg (by simpa using hgt)]
          rfl

/-! ### Devices -/

/-- The device of the seed is among the recipients. -/
def Targets (d : MemberKeyDistribution) (device : SigningKey) : Prop :=
  ∃ entry ∈ d.wrappedKeys, entry.1 = env.deviceKey device

/-- Every recipient unwraps its entry to a key that matches the commitment. -/
def Opens (d : MemberKeyDistribution) : Prop :=
  ∀ entry ∈ d.wrappedKeys, ∀ device, entry.1 = env.deviceKey device →
    ∃ key, sealing.unwrapRoomKey entry.2 device room d.newEpoch = some key ∧
      sealing.roomKeyCommitment key room d.newEpoch = d.keyCommitment

variable {env sealing room seed}

theorem commitment_of_unwrapLocal {d : MemberKeyDistribution} {key : RoomKey}
    (h : unwrapLocal env sealing room seed d = some key) :
    sealing.roomKeyCommitment key room d.newEpoch = d.keyCommitment := by
  unfold unwrapLocal at h
  obtain ⟨device, -, h⟩ := Option.bind_eq_some_iff.mp h
  obtain ⟨entry, -, h⟩ := Option.bind_eq_some_iff.mp h
  simpa using (Option.filter_eq_some_iff.mp h).2

/-- The keys of a distribution that opens are unwrapped by exactly its recipients. -/
theorem unwrapLocal_isSome {d : MemberKeyDistribution} (hopens : Opens env sealing room d) (device : SigningKey) :
    unwrapLocal env sealing room (some device) d ≠ none ↔ Targets env d device := by
  unfold unwrapLocal
  rw [Option.bind_some]
  cases hfind : d.wrappedKeys.find? fun e => e.1 == env.deviceKey device with
  | none =>
    have hnot : ¬ Targets env d device := by
      intro ⟨entry, hmem, hdevice⟩
      exact List.find?_eq_none.mp hfind entry hmem (by simpa using hdevice)
    simp [hnot]
  | some entry =>
    have hdevice : entry.1 = env.deviceKey device := by simpa using List.find?_some hfind
    have hmem := List.mem_of_find?_eq_some hfind
    obtain ⟨key, hkey, hcommit⟩ := hopens entry hmem device hdevice
    have htargets : Targets env d device := ⟨entry, hmem, hdevice⟩
    simp [hkey, hcommit, htargets]

theorem nodup_taken {epoch : Nat} {events : List (EventId × Content)} (h : (events.map Prod.fst).Nodup) :
    ((taken epoch events).map Prod.fst).Nodup := by
  have hdist : ((distributions events).map Prod.fst).Sublist (events.map Prod.fst) := by
    induction events with
    | nil => exact List.Sublist.refl _
    | cons p events ih =>
      have htail := ih (List.nodup_cons.mp h).2
      cases hd : distributionOf p.2 with
      | none => simpa [distributions, hd] using htail.cons p.1
      | some d => simpa [distributions, hd] using htail.cons_cons p.1
  have htaken : (taken epoch events).Sublist (distributions events) :=
    List.filter_sublist.trans (List.takeWhile_sublist _)
  exact h.sublist ((htaken.map Prod.fst).trans hdist)

/-- Conflicting distributions reach the same devices. -/
def SameReach (env : Env) (qs : List (EventId × MemberKeyDistribution)) : Prop :=
  ∀ q ∈ qs, ∀ q' ∈ qs, q.2.newEpoch = q'.2.newEpoch → q.2.keyCommitment ≠ q'.2.keyCommitment →
    ∀ device, Targets env q.2 device ↔ Targets env q'.2 device

/-- Distributions for one epoch that disagree anywhere all reach the same devices. -/
theorem SameReach.all {qs : List (EventId × MemberKeyDistribution)} (h : SameReach env qs) {epoch : Nat}
    (hepoch : ∀ q ∈ qs, q.2.newEpoch = epoch)
    (hdisagree : ¬ ∀ q ∈ qs, ∀ q' ∈ qs, q.2.keyCommitment = q'.2.keyCommitment) :
    ∀ q ∈ qs, ∀ q' ∈ qs, ∀ device, Targets env q.2 device ↔ Targets env q'.2 device := by
  push Not at hdisagree
  obtain ⟨a, ha, b, hb, hab⟩ := hdisagree
  have hpair : ∀ q ∈ qs, ∀ q' ∈ qs, q.2.keyCommitment ≠ q'.2.keyCommitment →
      ∀ device, Targets env q.2 device ↔ Targets env q'.2 device :=
    fun q hq q' hq' hne => h q hq q' hq' ((hepoch q hq).trans (hepoch q' hq').symm) hne
  have hlike : ∀ q ∈ qs, ∀ device, Targets env q.2 device ↔ Targets env a.2 device := by
    intro q hq device
    by_cases hqa : q.2.keyCommitment = a.2.keyCommitment
    · rw [hpair q hq b hb (hqa ▸ hab), hpair a ha b hb hab]
    · exact hpair q hq a ha hqa device
  exact fun q hq q' hq' device => (hlike q hq device).trans (hlike q' hq' device).symm

/-- The slot of a fresh ring after a run. -/
theorem slot_new_run (env : Env) (sealing : Sealing) (room : RoomId) (seed : Option SigningKey)
    (events : List (EventId × Content)) (epoch : Nat) : (KeyRing.new.run env sealing room seed events).slot epoch =
      EpochSlot.run ((taken epoch events).map fun q => offer env sealing room seed q.1 q.2) :=
  slot_run env sealing room seed (Nat.zero_le epoch)

/-- On each device, distributions that open and reach alike make uniform offers. -/
theorem SameReach.uniform {qs : List (EventId × MemberKeyDistribution)} (h : SameReach env qs) {epoch : Nat}
    (hepoch : ∀ q ∈ qs, q.2.newEpoch = epoch) (hopens : ∀ q ∈ qs, Opens env sealing room q.2) :
    EpochSlot.Uniform (qs.map fun q => offer env sealing room seed q.1 q.2) := by
  unfold EpochSlot.Uniform
  simp only [List.forall_mem_map]
  by_cases hagree : ∀ q ∈ qs, ∀ q' ∈ qs, q.2.keyCommitment = q'.2.keyCommitment
  · exact Or.inl hagree
  · refine Or.inr ?_
    cases seed with
    | none => exact Or.inr fun q _ => rfl
    | some device =>
      have hall := h.all hepoch hagree
      by_cases hreached : ∃ q ∈ qs, Targets env q.2 device
      · obtain ⟨q, hq, hreached⟩ := hreached
        refine Or.inl fun q' hq' => ?_
        exact (unwrapLocal_isSome (hopens q' hq') device).mpr ((hall q hq q' hq' device).mp hreached)
      · refine Or.inr fun q hq => ?_
        by_contra hkey
        exact hreached ⟨q, hq, (unwrapLocal_isSome (hopens q hq) device).mp hkey⟩

/-- A held key comes from the distribution of lowest id among those taken that the device could unwrap. -/
theorem held_run {events : List (EventId × Content)} {epoch : Nat} {k : RoomKey}
    (h : (KeyRing.new.run env sealing room seed events).roomKeys.get epoch = some k) :
    ∃ q ∈ taken epoch events, unwrapLocal env sealing room seed q.2 = some k ∧
      ∀ q' ∈ taken epoch events, unwrapLocal env sealing room seed q'.2 ≠ none → q.1 ≤ q'.1 := by
  obtain ⟨source, hstate⟩ := get_eq_some_iff.mp h
  have hbest := EpochSlot.best_of_held hstate
  rw [slot_new_run] at hbest
  obtain ⟨hmem, hleast⟩ := EpochSlot.best_run_mem hbest
  obtain ⟨o, ho, hid, hkey⟩ := EpochSlot.mem_keyed.mp hmem
  obtain ⟨q, hq, rfl⟩ := List.mem_map.mp ho
  refine ⟨q, hq, hkey, ?_⟩
  intro q' hq' hsome
  obtain ⟨k', hk'⟩ := Option.ne_none_iff_exists'.mp hsome
  have hoffered : (q'.1, k') ∈ EpochSlot.keyed ((taken epoch events).map fun q => offer env sealing room seed q.1 q.2) :=
    EpochSlot.mem_keyed.mpr ⟨_, List.mem_map_of_mem hq', rfl, hk'⟩
  have hle := hleast _ hoffered
  rwa [← hid] at hle

/-- A key that opens is of a device that the distribution targets. -/
theorem targets_of_unwrapLocal {d : MemberKeyDistribution} {k : RoomKey}
    (h : unwrapLocal env sealing room seed d = some k) : ∃ device, seed = some device ∧ Targets env d device := by
  unfold unwrapLocal at h
  obtain ⟨device, hseed, h⟩ := Option.bind_eq_some_iff.mp h
  obtain ⟨entry, hfind, -⟩ := Option.bind_eq_some_iff.mp h
  exact ⟨device, hseed, entry, List.mem_of_find?_eq_some hfind, by simpa using List.find?_some hfind⟩

/-- Devices that took the same distributions for an epoch, in any orders, agree on it. -/
theorem epoch_key_converges
    (hbinding : ∀ epoch, Function.Injective fun k => sealing.roomKeyCommitment k room epoch)
    {σ τ : List (EventId × Content)} (hids : (σ.map Prod.fst).Nodup)
    (hopens : ∀ q ∈ distributions σ, Opens env sealing room q.2) {epoch : Nat}
    (htaken : (taken epoch σ).Perm (taken epoch τ)) (hreach : SameReach env (taken epoch σ)) :
    (∀ seed, (KeyRing.new.run env sealing room seed σ).roomKeys.epochs.get? epoch =
      (KeyRing.new.run env sealing room seed τ).roomKeys.epochs.get? epoch) ∧
    ∀ seed seed' k k', (KeyRing.new.run env sealing room seed σ).roomKeys.get epoch = some k →
      (KeyRing.new.run env sealing room seed' τ).roomKeys.get epoch = some k' → k = k' := by
  have hnodup : ((taken epoch σ).map Prod.fst).Nodup := nodup_taken hids
  have hepoch : ∀ q ∈ taken epoch σ, q.2.newEpoch = epoch := fun q hq => (mem_taken hq).2
  have hopens' : ∀ q ∈ taken epoch σ, Opens env sealing room q.2 := fun q hq => hopens q (mem_taken hq).1
  constructor
  · intro seed
    have hstate := EpochSlot.run_state_perm (htaken.map fun q => offer env sealing room seed q.1 q.2)
      (by simpa [Function.comp_def, offer] using hnodup) (hreach.uniform hepoch hopens')
    rw [← slot_new_run, ← slot_new_run] at hstate
    exact hstate
  · intro seed seed' k k' hk hk'
    obtain ⟨q, hq, hopened, hleast⟩ := held_run hk
    obtain ⟨q', hq', hopened', hleast'⟩ := held_run hk'
    have hq'σ := htaken.mem_iff.mpr hq'
    have hcommit := commitment_of_unwrapLocal hopened
    have hcommit' := commitment_of_unwrapLocal hopened'
    rw [hepoch q hq] at hcommit
    rw [hepoch q' hq'σ] at hcommit'
    -- keys of one commitment are one key
    suffices hsame : q.2.keyCommitment = q'.2.keyCommitment from
      hbinding epoch (hcommit.trans (hsame.trans hcommit'.symm))
    by_contra hne
    have hall := hreach.all hepoch fun hagree => hne (hagree q hq q' hq'σ)
    obtain ⟨device, rfl, htargets⟩ := targets_of_unwrapLocal hopened
    obtain ⟨device', rfl, htargets'⟩ := targets_of_unwrapLocal hopened'
    have hle := hleast q' hq'σ
      ((unwrapLocal_isSome (hopens' q' hq'σ) device).mpr ((hall q hq q' hq'σ device).mp htargets))
    have hge := hleast' q (htaken.mem_iff.mp hq)
      ((unwrapLocal_isSome (hopens' q hq) device').mpr ((hall q' hq'σ q hq device').mp htargets'))
    exact hne (by rw [List.inj_on_of_nodup_map hnodup hq hq'σ (le_antisymm hle hge)])

end KeyRing

/-! ### Orders that differ -/

namespace Toy

/-- Wrapping that hides nothing: the entry's ephemeral key is the room key, and its own commitment. -/
def plainSealing : Sealing where
  openContent _ _ _ _ _ := .error .authentication
  unwrapRoomKey entry _ _ _ := some entry.ephemeralPublic
  roomKeyCommitment k _ _ := k
  aadFor _ := []
  parseBody _ _ := .error .innerInvalid
  parseBody_type h := by cases h

/-- A distribution of room key `key` for an epoch, to the devices of the participants listed. -/
def distribution (epoch key : Nat) (targets : List Nat) : MemberKeyDistribution :=
  ⟨epoch, BitVec.ofNat 256 key, targets.map fun k => (device k, ⟨BitVec.ofNat 256 key, 0, 0⟩)⟩

theorem opens_distribution (epoch key : Nat) (targets : List Nat) :
    KeyRing.Opens toyEnv plainSealing room (distribution epoch key targets) := by
  intro entry hentry device _
  obtain ⟨k, -, rfl⟩ := List.mem_map.mp hentry
  exact ⟨_, rfl, rfl⟩

/-- The event with id `n` that distributes `d`. -/
def distributed (n : Nat) (d : MemberKeyDistribution) : EventId × Content :=
  (Bytes32.ofNat n, .memberKeyDistribution d)

theorem targets_distribution {epoch key : Nat} {targets : List Nat} {dev : SigningKey} :
    KeyRing.Targets toyEnv (distribution epoch key targets) dev ↔ ∃ k ∈ targets, device k = toyEnv.deviceKey dev := by
  simp [KeyRing.Targets, distribution]

/-- Two keys for one epoch, both for participants 1 and 2. -/
def twoKeys : List (EventId × Content) :=
  [distributed 4 (distribution 1 7 [1, 2]), distributed 9 (distribution 1 8 [1, 2])]

theorem distributions_twoKeys {q : EventId × MemberKeyDistribution} (hq : q ∈ KeyRing.distributions twoKeys) :
    ∃ key, q.2 = distribution 1 key [1, 2] := by
  have hlist : KeyRing.distributions twoKeys =
    [(Bytes32.ofNat 4, distribution 1 7 [1, 2]), (Bytes32.ofNat 9, distribution 1 8 [1, 2])] := rfl
  rw [hlist] at hq
  simp only [List.mem_cons, List.not_mem_nil, or_false] at hq
  rcases hq with rfl | rfl
  · exact ⟨7, rfl⟩
  · exact ⟨8, rfl⟩

/-- Two conflicting distributions, in both orders: the one of lower id stands. -/
theorem epoch_key_converges_twoKeys :
    (KeyRing.new.run toyEnv plainSealing room (some (devSeed 2)) twoKeys).roomKeys.get 1 = some 7 ∧
    (∀ seed, (KeyRing.new.run toyEnv plainSealing room seed twoKeys).roomKeys.epochs.get? 1 =
      (KeyRing.new.run toyEnv plainSealing room seed twoKeys.reverse).roomKeys.epochs.get? 1) ∧
    ∀ seed seed' k k', (KeyRing.new.run toyEnv plainSealing room seed twoKeys).roomKeys.get 1 = some k →
      (KeyRing.new.run toyEnv plainSealing room seed' twoKeys.reverse).roomKeys.get 1 = some k' → k = k' := by
  refine ⟨by decide, KeyRing.epoch_key_converges (fun _ _ _ h => h) (by decide) ?_
    (by decide) ?_⟩
  · intro q hq
    obtain ⟨key, hd⟩ := distributions_twoKeys hq
    rw [hd]
    exact opens_distribution _ _ _
  · intro q hq q' hq' _ _ dev
    obtain ⟨key, hd⟩ := distributions_twoKeys (KeyRing.mem_taken hq).1
    obtain ⟨key', hd'⟩ := distributions_twoKeys (KeyRing.mem_taken hq').1
    rw [hd, hd', targets_distribution, targets_distribution]

/-- A key for epoch 1 and one for epoch 2, both for participants 1 and 2. -/
def twoEpochs : List (EventId × Content) :=
  [distributed 4 (distribution 1 7 [1, 2]), distributed 9 (distribution 2 8 [1, 2])]

/-- A distribution that comes after one for a higher epoch is not taken, so the order decides whether it is held. -/
theorem epoch_key_order_matters :
    (∀ q ∈ KeyRing.distributions twoEpochs, KeyRing.Opens toyEnv plainSealing room q.2) ∧
    (KeyRing.new.run toyEnv plainSealing room (some (devSeed 2)) twoEpochs).roomKeys.epochs.get? 1 =
      some (.key 7 (Bytes32.ofNat 4)) ∧
    (KeyRing.new.run toyEnv plainSealing room (some (devSeed 2)) twoEpochs.reverse).roomKeys.epochs.get? 1 = none := by
  refine ⟨?_, by decide, by decide⟩
  have hlist : KeyRing.distributions twoEpochs =
    [(Bytes32.ofNat 4, distribution 1 7 [1, 2]), (Bytes32.ofNat 9, distribution 2 8 [1, 2])] := rfl
  intro q hq
  rw [hlist] at hq
  simp only [List.mem_cons, List.not_mem_nil, or_false] at hq
  rcases hq with rfl | rfl
  all_goals exact opens_distribution _ _ _

end Toy

end IrohRooms
