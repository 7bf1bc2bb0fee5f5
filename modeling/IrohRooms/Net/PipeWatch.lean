import IrohRooms.Net.PipeGrants

/-!
# Revocation

A pass of the watcher walks over the sessions it found in the table and judges each by the gate's reads, while
everything else goes on. A session that was registered before the pass and still runs after it was let through by reads
of the pass (`PipePlane.pass_judges`). The owner's close is not left to the watcher alone: the call itself severs what
it finds in the table once the target is gone (`PipePlane.close_severs`), and what a pass leaves of a pipe without a
target is nothing (`PipePlane.void_pipe_silent`).
-/

namespace IrohRooms

open Moments

variable {env : Env} {sealing : Sealing} {room : RoomId}

/-- The call is about to enter the pipe in the registry. -/
def OwnerCall.Inserts (pipeId : ShortId) : OwnerCall → Prop
  | .insert opened _ _ => opened.pipeId = pipeId
  | _ => False

theorem StreamStep.ended {p : PipePlane env sealing room} {f : PipeStream → PipeStream} (hf : StreamStep p f)
    {st : PipeStream} (h : st.phase = .ended) : (f st).phase = .ended := by
  cases hf with
  | hello sent nowMs => simp [PipeStream.readHello, h]
  | gate answered => simp [PipeStream.readGate, h]
  | dialed ok => simp [PipeStream.connectTarget, h]
  | accept ok => simp [PipeStream.writeAccept, h]
  | finish => simp [PipeStream.finishSplice, h]

namespace Toy

/-- The one session of `forwarding`. -/
def liveSession : LiveSession := ⟨0, device 1, 7⟩

def closeArgs : CloseArgs := ⟨idSeed 2, devSeed 2, 7, none, 107⟩

/-- Pipe 7 is announced and closed again; its target is gone, and the admin's session still runs. -/
def closing : List PipeLabel := forwarding ++ [.owner 0 [], .close closeArgs, .owner 1 [], .owner 1 []]

def inserts (pipeId : ShortId) : OwnerCall → Bool
  | .insert opened _ _ => opened.pipeId == pipeId
  | _ => false

theorem not_inserts {pipeId : ShortId} {call : OwnerCall} (h : inserts pipeId call = false) :
    ¬ call.Inserts pipeId := by
  cases call with
  | insert opened target frame =>
    intro heq
    simp [inserts, show opened.pipeId = pipeId from heq] at h
  | _ => exact fun h => h

/-- The watcher's pass over the session of `forwarding`, and its pass and the walk of the close over that of `closing`,
evaluated in one go. -/
theorem watched_computed :
    (((PipePlane.start (run pipeRoom)).run forwarding).watcher = .waiting ∧
      [liveSession].isPerm ((PipePlane.start (run pipeRoom)).run forwarding).sessions.live = true ∧
      (((PipePlane.start (run pipeRoom)).run forwarding).run (.tick 0 [liveSession] ::
        List.replicate 4 (.watch true))).watcher = .waiting ∧
      ((PipePlane.start (run pipeRoom)).run forwarding).streams[0]? = some forwarded ∧
      (((PipePlane.start (run pipeRoom)).run forwarding).run (.tick 0 [liveSession] ::
        List.replicate 4 (.watch true))).streams[0]? = some forwarded) ∧
    (((PipePlane.start (run pipeRoom)).run closing).registry.target 7 = none ∧
      (∀ cut ∈ (PipeLabel.tick 0 [liveSession] :: [.watch true, .watch true] ++ []).inits,
        ∀ call ∈ (((PipePlane.start (run pipeRoom)).run closing).run cut).calls, inserts 7 call = false) ∧
      ((PipePlane.start (run pipeRoom)).run closing).streams = [forwarded] ∧
      ((PipePlane.start (run pipeRoom)).run closing).watcher = .waiting ∧
      [liveSession].isPerm ((PipePlane.start (run pipeRoom)).run closing).sessions.live = true ∧
      (((PipePlane.start (run pipeRoom)).run closing).run
        (.tick 0 [liveSession] :: [.watch true, .watch true])).watcher = .waiting) ∧
    ((PipePlane.start (run pipeRoom)).run closing).calls[1]? = some (OwnerCall.collect 7) ∧
    (((PipePlane.start (run pipeRoom)).run closing).run
      [.owner 1 [0], .owner 1 [], .owner 1 []]).calls[1]? = some (OwnerCall.returned true) := by
  decide +kernel

end Toy

namespace PipePlane

variable {p s : PipePlane env sealing room} {n : Nat}

/-! ### Numbers are not used again -/

theorem next_le_step (h : Supervised n p) (hn : n + 1 < 2 ^ 64) (l : PipeLabel) :
    p.sessions.next ≤ (p.step l).sessions.next := by
  cases p.step_change l with
  | same _ hsessions => rw [hsessions]
  | opened _ _ hsessions => rw [hsessions]
  | moved _ _ hsessions => rw [hsessions]
  | registered _ _ _ hsessions =>
    rw [hsessions]
    show _ ≤ (p.sessions.next + 1) % 2 ^ 64
    have := h.counted
    omega
  | reaped _ _ _ hsessions => rw [hsessions]; rfl
  | torn _ _ hsessions => rw [hsessions]; rfl

/-- A session that has its number is in the table only if it was before. -/
theorem step_entry {l : PipeLabel} {id : Nat} {e : SessionEntry} (hid : id < p.sessions.next)
    (h : (p.step l).sessions.sessions.get? id = some e) : p.sessions.sessions.get? id = some e := by
  cases p.step_change l with
  | same _ hsessions => rwa [hsessions] at h
  | opened _ _ hsessions => rwa [hsessions] at h
  | moved _ _ hsessions => rwa [hsessions] at h
  | registered _ _ _ hsessions =>
    rw [hsessions] at h
    simp only [PipeSessions.register] at h
    rwa [OrdMap.get?_insert_of_ne _ _ hid.ne] at h
  | reaped _ _ _ hsessions =>
    rw [hsessions] at h
    simp only [PipeSessions.deregister, OrdMap.get?_erase] at h
    split_ifs at h
    exact h
  | torn _ _ hsessions =>
    rw [hsessions] at h
    simp only [PipeSessions.deregister, OrdMap.get?_erase] at h
    split_ifs at h
    exact h

theorem next_le_run (h : Supervised n p) {ls : List PipeLabel} (hn : n + ls.length < 2 ^ 64) :
    p.sessions.next ≤ (p.run ls).sessions.next := by
  induction ls generalizing n p with
  | nil => exact Nat.le_refl _
  | cons l ls ih =>
    rw [List.length_cons] at hn
    exact (next_le_step h (by omega) l).trans (ih (h.step (by omega) l) (by omega))

theorem run_entry (h : Supervised n p) {ls : List PipeLabel} (hn : n + ls.length < 2 ^ 64) {id : Nat}
    {e : SessionEntry} (hid : id < p.sessions.next) (he : (p.run ls).sessions.sessions.get? id = some e) :
    p.sessions.sessions.get? id = some e := by
  induction ls generalizing n p with
  | nil => exact he
  | cons l ls ih =>
    rw [List.length_cons] at hn
    have hnext := next_le_step h (by omega) l
    exact step_entry hid (ih (h.step (by omega) l) (by omega) (by omega) he)

/-! ### A pass -/

/-- The session is still to be judged on this pass, or is being judged by the reads so far. -/
def Awaits (s : PipePlane env sealing room) (nowMs : Nat) (ls : List PipeLabel) (x : LiveSession) : Watcher → Prop
  | .waiting => False
  | .judging now y point rest => now = nowMs ∧ (x ∈ rest ∨ y = x ∧ Met step (passed x.pipeId point) s ls)
  | .severing now y _ rest => now = nowMs ∧ (x ∈ rest ∨ y = x)

/-- The session was let through by reads along the run. -/
def Judged (s : PipePlane env sealing room) (nowMs : Nat) (ls : List PipeLabel) (x : LiveSession) : Prop :=
  ∃ target opened, Met step (granting x.device x.pipeId nowMs target opened) s ls

variable {nowMs : Nat} {ls : List PipeLabel} {x : LiveSession}

theorem Judged.append (h : Judged s nowMs ls x) (more : List PipeLabel) : Judged s nowMs (ls ++ more) x := by
  obtain ⟨target, opened, hmet⟩ := h
  exact ⟨target, opened, hmet.append more⟩

theorem Awaits.append {w : Watcher} (h : Awaits s nowMs ls x w) (more : List PipeLabel) :
    Awaits s nowMs (ls ++ more) x w := by
  cases w with
  | waiting => exact h
  | judging now y point rest =>
    obtain ⟨hnow, hrest | ⟨hy, hmet⟩⟩ := h
    · exact ⟨hnow, Or.inl hrest⟩
    · exact ⟨hnow, Or.inr ⟨hy, hmet.append more⟩⟩
  | severing now y cause rest => exact h

theorem awaits_turn {rest : List LiveSession} (h : x ∈ rest) : Awaits s nowMs ls x (.turn nowMs rest) := by
  cases rest with
  | nil => cases h
  | cons y rest =>
    rcases List.mem_cons.mp h with rfl | hrest
    · exact ⟨rfl, Or.inr ⟨rfl, trivial⟩⟩
    · exact ⟨rfl, Or.inl hrest⟩

theorem teardown_get? (p : PipePlane env sealing room) (id : Nat) :
    (p.teardown id).sessions.sessions.get? id = none := by
  unfold teardown
  split
  · assumption
  · simp [PipeSessions.deregister, OrdMap.get?_erase]

theorem teardown_get?_none {id : Nat} (h : p.sessions.sessions.get? id = none) (first : Nat) :
    (p.teardown first).sessions.sessions.get? id = none := by
  unfold teardown
  split
  · exact h
  · simp [PipeSessions.deregister, OrdMap.get?_erase, h]

/-- One step of the watcher brings a session that is still in the table closer to its verdict. -/
theorem awaits_watch {answered : Bool} (h : Awaits s nowMs ls x (s.run ls).watcher)
    (hlive : ((s.run ls).watch answered).sessions.sessions.get? x.id ≠ none) :
    Awaits s nowMs ls x ((s.run ls).watch answered).watcher ∨ Judged s nowMs ls x := by
  unfold watch at hlive ⊢
  cases hwatcher : (s.run ls).watcher with
  | waiting =>
    rw [hwatcher] at h
    exact h.elim
  | judging now y point rest =>
    rw [hwatcher] at h hlive
    obtain ⟨rfl, h⟩ := h
    dsimp only
    split
    · rename_i next hread
      left
      refine ⟨rfl, ?_⟩
      rcases h with hrest | ⟨rfl, hmet⟩
      · exact Or.inl hrest
      · obtain ⟨P, hpassed, hP⟩ := read_next hread
        refine Or.inr ⟨rfl, ?_⟩
        rw [hpassed]
        exact hmet.snoc hP
    · rename_i target hread
      rcases h with hrest | ⟨rfl, hmet⟩
      · exact Or.inl (awaits_turn hrest)
      · obtain ⟨opened, hgranting, hallows⟩ := read_accept hread
        refine Or.inr ⟨target, opened, ?_⟩
        rw [hgranting]
        exact hmet.snoc hallows
    · left
      refine ⟨rfl, ?_⟩
      rcases h with hrest | ⟨rfl, -⟩
      · exact Or.inl hrest
      · exact Or.inr rfl
  | severing now y cause rest =>
    rw [hwatcher] at h hlive
    obtain ⟨rfl, hrest | rfl⟩ := h
    · exact Or.inl (awaits_turn hrest)
    · exact absurd (teardown_get? _ _) hlive

theorem teardown_watcher (p : PipePlane env sealing room) (id : Nat) : (p.teardown id).watcher = p.watcher := by
  unfold teardown
  split
  · rfl
  · rfl

theorem teardown_registry (p : PipePlane env sealing room) (id : Nat) : (p.teardown id).registry = p.registry := by
  unfold teardown
  split
  · rfl
  · rfl

theorem owner_watcher (p : PipePlane env sealing room) (j : Nat) (ids : List Nat) :
    (p.owner j ids).watcher = p.watcher := by
  unfold owner
  split
  · split
    · rfl
    · rfl
  · split
    · rfl
    · rfl
  · rfl
  · split
    · rfl
    · rfl
  · rfl
  · split
    · rfl
    · rfl
  · rfl
  · exact teardown_watcher p _
  · rfl
  · rfl

theorem watch_registry (p : PipePlane env sealing room) (answered : Bool) :
    (p.watch answered).registry = p.registry := by
  unfold watch
  split
  · rfl
  · split
    · rfl
    · rfl
    · rfl
  · exact teardown_registry p _

/-- The watcher, the registry and the calls are moved by the watcher and the calls alone. -/
theorem step_frame (p : PipePlane env sealing room) (l : PipeLabel) :
    ((p.step l).watcher = p.watcher ∧ (p.step l).registry = p.registry ∧ ∃ more, (p.step l).calls = p.calls ++ more) ∨
      (∃ nowMs live, l = .tick nowMs live) ∨ (∃ answered, l = .watch answered) ∨ ∃ j ids, l = .owner j ids := by
  cases l with
  | watch answered => exact Or.inr (Or.inr (Or.inl ⟨answered, rfl⟩))
  | tick nowMs live => exact Or.inr (Or.inl ⟨nowMs, live, rfl⟩)
  | owner j ids => exact Or.inr (Or.inr (Or.inr ⟨j, ids, rfl⟩))
  | admitConn c answered =>
    left
    simp only [step, admitConn]
    split
    · split
      · exact ⟨rfl, rfl, [], (List.append_nil _).symm⟩
      · exact ⟨rfl, rfl, [], (List.append_nil _).symm⟩
    · exact ⟨rfl, rfl, [], (List.append_nil _).symm⟩
  | openStream c =>
    left
    simp only [step, openStream]
    split
    · exact ⟨rfl, rfl, [], (List.append_nil _).symm⟩
    · exact ⟨rfl, rfl, [], (List.append_nil _).symm⟩
  | register i nowMs =>
    left
    simp only [step, register]
    split
    · exact ⟨rfl, rfl, [], (List.append_nil _).symm⟩
    · exact ⟨rfl, rfl, [], (List.append_nil _).symm⟩
  | reap i =>
    left
    simp only [step, reap]
    split
    · exact ⟨rfl, rfl, [], (List.append_nil _).symm⟩
    · exact ⟨rfl, rfl, [], (List.append_nil _).symm⟩
  | expose args drawn =>
    left
    simp only [step, expose]
    split
    · exact ⟨rfl, rfl, _, rfl⟩
    · split
      · exact ⟨rfl, rfl, _, rfl⟩
      · exact ⟨rfl, rfl, _, rfl⟩
  | close args => exact Or.inl ⟨rfl, rfl, _, rfl⟩
  | pump input => exact Or.inl ⟨rfl, rfl, [], (List.append_nil _).symm⟩
  | connect device => exact Or.inl ⟨rfl, rfl, [], (List.append_nil _).symm⟩
  | hello i sent nowMs => exact Or.inl ⟨rfl, rfl, [], (List.append_nil _).symm⟩
  | gate i answered => exact Or.inl ⟨rfl, rfl, [], (List.append_nil _).symm⟩
  | dialed i ok => exact Or.inl ⟨rfl, rfl, [], (List.append_nil _).symm⟩
  | accept i ok => exact Or.inl ⟨rfl, rfl, [], (List.append_nil _).symm⟩
  | finish i => exact Or.inl ⟨rfl, rfl, [], (List.append_nil _).symm⟩

/-- Only a tick, between two passes, and the watcher's own steps move the watcher. -/
theorem step_watcher (p : PipePlane env sealing room) (l : PipeLabel) : (p.step l).watcher = p.watcher ∨
    p.watcher = .waiting ∨ ∃ answered, l = .watch answered := by
  rcases p.step_frame l with ⟨hwatcher, -⟩ | ⟨nowMs, live, rfl⟩ | hwatch | ⟨j, ids, rfl⟩
  · exact Or.inl hwatcher
  · simp only [step, tick]
    split
    · rename_i h
      exact Or.inr (Or.inl h.1)
    · exact Or.inl rfl
  · exact Or.inr (Or.inr hwatch)
  · exact Or.inl (owner_watcher p j ids)

/-- From a tick on, a session of the pass that is still in the table awaits its verdict or was let through. -/
theorem pass_run (h : Supervised n s) {live : List LiveSession} (hidle : s.watcher = .waiting)
    (hperm : live.isPerm s.sessions.live = true) (hx : x ∈ live) (hid : x.id < s.sessions.next)
    (ls : List PipeLabel) (hn : n + (ls.length + 1) < 2 ^ 64)
    (hlive : (s.run (.tick nowMs live :: ls)).sessions.sessions.get? x.id ≠ none) :
    Awaits s nowMs (.tick nowMs live :: ls) x (s.run (.tick nowMs live :: ls)).watcher ∨
      Judged s nowMs (.tick nowMs live :: ls) x := by
  induction ls using List.reverseRecOn with
  | nil =>
    left
    have hstart : (s.run [.tick nowMs live]).watcher = .turn nowMs live := by
      show (s.tick nowMs live).watcher = _
      rw [tick, if_pos ⟨hidle, hperm⟩]
    rw [hstart]
    exact awaits_turn hx
  | append_singleton ls l ih =>
    rw [List.length_append, List.length_singleton] at hn
    rw [← List.cons_append, run_append] at hlive ⊢
    have hnext : s.sessions.next ≤ (s.run (.tick nowMs live :: ls)).sessions.next :=
      next_le_run h (by rw [List.length_cons]; omega)
    obtain ⟨e, he⟩ := Option.ne_none_iff_exists'.mp hlive
    have hbefore := step_entry (hid.trans_le hnext) he
    rcases ih (by omega) (by simp [hbefore]) with hawaits | hjudged
    · rcases step_watcher (s.run (.tick nowMs live :: ls)) l with hsame | hwaiting | ⟨answered, rfl⟩
      · rw [hsame]
        exact Or.inl (hawaits.append [l])
      · rw [hwaiting] at hawaits
        exact hawaits.elim
      · rcases awaits_watch hawaits hlive with hawaits' | hjudged
        · exact Or.inl (hawaits'.append _)
        · exact Or.inr (hjudged.append _)
    · exact Or.inr (hjudged.append [l])

theorem mem_live {e : SessionEntry} {id : Nat} (h : s.sessions.sessions.get? id = some e) :
    ⟨id, e.device, e.pipeId⟩ ∈ s.sessions.live := List.mem_map.mpr ⟨(id, e), OrdMap.mem_entries.mpr h, rfl⟩

theorem pass_entry (h : Supervised n s) {live : List LiveSession} (hidle : s.watcher = .waiting)
    (hperm : live.isPerm s.sessions.live = true) (ls : List PipeLabel) (hn : n + (ls.length + 1) < 2 ^ 64)
    (hdone : (s.run (.tick nowMs live :: ls)).watcher = .waiting) {id : Nat} {e : SessionEntry}
    (hid : id < s.sessions.next) (he : (s.run (.tick nowMs live :: ls)).sessions.sessions.get? id = some e) :
    Judged s nowMs (.tick nowMs live :: ls) ⟨id, e.device, e.pipeId⟩ := by
  have hbefore := run_entry h (by rw [List.length_cons]; omega) hid he
  have hx := (List.isPerm_iff.mp hperm).mem_iff.mpr (mem_live hbefore)
  have hpresent : (s.run (.tick nowMs live :: ls)).sessions.sessions.get? id ≠ none := by simp [he]
  rcases pass_run h hidle hperm hx hid ls hn hpresent with hawaits | hjudged
  · rw [hdone] at hawaits
    exact hawaits.elim
  · exact hjudged

/-- A stream that was registered before a pass and still runs when the pass is over was let through again, by reads of
the pass in order. -/
theorem pass_judges (engine : SyncEngine env sealing room) (before : List PipeLabel) (nowMs : Nat)
    (live : List LiveSession) (ls : List PipeLabel) (hlen : before.length + (ls.length + 1) < 2 ^ 64)
    (hidle : ((start engine).run before).watcher = .waiting)
    (hperm : live.isPerm ((start engine).run before).sessions.live = true)
    (hdone : (((start engine).run before).run (.tick nowMs live :: ls)).watcher = .waiting) {i : Nat}
    {st₀ st : PipeStream} {pipeId : ShortId} {id : Nat} (hst₀ : ((start engine).run before).streams[i]? = some st₀)
    (hregistered : st₀.session = some (pipeId, id))
    (hst : (((start engine).run before).run (.tick nowMs live :: ls)).streams[i]? = some st)
    (hsession : st.session = some (pipeId, id)) (hrun : st.running = true) :
    ∃ target opened, Met step (granting st.device pipeId nowMs target opened) ((start engine).run before)
      (.tick nowMs live :: ls) := by
  have hsupervised := Supervised.of_run engine before (by omega)
  have hafter := hsupervised.run (.tick nowMs live :: ls) hlen
  obtain ⟨e, he, rfl⟩ := hafter.held hst hsession hrun
  obtain ⟨st', hst', hsession', hdevice, -⟩ := hafter.entry he
  rw [hst] at hst'
  cases hst'
  rw [hsession] at hsession'
  cases hsession'
  rw [hdevice]
  exact pass_entry hsupervised hidle hperm ls hlen hdone (hsupervised.issued hst₀ hregistered) he

/-- The admin's session is judged again and runs on. -/
theorem pass_judges_forwarding :
    (((start (Toy.run Toy.pipeRoom)).run Toy.forwarding).run (.tick 0 [Toy.liveSession] ::
      List.replicate 4 (.watch true))).streams[0]? = some Toy.forwarded ∧
    ∃ target opened, Met step (granting (Toy.device 1) 7 0 target opened)
      ((start (Toy.run Toy.pipeRoom)).run Toy.forwarding)
      (.tick 0 [Toy.liveSession] :: List.replicate 4 (.watch true)) := by
  obtain ⟨⟨hidle, hperm, hdone, hst₀, hst⟩, -⟩ := Toy.watched_computed
  exact ⟨hst, pass_judges (Toy.run Toy.pipeRoom) Toy.forwarding 0 [Toy.liveSession] (List.replicate 4 (.watch true))
    (by decide) hidle hperm hdone hst₀ rfl hst rfl rfl⟩

/-! ### Registered streams -/

theorem streams_length_le_step (p : PipePlane env sealing room) (l : PipeLabel) :
    p.streams.length ≤ (p.step l).streams.length := by
  cases p.step_change l with
  | same hstreams _ => rw [hstreams]
  | opened _ hstreams _ => simp [hstreams]
  | moved _ hstreams _ => simp [hstreams]
  | registered _ _ hstreams _ => simp [hstreams]
  | reaped _ _ hstreams _ => simp [hstreams]
  | torn _ hstreams _ => simp [hstreams]

theorem streams_length_le_run (s : PipePlane env sealing room) (ls : List PipeLabel) :
    s.streams.length ≤ (s.run ls).streams.length := by
  induction ls using List.reverseRecOn with
  | nil => exact Nat.le_refl _
  | append_singleton ls l ih =>
    rw [run_append]
    exact ih.trans (streams_length_le_step _ l)

theorem exists_stream_run {i : Nat} {st : PipeStream} (hst : s.streams[i]? = some st) (ls : List PipeLabel) :
    ∃ st', (s.run ls).streams[i]? = some st' := by
  have hlt := (List.getElem?_eq_some_iff.mp hst).1.trans_le (streams_length_le_run s ls)
  exact ⟨_, List.getElem?_eq_some_iff.mpr ⟨hlt, rfl⟩⟩

theorem Follows.ended {st st' : PipeStream} (h : p.Follows st st') (hended : st.phase = .ended) :
    st'.phase = .ended := by
  cases h with
  | stays => exact hended
  | moves hf => exact hf.ended hended
  | registers hphase id => simp [hended] at hphase
  | ends => rfl

theorem ended_run {i : Nat} {st₀ st : PipeStream} (hst₀ : s.streams[i]? = some st₀) (hended : st₀.phase = .ended)
    (ls : List PipeLabel) (hst : (s.run ls).streams[i]? = some st) : st.phase = .ended := by
  induction ls using List.reverseRecOn generalizing st with
  | nil =>
    rw [show s.run [] = s from rfl, hst₀] at hst
    cases hst
    exact hended
  | append_singleton ls l ih =>
    rw [run_append] at hst
    obtain ⟨st', hst'⟩ := exists_stream_run hst₀ ls
    rcases step_stream hst with ⟨st'', hst'', hfollows⟩ | ⟨hnone, -⟩
    · exact hfollows.ended (ih hst'')
    · rw [hst'] at hnone
      cases hnone

/-- A registered stream keeps its session until it ends, and a splice that has stopped stays stopped. -/
theorem registered_run {i : Nat} {st₀ st : PipeStream} {x : ShortId × Nat} (hst₀ : s.streams[i]? = some st₀)
    (hx : st₀.session = some x) (ls : List PipeLabel) (hst : (s.run ls).streams[i]? = some st) :
    st.session = some x ∧ (st.running = true → st₀.running = true) ∨ st.phase = .ended := by
  induction ls using List.reverseRecOn generalizing st with
  | nil =>
    rw [show s.run [] = s from rfl, hst₀] at hst
    cases hst
    exact Or.inl ⟨hx, fun h => h⟩
  | append_singleton ls l ih =>
    rw [run_append] at hst
    obtain ⟨st', hst'⟩ := exists_stream_run hst₀ ls
    rcases step_stream hst with ⟨st'', hst'', hfollows⟩ | ⟨hnone, -⟩
    · rw [hst'] at hst''
      cases hst''
      rcases ih hst' with ⟨hsession, hran⟩ | hended
      · cases hfollows with
        | stays => exact Or.inl ⟨hsession, hran⟩
        | moves hf =>
          have hsteady := hf.steady st'
          have hkept := hsteady.session.trans hsession
          exact Or.inl ⟨hkept, fun hrun => hran (hsteady.running x hkept hrun)⟩
        | registers hphase id => simp [PipeStream.session, hphase] at hsession
        | ends => exact Or.inr rfl
      · exact Or.inr (hfollows.ended hended)
    · rw [hst'] at hnone
      cases hnone

theorem running_of_registered {i : Nat} {st₀ st : PipeStream} {x : ShortId × Nat} (hst₀ : s.streams[i]? = some st₀)
    (hx : st₀.session = some x) {ls : List PipeLabel} (hst : (s.run ls).streams[i]? = some st)
    (hrun : st.running = true) : st.session = some x ∧ st₀.running = true := by
  rcases registered_run hst₀ hx ls hst with ⟨hsession, hran⟩ | hended
  · exact ⟨hsession, hran hrun⟩
  · simp [PipeStream.running, hended] at hrun

/-! ### A pipe without a target -/

theorem insert_target {r r' : PipeRegistry} {opened : PipeOpened} {target : SocketAddr} {pipeId : ShortId}
    (h : r.insert opened target = .ok r') (hne : opened.pipeId ≠ pipeId) : r'.target pipeId = r.target pipeId := by
  unfold PipeRegistry.insert at h
  split_ifs at h
  cases h
  simp [PipeRegistry.target, hne.symm]

theorem remove_target {r : PipeRegistry} {pipeId : ShortId} (h : r.target pipeId = none) (other : ShortId) :
    (r.remove other).target pipeId = none := by
  unfold PipeRegistry.target PipeRegistry.remove
  dsimp only
  split_ifs
  · rfl
  · exact h

theorem owner_target {pipeId : ShortId} (h : p.registry.target pipeId = none)
    (hcalls : ∀ call ∈ p.calls, ¬ call.Inserts pipeId) (j : Nat) (ids : List Nat) :
    (p.owner j ids).registry.target pipeId = none := by
  unfold owner
  split
  · rename_i opened target frame hcall
    split
    · rename_i registry hinsert
      have hne : opened.pipeId ≠ pipeId := hcalls _ (List.mem_of_getElem? hcall)
      show registry.target pipeId = none
      rw [insert_target hinsert hne]
      exact h
    · exact h
  · split
    · exact h
    · exact h
  · exact remove_target h _
  · split
    · exact h
    · exact h
  · exact remove_target h _
  · split
    · exact h
    · exact h
  · exact h
  · rename_i id rest hcall
    show (p.teardown id).registry.target pipeId = none
    rw [teardown_registry]
    exact h
  · exact h
  · exact h

theorem step_target {pipeId : ShortId} (h : p.registry.target pipeId = none)
    (hcalls : ∀ call ∈ p.calls, ¬ call.Inserts pipeId) (l : PipeLabel) :
    (p.step l).registry.target pipeId = none := by
  rcases p.step_frame l with ⟨-, hregistry, -⟩ | ⟨nowMs, live, rfl⟩ | ⟨answered, rfl⟩ | ⟨j, ids, rfl⟩
  · rw [hregistry]
    exact h
  · simp only [step, tick]
    split
    · exact h
    · exact h
  · simp only [step]
    rw [watch_registry]
    exact h
  · exact owner_target h hcalls j ids

theorem run_target {pipeId : ShortId} (h : s.registry.target pipeId = none) {ls : List PipeLabel}
    (hnever : ∀ cut, cut <+: ls → ∀ call ∈ (s.run cut).calls, ¬ call.Inserts pipeId) :
    (s.run ls).registry.target pipeId = none := by
  induction ls using List.reverseRecOn with
  | nil => exact h
  | append_singleton ls l ih =>
    rw [run_append]
    apply step_target (ih fun cut hcut => hnever cut (hcut.trans (List.prefix_append _ _)))
    exact hnever ls (List.prefix_append _ _)

/-- What is under way for a pipe and backed by reads of a run had a target on the way. -/
theorem target_of_backed {st : PipeStream} {pipeId : ShortId} (h : st.Backed (fun _ => []) s ls)
    (hunderway : st.Underway) (hpipe : st.pipe = some pipeId) :
    ∃ cut target, cut <+: ls ∧ (s.run cut).registry.target pipeId = some target := by
  have hmet : ∃ target Ps, Met step (Targets pipeId target :: Ps) s ls := by
    unfold PipeStream.Backed at h
    unfold PipeStream.pipe at hpipe
    unfold PipeStream.Underway at hunderway
    cases hphase : st.phase with
    | hello => simp [hphase] at hunderway
    | ended => simp [hphase] at hunderway
    | gate pipe nowMs point =>
      rw [hphase] at h hpipe hunderway
      cases hpipe
      cases point with
      | atTarget => exact hunderway.elim
      | atClosed target => exact ⟨target, _, h⟩
      | atOpened target => exact ⟨target, _, h⟩
      | atSnapshot target opened => exact ⟨target, _, h⟩
    | connect pipe target =>
      rw [hphase] at h hpipe
      cases hpipe
      obtain ⟨nowMs, opened, h⟩ := h
      exact ⟨target, _, h⟩
    | reply pipe target =>
      rw [hphase] at h hpipe
      cases hpipe
      obtain ⟨nowMs, opened, h⟩ := h
      exact ⟨target, _, h⟩
    | spliced pipe target session running =>
      rw [hphase] at h hpipe
      cases hpipe
      obtain ⟨nowMs, opened, h⟩ := h
      exact ⟨target, _, h⟩
  obtain ⟨target, Ps, hmet⟩ := hmet
  obtain ⟨cut, hcut, htarget⟩ := hmet.exists_of_mem List.mem_cons_self
  exact ⟨cut, target, hcut, htarget⟩

theorem backed_or_underway (st : PipeStream) : st.Backed (fun _ => []) s [] ∨ st.Underway := by
  unfold PipeStream.Backed PipeStream.Underway
  cases st.phase with
  | hello => exact Or.inl trivial
  | ended => exact Or.inl trivial
  | gate pipeId nowMs point =>
    cases point with
    | atTarget => exact Or.inl trivial
    | atClosed target => exact Or.inr trivial
    | atOpened target => exact Or.inr trivial
    | atSnapshot target opened => exact Or.inr trivial
  | connect pipeId target => exact Or.inr trivial
  | reply pipeId target => exact Or.inr trivial
  | spliced pipeId target session running => exact Or.inr trivial

/-- While a pipe has no target, no gate gets past its first read. -/
theorem underway_before {pipeId : ShortId} (hvoid : ∀ cut, cut <+: ls → (s.run cut).registry.target pipeId = none)
    {i : Nat} {st : PipeStream} (hst : (s.run ls).streams[i]? = some st) (hunderway : st.Underway)
    (hpipe : st.pipe = some pipeId) : ∃ st₀, s.streams[i]? = some st₀ ∧ st₀.Underway ∧ st₀.pipe = some pipeId := by
  have hbacked : st.Backed (fun _ => []) s ls ∨
      ∃ st₀, s.streams[i]? = some st₀ ∧ st₀.Underway ∧ st.pipe = st₀.pipe := by
    refine backed_run ?_ ?_ ?_ ls hst
    · intro c device _
      trivial
    · intro device ls _
      trivial
    · intro j st' _
      exact backed_or_underway st'
  rcases hbacked with hbacked | ⟨st₀, hst₀, hunderway₀, hsame⟩
  · obtain ⟨cut, target, hcut, htarget⟩ := target_of_backed hbacked hunderway hpipe
    rw [hvoid cut hcut] at htarget
    cases htarget
  · exact ⟨st₀, hst₀, hunderway₀, hsame.symm.trans hpipe⟩

theorem underway_of_running {st : PipeStream} (h : st.running = true) : st.Underway := by
  unfold PipeStream.running at h
  unfold PipeStream.Underway
  split at h
  · rename_i hphase
    rw [hphase]
    trivial
  · cases h

/-- The pipe of a session is the one its stream named. -/
theorem pipe_of_session {st : PipeStream} {x : ShortId × Nat} (h : st.session = some x) : st.pipe = some x.1 := by
  unfold PipeStream.session at h
  unfold PipeStream.pipe
  split at h
  · rename_i hphase
    cases h
    rw [hphase]
  · cases h

/-- A pipe has no target any more and is not exposed again, and every stream of it whose gate had made its first read is
registered or has ended. Then after one pass of the watcher no stream of the pipe runs, and none ever will. -/
theorem void_pipe_silent (engine : SyncEngine env sealing room) (before : List PipeLabel) (nowMs : Nat)
    (live : List LiveSession) (pass more : List PipeLabel) (pipeId : ShortId)
    (hlen : before.length + (pass.length + 1) < 2 ^ 64)
    (hvoid : ((start engine).run before).registry.target pipeId = none)
    (hnever : ∀ cut, cut <+: .tick nowMs live :: pass ++ more →
      ∀ call ∈ (((start engine).run before).run cut).calls, ¬ call.Inserts pipeId)
    (hsettled : ∀ (i : Nat) (st : PipeStream), ((start engine).run before).streams[i]? = some st → st.Underway →
      st.pipe = some pipeId → ∃ x, st.session = some x)
    (hidle : ((start engine).run before).watcher = .waiting)
    (hperm : live.isPerm ((start engine).run before).sessions.live = true)
    (hdone : (((start engine).run before).run (.tick nowMs live :: pass)).watcher = .waiting) {i : Nat}
    {st : PipeStream} (hst : (((start engine).run before).run (.tick nowMs live :: pass ++ more)).streams[i]? = some st)
    (hpipe : st.pipe = some pipeId) : st.running = false := by
  have hsupervised := Supervised.of_run engine before (by omega)
  have hafter := hsupervised.run (.tick nowMs live :: pass) hlen
  have hempty : ∀ cut, cut <+: .tick nowMs live :: pass ++ more →
      (((start engine).run before).run cut).registry.target pipeId = none :=
    fun cut hcut => run_target hvoid fun cut' hcut' => hnever cut' (hcut'.trans hcut)
  by_contra hrun
  have hrun : st.running = true := by simpa using hrun
  obtain ⟨st₀, hst₀, hunderway₀, hpipe₀⟩ := underway_before hempty hst (underway_of_running hrun) hpipe
  obtain ⟨x, hx⟩ := hsettled i st₀ hst₀ hunderway₀ hpipe₀
  have hx₁ : x.1 = pipeId := by
    rw [pipe_of_session hx] at hpipe₀
    exact Option.some.inj hpipe₀
  -- the stream that runs at the end ran when the pass was over
  obtain ⟨st₁, hst₁⟩ := exists_stream_run hst₀ (.tick nowMs live :: pass)
  have hlater : (((start engine).run before).run (.tick nowMs live :: pass)).run more =
      ((start engine).run before).run (.tick nowMs live :: pass ++ more) := (List.foldl_append ..).symm
  rw [← hlater] at hst
  have hran : st₁.session = some x ∧ st₁.running = true := by
    rcases registered_run hst₀ hx _ hst₁ with ⟨hsession, -⟩ | hended
    · exact ⟨hsession, (running_of_registered hst₁ hsession hst hrun).2⟩
    · simp [PipeStream.running, ended_run hst₁ hended more hst] at hrun
  obtain ⟨e, he, rfl⟩ := hafter.held hst₁ hran.1 hran.2
  obtain ⟨st', hst', hsession', -⟩ := hafter.entry he
  have hjudged := pass_entry hsupervised hidle hperm pass hlen hdone (hsupervised.issued hst₀ hx) he
  rw [hst₁] at hst'
  cases hst'
  rw [hran.1] at hsession'
  have hpid : e.pipeId = pipeId := (congrArg Prod.fst (Option.some.inj hsession')).symm.trans hx₁
  -- but the pass found no target
  obtain ⟨target, opened, hmet⟩ := hjudged
  obtain ⟨cut, hcut, htarget⟩ := hmet.exists_of_mem List.mem_cons_self
  have hnone := hempty cut (hcut.trans (List.prefix_append _ _))
  rw [← hpid] at hnone
  have hclash : none = some target := hnone.symm.trans htarget
  cases hclash

/-- The watcher finds no target, and severs the session. -/
theorem void_pipe_silent_closing :
    ((start (Toy.run Toy.pipeRoom)).run Toy.closing).streams = [Toy.forwarded] ∧
    ∀ st, (((start (Toy.run Toy.pipeRoom)).run Toy.closing).run
      (.tick 0 [Toy.liveSession] :: [.watch true, .watch true] ++ [])).streams[0]? = some st →
      st.pipe = some 7 → st.running = false := by
  obtain ⟨-, ⟨hvoid, hcalls, hstreams, hidle, hperm, hdone⟩, -⟩ := Toy.watched_computed
  refine ⟨hstreams, fun st hst hpipe => ?_⟩
  refine void_pipe_silent (Toy.run Toy.pipeRoom) Toy.closing 0 [Toy.liveSession] [.watch true, .watch true] [] 7
    (by decide) hvoid ?_ ?_ hidle hperm hdone hst hpipe
  · intro cut hcut call hcall
    exact Toy.not_inserts (hcalls cut ((List.mem_inits _ _).mpr hcut) call hcall)
  · intro i st hst _ _
    rw [hstreams, List.getElem?_singleton] at hst
    split_ifs at hst
    cases hst
    exact ⟨_, rfl⟩

/-! ### The owner's close -/

theorem teardown_calls (p : PipePlane env sealing room) (id : Nat) : (p.teardown id).calls = p.calls := by
  unfold teardown
  split
  · rfl
  · rfl

theorem getElem?_onCall_of_ne {q : PipePlane env sealing room} (hq : q.calls = p.calls) {j k : Nat} (h : k ≠ j)
    (call : OwnerCall) : (q.onCall k call).calls[j]? = p.calls[j]? := by
  unfold onCall
  rw [hq, List.getElem?_set_ne h]

/-- The steps of a call are its own. -/
theorem owner_call_of_ne {j k : Nat} (h : k ≠ j) (ids : List Nat) : (p.owner k ids).calls[j]? = p.calls[j]? := by
  unfold owner
  split
  · split
    · exact getElem?_onCall_of_ne rfl h _
    · exact getElem?_onCall_of_ne rfl h _
  · split
    · exact getElem?_onCall_of_ne rfl h _
    · exact getElem?_onCall_of_ne rfl h _
  · exact getElem?_onCall_of_ne rfl h _
  · split
    · exact getElem?_onCall_of_ne rfl h _
    · exact getElem?_onCall_of_ne rfl h _
  · exact getElem?_onCall_of_ne rfl h _
  · split
    · exact getElem?_onCall_of_ne rfl h _
    · rfl
  · exact getElem?_onCall_of_ne rfl h _
  · exact getElem?_onCall_of_ne (teardown_calls p _) h _
  · rfl
  · rfl

theorem step_call {l : PipeLabel} {j : Nat} {call : OwnerCall} (h : p.calls[j]? = some call) :
    (p.step l).calls[j]? = some call ∨ ∃ ids, l = .owner j ids := by
  rcases p.step_frame l with ⟨-, -, more, hcalls⟩ | ⟨nowMs, live, rfl⟩ | ⟨answered, rfl⟩ | ⟨k, ids, rfl⟩
  · left
    rw [hcalls, List.getElem?_append_left (List.getElem?_eq_some_iff.mp h).1, h]
  · left
    simp only [step, tick]
    split
    · exact h
    · exact h
  · left
    simp only [step, watch]
    split
    · exact h
    · split
      · exact h
      · exact h
      · exact h
    · dsimp only
      rw [teardown_calls]
      exact h
  · by_cases hk : k = j
    · exact Or.inr ⟨ids, by rw [hk]⟩
    · exact Or.inl ((owner_call_of_ne hk ids).trans h)

/-- How far the close of a pipe has come with a session of it: the table is still to be walked, or the session, if it is
still there, is among those to be torn down. -/
def CloseReaches (pipeId : ShortId) (j id : Nat) (p : PipePlane env sealing room) : Prop :=
  p.calls[j]? = some (.collect pipeId) ∨
    (∃ ids, p.calls[j]? = some (.tearDown pipeId ids) ∧ (p.sessions.sessions.get? id ≠ none → id ∈ ids)) ∨
    p.calls[j]? = some (.returned true) ∧ p.sessions.sessions.get? id = none

theorem getElem?_onCall_self {q : PipePlane env sealing room} {j : Nat} {call : OwnerCall}
    (hq : q.calls[j]? = some call) (call' : OwnerCall) : (q.onCall j call').calls[j]? = some call' := by
  unfold onCall
  rw [List.getElem?_set_self (List.getElem?_eq_some_iff.mp hq).1]

theorem CloseReaches.owner {pipeId : ShortId} {j id : Nat} (h : CloseReaches pipeId j id p)
    (hpipe : ∀ e, p.sessions.sessions.get? id = some e → e.pipeId = pipeId) (ids : List Nat) :
    CloseReaches pipeId j id (p.owner j ids) := by
  rcases h with hcall | ⟨todo, hcall, htodo⟩ | ⟨hcall, hgone⟩
  · unfold PipePlane.owner
    rw [hcall]
    dsimp only
    split
    · rename_i hperm
      refine Or.inr (Or.inl ⟨ids, getElem?_onCall_self hcall _, fun hpresent => ?_⟩)
      obtain ⟨e, he⟩ := Option.ne_none_iff_exists'.mp hpresent
      refine (List.isPerm_iff.mp hperm).mem_iff.mpr (List.mem_map.mpr ⟨(id, e), List.mem_filter.mpr ⟨?_, ?_⟩, rfl⟩)
      · exact OrdMap.mem_entries.mpr he
      · simp [hpipe e he]
    · exact Or.inl hcall
  · unfold PipePlane.owner
    rw [hcall]
    cases todo with
    | nil =>
      refine Or.inr (Or.inr ⟨getElem?_onCall_self hcall _, ?_⟩)
      by_contra hpresent
      cases htodo hpresent
    | cons first rest =>
      have hcall' : (p.teardown first).calls[j]? = some (.tearDown pipeId (first :: rest)) := by
        rw [teardown_calls, hcall]
      refine Or.inr (Or.inl ⟨rest, getElem?_onCall_self hcall' _, fun hpresent => ?_⟩)
      have hne : id ≠ first := by
        rintro rfl
        exact hpresent (teardown_get? p id)
      have hbefore : p.sessions.sessions.get? id ≠ none := fun hnone => hpresent (teardown_get?_none hnone first)
      exact (List.mem_cons.mp (htodo hbefore)).resolve_left hne
  · unfold PipePlane.owner
    rw [hcall]
    exact Or.inr (Or.inr ⟨hcall, hgone⟩)

theorem CloseReaches.step {pipeId : ShortId} {j id : Nat} (h : CloseReaches pipeId j id p)
    (hid : id < p.sessions.next) (hpipe : ∀ e, p.sessions.sessions.get? id = some e → e.pipeId = pipeId)
    (l : PipeLabel) : CloseReaches pipeId j id (p.step l) := by
  have hgone : p.sessions.sessions.get? id = none → (p.step l).sessions.sessions.get? id = none := by
    intro hnone
    by_contra hpresent
    obtain ⟨e, he⟩ := Option.ne_none_iff_exists'.mp hpresent
    rw [step_entry hid he] at hnone
    cases hnone
  by_cases howner : ∃ ids, l = .owner j ids
  · obtain ⟨ids, rfl⟩ := howner
    exact h.owner hpipe ids
  · rcases h with hcall | ⟨todo, hcall, htodo⟩ | ⟨hcall, hnone⟩
    · exact Or.inl ((step_call hcall).resolve_right howner)
    · refine Or.inr (Or.inl ⟨todo, (step_call hcall).resolve_right howner, fun hpresent => ?_⟩)
      exact htodo fun hnone => hpresent (hgone hnone)
    · exact Or.inr (Or.inr ⟨(step_call hcall).resolve_right howner, hgone hnone⟩)

theorem CloseReaches.run (h : Supervised n s) {pipeId : ShortId} {j id : Nat} (hreaches : CloseReaches pipeId j id s)
    (hid : id < s.sessions.next) (hpipe : ∀ e, s.sessions.sessions.get? id = some e → e.pipeId = pipeId)
    (ls : List PipeLabel) (hn : n + ls.length < 2 ^ 64) : CloseReaches pipeId j id (s.run ls) := by
  induction ls using List.reverseRecOn with
  | nil => exact hreaches
  | append_singleton ls l ih =>
    rw [List.length_append, List.length_singleton] at hn
    rw [run_append]
    apply (ih (by omega)).step
    · exact hid.trans_le (next_le_run h (by omega))
    · intro e he
      exact hpipe e (run_entry h (by omega) hid he)

/-- When a close of a pipe returns, every stream that was registered for the pipe when the call came to walk the table
has been stopped, whatever else went on meanwhile. -/
theorem close_severs (engine : SyncEngine env sealing room) (before ls : List PipeLabel)
    (hlen : before.length + ls.length < 2 ^ 64) {j : Nat} {pipeId : ShortId} {ok : Bool}
    (hcall : ((start engine).run before).calls[j]? = some (.collect pipeId))
    (hreturned : (((start engine).run before).run ls).calls[j]? = some (.returned ok)) {i id : Nat}
    {st₀ st : PipeStream} (hst₀ : ((start engine).run before).streams[i]? = some st₀)
    (hsession : st₀.session = some (pipeId, id))
    (hst : (((start engine).run before).run ls).streams[i]? = some st) : st.running = false := by
  have hsupervised := Supervised.of_run engine before (by omega)
  have hafter := hsupervised.run ls hlen
  have hpipe : ∀ e, ((start engine).run before).sessions.sessions.get? id = some e → e.pipeId = pipeId := by
    intro e he
    obtain ⟨st', hst', hsession', -⟩ := hsupervised.entry he
    have hsame := hsupervised.once hst₀ hst' hsession hsession' rfl
    rw [← hsame, hst₀] at hst'
    cases hst'
    rw [hsession] at hsession'
    exact (congrArg Prod.fst (Option.some.inj hsession')).symm
  have hreaches := CloseReaches.run hsupervised (Or.inl hcall) (hsupervised.issued hst₀ hsession) hpipe ls hlen
  have hgone : (((start engine).run before).run ls).sessions.sessions.get? id = none := by
    rcases hreaches with hcollect | ⟨ids, htear, -⟩ | ⟨-, hgone⟩
    · rw [hreturned] at hcollect
      cases hcollect
    · rw [hreturned] at htear
      cases htear
    · exact hgone
  by_contra hrun
  have hrun : st.running = true := by simpa using hrun
  obtain ⟨e, he, -⟩ := hafter.held hst (running_of_registered hst₀ hsession hst hrun).1 hrun
  rw [hgone] at he
  cases he

/-- The close severs the session itself. -/
theorem close_severs_closing :
    ((start (Toy.run Toy.pipeRoom)).run Toy.closing).streams[0]? = some Toy.forwarded ∧
    ∀ st, (((start (Toy.run Toy.pipeRoom)).run Toy.closing).run
      [.owner 1 [0], .owner 1 [], .owner 1 []]).streams[0]? = some st → st.running = false := by
  obtain ⟨-, ⟨-, -, hstreams, -⟩, hcall, hreturned⟩ := Toy.watched_computed
  have hst₀ : ((start (Toy.run Toy.pipeRoom)).run Toy.closing).streams[0]? = some Toy.forwarded := by
    rw [hstreams, List.getElem?_cons_zero]
  exact ⟨hst₀, fun st hst => close_severs (Toy.run Toy.pipeRoom) Toy.closing _ (by decide) hcall hreturned hst₀ rfl hst⟩

end PipePlane

end IrohRooms
