import IrohRooms.Net.PipeSupervision

/-!
# What lets a stream through

A stream that got past the gate was let through by reads made in order along the run (`PipeStream.Backed`): the snapshot
admitted its connection, and then the registry had a target for the pipe, the engine knew no close of it, its
announcement was read, and a snapshot allowed the device by that announcement.
-/

namespace IrohRooms

open Moments

variable {env : Env} {sealing : Sealing} {room : RoomId}

namespace PipePlane

variable {p : PipePlane env sealing room}

/-! ### The reads of a gate -/

def Admits (device : DeviceKey) (p : PipePlane env sealing room) : Prop :=
  stage1Reject (some p.engine.snapshot) device = none

def Targets (pipeId : ShortId) (target : SocketAddr) (p : PipePlane env sealing room) : Prop :=
  p.registry.target pipeId = some target

def Unclosed (pipeId : ShortId) (p : PipePlane env sealing room) : Prop := p.engine.pipeIsClosed pipeId = false

def Governs (pipeId : ShortId) (opened : PipeOpened) (p : PipePlane env sealing room) : Prop :=
  p.engine.pipeOpened pipeId = some opened

def Allows (device : DeviceKey) (opened : PipeOpened) (nowMs : Nat) (p : PipePlane env sealing room) : Prop :=
  pipeConnectAllowed p.engine.snapshot device opened (some nowMs) = .accept

/-- What has been read when the gate stands at a point. -/
def passed (pipeId : ShortId) : GatePoint → List (PipePlane env sealing room → Prop)
  | .atTarget => []
  | .atClosed target => [Targets pipeId target]
  | .atOpened target => [Targets pipeId target, Unclosed pipeId]
  | .atSnapshot target opened => [Targets pipeId target, Unclosed pipeId, Governs pipeId opened]

/-- The four reads of a gate that accepts. -/
def granting (device : DeviceKey) (pipeId : ShortId) (nowMs : Nat) (target : SocketAddr) (opened : PipeOpened) :
    List (PipePlane env sealing room → Prop) :=
  [Targets pipeId target, Unclosed pipeId, Governs pipeId opened, Allows device opened nowMs]

theorem query_pipeIsClosed {answered : Bool} {pipeId : ShortId} (h : (p.query answered).pipeIsClosed pipeId = false) :
    p.Unclosed pipeId := by
  cases answered with
  | true => exact h
  | false => cases h

theorem query_pipeOpened {answered : Bool} {pipeId : ShortId} {opened : PipeOpened}
    (h : (p.query answered).pipeOpened pipeId = some opened) : p.Governs pipeId opened := by
  cases answered with
  | true => exact h
  | false => cases h

theorem query_snapshot {answered : Bool} {snapshot : MembershipSnapshot}
    (h : (p.query answered).snapshot = some snapshot) : p.engine.snapshot = snapshot := by
  cases answered with
  | true => exact Option.some.inj h
  | false => cases h

theorem read_next {answered : Bool} {device : DeviceKey} {pipeId : ShortId} {nowMs : Nat} {point next : GatePoint}
    (h : point.read (p.query answered) p.registry device pipeId nowMs = .inl next) :
    ∃ P : PipePlane env sealing room → Prop, passed pipeId next = passed pipeId point ++ [P] ∧ P p := by
  cases point with
  | atTarget =>
    simp only [GatePoint.read] at h
    split at h
    · cases h
    · rename_i target htarget
      cases h
      exact ⟨_, rfl, htarget⟩
  | atClosed target =>
    simp only [GatePoint.read] at h
    split_ifs at h with hclosed
    cases h
    exact ⟨_, rfl, query_pipeIsClosed (Bool.eq_false_iff.mpr hclosed)⟩
  | atOpened target =>
    simp only [GatePoint.read] at h
    split at h
    · cases h
    · rename_i opened hopened
      cases h
      exact ⟨_, rfl, query_pipeOpened hopened⟩
  | atSnapshot target opened =>
    simp only [GatePoint.read] at h
    split at h
    · cases h
    · split at h
      · cases h
      · cases h

theorem read_accept {answered : Bool} {device : DeviceKey} {pipeId : ShortId} {nowMs : Nat} {point : GatePoint}
    {target : SocketAddr} (h : point.read (p.query answered) p.registry device pipeId nowMs = .inr (.accept target)) :
    ∃ opened, granting device pipeId nowMs target opened =
      (passed pipeId point ++ [Allows device opened nowMs] : List (PipePlane env sealing room → Prop)) ∧
      p.Allows device opened nowMs := by
  cases point with
  | atTarget =>
    simp only [GatePoint.read] at h
    split at h
    · cases h
    · cases h
  | atClosed target =>
    simp only [GatePoint.read] at h
    split_ifs at h
    cases h
  | atOpened target =>
    simp only [GatePoint.read] at h
    split at h
    · cases h
    · cases h
  | atSnapshot target opened =>
    simp only [GatePoint.read] at h
    split at h
    · cases h
    · rename_i snapshot hsnapshot
      split at h
      · rename_i hallowed
        cases h
        refine ⟨opened, rfl, ?_⟩
        unfold Allows
        rw [query_snapshot hsnapshot]
        exact hallowed
      · cases h

end PipePlane

namespace PipeStream

/-- The pipe that a stream has named, until it ends. -/
def pipe (st : PipeStream) : Option ShortId :=
  match st.phase with
  | .gate pipeId _ _ | .connect pipeId _ | .reply pipeId _ | .spliced pipeId _ _ _ => some pipeId
  | .hello | .ended => none

/-- The gate of the stream has made its first read. -/
def Underway (st : PipeStream) : Prop :=
  match st.phase with
  | .gate _ _ .atTarget | .hello | .ended => False
  | _ => True

theorem Underway.pipe {st : PipeStream} (h : st.Underway) : ∃ pipeId, st.pipe = some pipeId := by
  unfold Underway at h
  unfold PipeStream.pipe
  split at h
  · exact h.elim
  · exact h.elim
  · exact h.elim
  · rename_i hgate hhello hended
    split
    · exact ⟨_, rfl⟩
    · exact ⟨_, rfl⟩
    · exact ⟨_, rfl⟩
    · exact ⟨_, rfl⟩
    · rename_i hphase
      exact absurd hphase hhello
    · rename_i hphase
      exact absurd hphase hended

variable (base : DeviceKey → List (PipePlane env sealing room → Prop)) (s : PipePlane env sealing room)
  (ls : List PipeLabel)

/-- What a stream has been granted so far was read in order along the run, after `base`. -/
def Backed (st : PipeStream) : Prop :=
  match st.phase with
  | .hello => Met PipePlane.step (base st.device) s ls
  | .gate pipeId _ point => Met PipePlane.step (base st.device ++ PipePlane.passed pipeId point) s ls
  | .connect pipeId target | .reply pipeId target | .spliced pipeId target _ _ => ∃ nowMs opened,
      Met PipePlane.step (base st.device ++ PipePlane.granting st.device pipeId nowMs target opened) s ls
  | .ended => True

variable {base s ls} {st : PipeStream}

theorem Backed.append (h : st.Backed base s ls) (more : List PipeLabel) : st.Backed base s (ls ++ more) := by
  unfold Backed at h ⊢
  split at h
  · exact h.append more
  · exact h.append more
  · obtain ⟨nowMs, opened, hmet⟩ := h
    exact ⟨nowMs, opened, hmet.append more⟩
  · obtain ⟨nowMs, opened, hmet⟩ := h
    exact ⟨nowMs, opened, hmet.append more⟩
  · obtain ⟨nowMs, opened, hmet⟩ := h
    exact ⟨nowMs, opened, hmet.append more⟩
  · trivial

theorem Backed.finishSplice (h : st.Backed base s ls) : st.finishSplice.Backed base s ls := by
  unfold PipeStream.finishSplice
  split
  · rename_i pipeId target session running hphase
    rw [Backed, hphase] at h
    exact h
  · exact h

/-- A handler that makes a read adds it to what backs its stream. -/
theorem Backed.move (h : st.Backed base s ls) {f : PipeStream → PipeStream} (hf : StreamStep (s.run ls) f) :
    (f st).Backed base s ls := by
  cases hf with
  | hello sent nowMs =>
    show (st.readHello sent nowMs).Backed base s ls
    unfold readHello
    split
    · rename_i hphase
      rw [Backed, hphase] at h
      split
      · trivial
      · show Met _ (base st.device ++ []) s ls
        rw [List.append_nil]
        exact h
    · exact h
  | gate answered =>
    show (st.readGate _ _).Backed base s ls
    unfold readGate
    split
    · rename_i pipeId nowMs point hphase
      rw [Backed, hphase] at h
      split
      · rename_i next hread
        obtain ⟨P, hpassed, hP⟩ := PipePlane.read_next hread
        show Met _ (base st.device ++ PipePlane.passed pipeId next) s ls
        rw [hpassed, ← List.append_assoc]
        exact h.snoc hP
      · rename_i target hread
        obtain ⟨opened, hgranting, hallows⟩ := PipePlane.read_accept hread
        refine ⟨nowMs, opened, ?_⟩
        show Met _ (base st.device ++ PipePlane.granting st.device pipeId nowMs target opened) s ls
        rw [hgranting, ← List.append_assoc]
        exact h.snoc hallows
      · trivial
    · exact h
  | dialed ok =>
    show (st.connectTarget ok).Backed base s ls
    unfold connectTarget
    split
    · rename_i pipeId target hphase
      rw [Backed, hphase] at h
      split
      · exact h
      · trivial
    · exact h
  | accept ok =>
    show (st.writeAccept ok).Backed base s ls
    unfold writeAccept
    split
    · rename_i pipeId target hphase
      rw [Backed, hphase] at h
      split
      · exact h
      · trivial
    · exact h
  | finish => exact h.finishSplice

theorem pipe_finishSplice (st : PipeStream) : st.finishSplice.pipe = st.pipe := by
  unfold finishSplice
  split
  · rename_i hphase
    simp [pipe, hphase]
  · rfl

/-- A stream keeps the pipe it named until it ends. -/
theorem pipe_move {p : PipePlane env sealing room} {f : PipeStream → PipeStream} (hf : StreamStep p f)
    {pipeId : ShortId} (h : st.pipe = some pipeId) : (f st).pipe = some pipeId ∨ (f st).phase = .ended := by
  cases hf with
  | hello sent nowMs =>
    left
    show (st.readHello sent nowMs).pipe = some pipeId
    unfold readHello
    split
    · rename_i hphase
      simp [pipe, hphase] at h
    · exact h
  | gate answered =>
    show (st.readGate _ _).pipe = _ ∨ (st.readGate _ _).phase = _
    unfold readGate
    split
    · rename_i hphase
      rw [pipe, hphase] at h
      split
      · exact Or.inl h
      · exact Or.inl h
      · exact Or.inr rfl
    · exact Or.inl h
  | dialed ok =>
    show (st.connectTarget ok).pipe = _ ∨ (st.connectTarget ok).phase = _
    unfold connectTarget
    split
    · rename_i hphase
      rw [pipe, hphase] at h
      split
      · exact Or.inl h
      · exact Or.inr rfl
    · exact Or.inl h
  | accept ok =>
    show (st.writeAccept ok).pipe = _ ∨ (st.writeAccept ok).phase = _
    unfold writeAccept
    split
    · rename_i hphase
      rw [pipe, hphase] at h
      split
      · exact Or.inl h
      · exact Or.inr rfl
    · exact Or.inl h
  | finish => exact Or.inl (by rw [pipe_finishSplice, h])

end PipeStream

namespace PipePlane

/-- What may become of a stream in one step. -/
inductive Follows (p : PipePlane env sealing room) (st : PipeStream) : PipeStream → Prop
  | stays : Follows p st st
  | moves {f : PipeStream → PipeStream} (hf : StreamStep p f) : Follows p st (f st)
  | registers {pipeId : ShortId} {target : SocketAddr} {running : Bool}
    (hphase : st.phase = .spliced pipeId target none running) (id : Nat) :
    Follows p st { st with phase := .spliced pipeId target (some id) running }
  | ends : Follows p st { st with phase := .ended }

variable {p : PipePlane env sealing room}

theorem step_stream {l : PipeLabel} {i : Nat} {st' : PipeStream} (h : (p.step l).streams[i]? = some st') :
    (∃ st, p.streams[i]? = some st ∧ p.Follows st st') ∨ p.streams[i]? = none ∧
      ∃ c device, p.conns[c]? = some ⟨device, .serving⟩ ∧ st' = ⟨c, device, none, .hello⟩ := by
  cases p.step_change l with
  | same hstreams _ =>
    rw [hstreams] at h
    exact Or.inl ⟨st', h, .stays⟩
  | opened hserving hstreams _ =>
    rw [hstreams] at h
    by_cases hlt : i < p.streams.length
    · rw [List.getElem?_append_left hlt] at h
      exact Or.inl ⟨st', h, .stays⟩
    · rw [List.getElem?_append_right (Nat.le_of_not_lt hlt), List.getElem?_singleton] at h
      split_ifs at h
      exact Or.inr ⟨List.getElem?_eq_none (Nat.le_of_not_lt hlt), _, _, hserving, (Option.some.inj h).symm⟩
  | moved hmoves hstreams _ =>
    rw [hstreams, List.getElem?_modify] at h
    obtain ⟨st, hst, rfl⟩ := Option.map_eq_some_iff.mp h
    refine Or.inl ⟨st, hst, ?_⟩
    split
    · exact .moves hmoves
    · exact .stays
  | registered hst hphase hstreams _ =>
    rw [hstreams, getElem?_set_some hst] at h
    split_ifs at h with hij
    · cases h
      subst hij
      exact Or.inl ⟨_, hst, .registers hphase _⟩
    · exact Or.inl ⟨st', h, .stays⟩
  | reaped hst hphase hstreams _ =>
    rw [hstreams, getElem?_set_some hst] at h
    split_ifs at h with hij
    · cases h
      subst hij
      exact Or.inl ⟨_, hst, .ends⟩
    · exact Or.inl ⟨st', h, .stays⟩
  | torn _ hstreams _ =>
    rw [hstreams, List.getElem?_modify] at h
    obtain ⟨st, hst, rfl⟩ := Option.map_eq_some_iff.mp h
    refine Or.inl ⟨st, hst, ?_⟩
    split
    · exact .moves .finish
    · exact .stays

/-! ### Connections -/

theorem teardown_serving {id c : Nat} {device : DeviceKey}
    (h : (p.teardown id).conns[c]? = some ⟨device, .serving⟩) : p.conns[c]? = some ⟨device, .serving⟩ := by
  unfold teardown at h
  split at h
  · exact h
  · dsimp only at h
    rw [List.getElem?_modify] at h
    obtain ⟨conn, hconn, heq⟩ := Option.map_eq_some_iff.mp h
    split at heq
    · cases heq
    · rw [hconn, heq]

theorem admitConn_serving {i c : Nat} {answered : Bool} {device : DeviceKey}
    (h : (p.admitConn i answered).conns[c]? = some ⟨device, .serving⟩) :
    p.conns[c]? = some ⟨device, .serving⟩ ∨ p.Admits device := by
  unfold admitConn at h
  split at h
  · rename_i device' hadmitting
    split at h
    · dsimp only at h
      rw [List.getElem?_set] at h
      split_ifs at h
      · cases h
      · exact Or.inl h
    · rename_i hstage
      dsimp only at h
      rw [List.getElem?_set] at h
      split_ifs at h
      · cases h
        right
        cases answered with
        | true => exact hstage
        | false => cases hstage
      · exact Or.inl h
  · exact Or.inl h

theorem owner_serving {j c : Nat} {ids : List Nat} {device : DeviceKey}
    (h : (p.owner j ids).conns[c]? = some ⟨device, .serving⟩) : p.conns[c]? = some ⟨device, .serving⟩ := by
  unfold owner at h
  split at h
  · split at h
    · exact h
    · exact h
  · split at h
    · exact h
    · exact h
  · exact h
  · split at h
    · exact h
    · exact h
  · exact h
  · split at h
    · exact h
    · exact h
  · exact h
  · exact teardown_serving h
  · exact h
  · exact h

theorem watch_serving {answered : Bool} {c : Nat} {device : DeviceKey}
    (h : (p.watch answered).conns[c]? = some ⟨device, .serving⟩) : p.conns[c]? = some ⟨device, .serving⟩ := by
  unfold watch at h
  split at h
  · exact h
  · split at h
    · exact h
    · exact h
    · exact h
  · exact teardown_serving h

/-- A connection serves streams only after the snapshot admitted its device. -/
theorem step_serving {l : PipeLabel} {c : Nat} {device : DeviceKey}
    (h : (p.step l).conns[c]? = some ⟨device, .serving⟩) :
    p.conns[c]? = some ⟨device, .serving⟩ ∨ p.Admits device := by
  cases l with
  | connect device' =>
    left
    simp only [step] at h
    by_cases hlt : c < p.conns.length
    · rw [List.getElem?_append_left hlt] at h
      exact h
    · rw [List.getElem?_append_right (Nat.le_of_not_lt hlt), List.getElem?_singleton] at h
      split_ifs at h
      cases h
  | admitConn i answered => exact admitConn_serving h
  | watch answered => exact Or.inl (watch_serving h)
  | owner j ids => exact Or.inl (owner_serving h)
  | openStream i =>
    left
    simp only [step, openStream] at h
    split at h
    · exact h
    · exact h
  | register i nowMs =>
    left
    simp only [step, register] at h
    split at h
    · exact h
    · exact h
  | reap i =>
    left
    simp only [step, reap] at h
    split at h
    · exact h
    · exact h
  | tick nowMs live =>
    left
    simp only [step, tick] at h
    split at h
    · exact h
    · exact h
  | expose args drawn =>
    left
    simp only [step, expose] at h
    split at h
    · exact h
    · split at h
      · exact h
      · exact h
  | pump input => exact Or.inl h
  | hello i sent nowMs => exact Or.inl h
  | gate i answered => exact Or.inl h
  | dialed i ok => exact Or.inl h
  | accept i ok => exact Or.inl h
  | finish i => exact Or.inl h
  | close args => exact Or.inl h

/-! ### Runs -/

variable {base : DeviceKey → List (PipePlane env sealing room → Prop)} {s : PipePlane env sealing room}

theorem run_append (s : PipePlane env sealing room) (ls : List PipeLabel) (l : PipeLabel) :
    s.run (ls ++ [l]) = (s.run ls).step l := List.foldl_append ..

theorem serving_run (hconns : ∀ {c : Nat} {device}, s.conns[c]? = some ⟨device, .serving⟩ → Met step (base device) s [])
    (hbase : ∀ {device ls}, (s.run ls).Admits device → Met step (base device) s ls) (ls : List PipeLabel) {c : Nat}
    {device : DeviceKey} (h : (s.run ls).conns[c]? = some ⟨device, .serving⟩) : Met step (base device) s ls := by
  induction ls using List.reverseRecOn with
  | nil => exact hconns h
  | append_singleton ls l ih =>
    rw [run_append] at h
    rcases step_serving h with hserving | hadmits
    · exact (ih hserving).append [l]
    · exact (hbase hadmits).append [l]

/-- A stream is backed by reads along the run, or its gate was under way when the run began. -/
theorem backed_run (hconns : ∀ {c : Nat} {device}, s.conns[c]? = some ⟨device, .serving⟩ → Met step (base device) s [])
    (hbase : ∀ {device ls}, (s.run ls).Admits device → Met step (base device) s ls)
    (hstreams : ∀ {i : Nat} {st}, s.streams[i]? = some st → st.Backed base s [] ∨ st.Underway) (ls : List PipeLabel)
    {i : Nat} {st : PipeStream} (h : (s.run ls).streams[i]? = some st) :
    st.Backed base s ls ∨ ∃ st₀, s.streams[i]? = some st₀ ∧ st₀.Underway ∧ st.pipe = st₀.pipe := by
  induction ls using List.reverseRecOn generalizing st with
  | nil =>
    rcases hstreams h with hbacked | hunderway
    · exact Or.inl hbacked
    · exact Or.inr ⟨st, h, hunderway, rfl⟩
  | append_singleton ls l ih =>
    rw [run_append] at h
    rcases step_stream h with ⟨st', hst', hfollows⟩ | ⟨-, c, device, hserving, rfl⟩
    · rcases ih hst' with hbacked | ⟨st₀, hst₀, hunderway, hpipe⟩
      · left
        refine PipeStream.Backed.append ?_ [l]
        cases hfollows with
        | stays => exact hbacked
        | moves hf => exact hbacked.move hf
        | registers hphase id =>
          rw [PipeStream.Backed, hphase] at hbacked
          exact hbacked
        | ends => trivial
      · obtain ⟨pipeId, hpipe₀⟩ := hunderway.pipe
        rw [hpipe₀] at hpipe
        cases hfollows with
        | stays => exact Or.inr ⟨st₀, hst₀, hunderway, hpipe.trans hpipe₀.symm⟩
        | moves hf =>
          rcases PipeStream.pipe_move hf hpipe with hsame | hended
          · exact Or.inr ⟨st₀, hst₀, hunderway, hsame.trans hpipe₀.symm⟩
          · left
            rw [PipeStream.Backed, hended]
            trivial
        | registers hphase id =>
          refine Or.inr ⟨st₀, hst₀, hunderway, ?_⟩
          rw [PipeStream.pipe, hphase] at hpipe
          exact hpipe.trans hpipe₀.symm
        | ends => exact Or.inl trivial
    · exact Or.inl ((serving_run hconns hbase ls hserving).append [l])

/-- In every run a spliced stream was let through by reads in order, the first of which admitted its connection; it
forwards to a loopback address; and while it runs under a session, the table has that session and no other stream has
its number. -/
theorem spliced_supervised (engine : SyncEngine env sealing room) (ls : List PipeLabel) (hlen : ls.length < 2 ^ 64)
    {i : Nat} {st : PipeStream} {pipeId : ShortId} {target : SocketAddr} {session : Option Nat} {running : Bool}
    (hst : ((start engine).run ls).streams[i]? = some st)
    (hphase : st.phase = .spliced pipeId target session running) :
    (∃ nowMs opened, Met step (Admits st.device :: granting st.device pipeId nowMs target opened) (start engine) ls) ∧
      isLoopbackTarget target = true ∧
      ∀ id, session = some id →
        (running = true → ∃ entry, ((start engine).run ls).sessions.sessions.get? id = some entry ∧ entry.stream = i ∧
          entry.pipeId = pipeId ∧ entry.device = st.device ∧ entry.conn = st.conn) ∧
        ∀ j st', ((start engine).run ls).streams[j]? = some st' → st'.session = some (pipeId, id) → j = i := by
  have hgranted : ∃ nowMs opened,
      Met step (Admits st.device :: granting st.device pipeId nowMs target opened) (start engine) ls := by
    have hbacked : st.Backed (fun device => [Admits device]) (start engine) ls ∨
        ∃ st₀, (start engine).streams[i]? = some st₀ ∧ st₀.Underway ∧ st.pipe = st₀.pipe := by
      refine backed_run ?_ ?_ ?_ ls hst
      · intro c device h
        simp [start] at h
      · intro device ls h
        exact ⟨ls, [], (List.append_nil ls).symm, h, trivial⟩
      · intro j st' h
        simp [start] at h
    rcases hbacked with hbacked | ⟨st₀, hst₀, -⟩
    · rw [PipeStream.Backed, hphase] at hbacked
      exact hbacked
    · simp [start] at hst₀
  refine ⟨hgranted, ?_, ?_⟩
  · obtain ⟨nowMs, opened, hmet⟩ := hgranted
    obtain ⟨before, -, htarget⟩ := hmet.exists_of_mem (List.mem_cons_of_mem _ List.mem_cons_self)
    obtain ⟨pipe, hpipe, rfl⟩ := Option.map_eq_some_iff.mp htarget
    exact (PipeRegistry.filed _ hpipe).2
  · rintro id rfl
    have hsupervised := Supervised.of_run engine ls hlen
    have hsession : st.session = some (pipeId, id) := by simp [PipeStream.session, hphase]
    refine ⟨?_, ?_⟩
    · intro hrun
      obtain ⟨entry, hentry, rfl⟩ := hsupervised.held hst hsession (by simpa [PipeStream.running, hphase] using hrun)
      obtain ⟨st', hst', hsession', hdevice, hconn⟩ := hsupervised.entry hentry
      rw [hst] at hst'
      cases hst'
      rw [hsession] at hsession'
      cases hsession'
      exact ⟨entry, hentry, rfl, rfl, hdevice.symm, hconn.symm⟩
    · intro j st' hst' hsession'
      exact hsupervised.once hst' hst hsession' hsession rfl

end PipePlane

namespace Toy

def exposeArgs : ExposeArgs := ⟨idSeed 2, devSeed 2, loopback, "web", "localhost:3000", [identity 1], none, 106⟩

/-- Member 2 exposes pipe 7, and the admin's device connects to it. -/
def forwarding : List PipeLabel :=
  [.expose exposeArgs 7, .owner 0 [], .connect (device 1), .admitConn 0 true, .openStream 0,
    .hello 0 (PipeHello.encode ⟨7⟩) 0, .gate 0 true, .gate 0 true, .gate 0 true, .gate 0 true, .dialed 0 true,
    .accept 0 true, .register 0 0]

def forwarded : PipeStream := ⟨0, device 1, some pipeAccept, .spliced 7 loopback (some 0) true⟩

end Toy

theorem PipePlane.spliced_supervised_forwarding :
    (((start (Toy.run Toy.pipeRoom)).run Toy.forwarding).streams[0]? = some Toy.forwarded) ∧
    (∃ nowMs opened, Met step (Admits (Toy.device 1) :: granting (Toy.device 1) 7 nowMs Toy.loopback opened)
      (start (Toy.run Toy.pipeRoom)) Toy.forwarding) ∧
    ∃ entry, ((start (Toy.run Toy.pipeRoom)).run Toy.forwarding).sessions.sessions.get? 0 = some entry ∧
      entry.stream = 0 ∧ entry.pipeId = 7 := by
  have hst : ((start (Toy.run Toy.pipeRoom)).run Toy.forwarding).streams[0]? = some Toy.forwarded := by decide +kernel
  obtain ⟨hgranted, -, hsession⟩ := spliced_supervised (Toy.run Toy.pipeRoom) Toy.forwarding (by decide) hst rfl
  obtain ⟨entry, hentry, hstream, hpipe, -⟩ := (hsession 0 rfl).1 rfl
  exact ⟨hst, hgranted, entry, hentry, hstream, hpipe⟩

end IrohRooms
