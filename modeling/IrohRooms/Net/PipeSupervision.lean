import IrohRooms.Net.PipePlane

/-!
# Every forwarded session is in the table

What a step does to the streams and the table of sessions is said once (`PipePlane.step_change`). From it, over any run:
a splice task that runs and is registered stands in the table under its own number, so the watcher and a close can
sever it (`Supervised`).
-/

namespace IrohRooms

variable {env : Env} {sealing : Sealing} {room : RoomId}

namespace PipeStream

/-- The pipe and the session of a registered stream. -/
def session (st : PipeStream) : Option (ShortId × Nat) :=
  match st.phase with
  | .spliced pipeId _ (some id) _ => some (pipeId, id)
  | _ => none

def running (st : PipeStream) : Bool :=
  match st.phase with
  | .spliced _ _ _ running => running
  | _ => false

end PipeStream

/-- What the handler of a stream may do by itself. -/
inductive StreamStep (p : PipePlane env sealing room) : (PipeStream → PipeStream) → Prop
  | hello (sent : Bytes) (nowMs : Nat) : StreamStep p fun st => st.readHello sent nowMs
  | gate (answered : Bool) : StreamStep p fun st => st.readGate (p.query answered) p.registry
  | dialed (ok : Bool) : StreamStep p fun st => st.connectTarget ok
  | accept (ok : Bool) : StreamStep p fun st => st.writeAccept ok
  | finish : StreamStep p PipeStream.finishSplice

/-- The handler of a stream by itself leaves its connection, and what is registered stays registered and does not start
to run again. -/
structure PipeStream.Steady (st st' : PipeStream) : Prop where
  conn : st'.conn = st.conn
  device : st'.device = st.device
  session : st'.session = st.session
  running : ∀ x, st'.session = some x → st'.running = true → st.running = true

theorem PipeStream.Steady.refl (st : PipeStream) : st.Steady st := ⟨rfl, rfl, rfl, fun _ _ h => h⟩

theorem PipeStream.Steady.finishSplice (st : PipeStream) : st.Steady st.finishSplice := by
  unfold PipeStream.finishSplice
  split
  · rename_i pipeId target session running hphase
    refine ⟨rfl, rfl, ?_, ?_⟩
    · cases session with
      | none => simp [PipeStream.session, hphase]
      | some id => simp [PipeStream.session, hphase]
    · intro x _ hrun
      simp [PipeStream.running] at hrun
  · exact .refl st

theorem PipeStream.Steady.of_unregistered {st st' : PipeStream} (hconn : st'.conn = st.conn)
    (hdevice : st'.device = st.device) (hst : st.session = none) (hst' : st'.session = none) : st.Steady st' := by
  refine ⟨hconn, hdevice, hst'.trans hst.symm, ?_⟩
  intro x hx
  rw [hst'] at hx
  cases hx

theorem StreamStep.steady {p : PipePlane env sealing room} {f : PipeStream → PipeStream} (h : StreamStep p f)
    (st : PipeStream) : st.Steady (f st) := by
  cases h with
  | hello sent nowMs =>
    show st.Steady (st.readHello sent nowMs)
    unfold PipeStream.readHello
    split
    · rename_i hphase
      split
      · exact .of_unregistered rfl rfl (by simp [PipeStream.session, hphase]) rfl
      · exact .of_unregistered rfl rfl (by simp [PipeStream.session, hphase]) rfl
    · exact .refl st
  | gate answered =>
    show st.Steady (st.readGate (p.query answered) p.registry)
    unfold PipeStream.readGate
    split
    · rename_i hphase
      split
      · exact .of_unregistered rfl rfl (by simp [PipeStream.session, hphase]) rfl
      · exact .of_unregistered rfl rfl (by simp [PipeStream.session, hphase]) rfl
      · exact .of_unregistered rfl rfl (by simp [PipeStream.session, hphase]) rfl
    · exact .refl st
  | dialed ok =>
    show st.Steady (st.connectTarget ok)
    unfold PipeStream.connectTarget
    split
    · rename_i hphase
      split
      · exact .of_unregistered rfl rfl (by simp [PipeStream.session, hphase]) rfl
      · exact .of_unregistered rfl rfl (by simp [PipeStream.session, hphase]) rfl
    · exact .refl st
  | accept ok =>
    show st.Steady (st.writeAccept ok)
    unfold PipeStream.writeAccept
    split
    · rename_i hphase
      split
      · exact .of_unregistered rfl rfl (by simp [PipeStream.session, hphase]) rfl
      · exact .of_unregistered rfl rfl (by simp [PipeStream.session, hphase]) rfl
    · exact .refl st
  | finish => exact .finishSplice st

namespace PipePlane

/-- What a step may do to the streams and the table of sessions. -/
inductive Change (p q : PipePlane env sealing room) : Prop
  | same (streams : q.streams = p.streams) (sessions : q.sessions = p.sessions)
  | opened {c : Nat} {device : DeviceKey} (serving : p.conns[c]? = some ⟨device, .serving⟩)
    (streams : q.streams = p.streams ++ [⟨c, device, none, .hello⟩]) (sessions : q.sessions = p.sessions)
  | moved {i : Nat} {f : PipeStream → PipeStream} (moves : StreamStep p f)
    (streams : q.streams = p.streams.modify i f) (sessions : q.sessions = p.sessions)
  | registered {i since : Nat} {st : PipeStream} {pipeId : ShortId} {target : SocketAddr} {running : Bool}
    (stream : p.streams[i]? = some st) (phase : st.phase = .spliced pipeId target none running)
    (streams : q.streams =
      p.streams.set i { st with phase := .spliced pipeId target (some p.sessions.next) running })
    (sessions : q.sessions = (p.sessions.register ⟨st.device, pipeId, since, st.conn, i⟩).1)
  | reaped {i id : Nat} {st : PipeStream} {pipeId : ShortId} {target : SocketAddr}
    (stream : p.streams[i]? = some st) (phase : st.phase = .spliced pipeId target (some id) false)
    (streams : q.streams = p.streams.set i { st with phase := .ended })
    (sessions : q.sessions = p.sessions.deregister id)
  | torn {id : Nat} {entry : SessionEntry} (held : p.sessions.sessions.get? id = some entry)
    (streams : q.streams = p.streams.modify entry.stream PipeStream.finishSplice)
    (sessions : q.sessions = p.sessions.deregister id)

variable {p : PipePlane env sealing room}

theorem teardown_change (id : Nat) {q : PipePlane env sealing room} (hstreams : q.streams = (p.teardown id).streams)
    (hsessions : q.sessions = (p.teardown id).sessions) : p.Change q := by
  unfold teardown at hstreams hsessions
  cases hget : p.sessions.sessions.get? id with
  | none =>
    rw [hget] at hstreams hsessions
    exact .same hstreams hsessions
  | some entry =>
    rw [hget] at hstreams hsessions
    exact .torn hget hstreams hsessions

theorem register_change (i nowMs : Nat) : p.Change (p.register i nowMs) := by
  unfold register
  split
  · rename_i conn device reply pipeId target running hst
    exact .registered hst rfl rfl rfl
  · exact .same rfl rfl

theorem reap_change (i : Nat) : p.Change (p.reap i) := by
  unfold reap
  split
  · rename_i conn device reply pipeId target id hst
    exact .reaped hst rfl rfl rfl
  · exact .same rfl rfl

theorem admitConn_change (c : Nat) (answered : Bool) : p.Change (p.admitConn c answered) := by
  unfold admitConn
  split
  · split
    · exact .same rfl rfl
    · exact .same rfl rfl
  · exact .same rfl rfl

theorem openStream_change (c : Nat) : p.Change (p.openStream c) := by
  unfold openStream
  split
  · rename_i device hserving
    exact .opened hserving rfl rfl
  · exact .same rfl rfl

theorem watch_change (answered : Bool) : p.Change (p.watch answered) := by
  unfold watch
  split
  · exact .same rfl rfl
  · split
    · exact .same rfl rfl
    · exact .same rfl rfl
    · exact .same rfl rfl
  · rename_i session cause rest hwatcher
    exact teardown_change session.id rfl rfl

theorem tick_change (nowMs : Nat) (live : List LiveSession) : p.Change (p.tick nowMs live) := by
  unfold tick
  split
  · exact .same rfl rfl
  · exact .same rfl rfl

theorem expose_change (args : ExposeArgs) (drawn : ShortId) : p.Change (p.expose args drawn) := by
  unfold expose
  split
  · exact .same rfl rfl
  · dsimp only
    split
    · exact .same rfl rfl
    · exact .same rfl rfl

theorem owner_change (j : Nat) (ids : List Nat) : p.Change (p.owner j ids) := by
  unfold owner
  split
  · split
    · exact .same rfl rfl
    · exact .same rfl rfl
  · split
    · exact .same rfl rfl
    · exact .same rfl rfl
  · exact .same rfl rfl
  · split
    · exact .same rfl rfl
    · exact .same rfl rfl
  · exact .same rfl rfl
  · split
    · exact .same rfl rfl
    · exact .same rfl rfl
  · exact .same rfl rfl
  · rename_i id rest hcall
    exact teardown_change id rfl rfl
  · exact .same rfl rfl
  · exact .same rfl rfl

theorem step_change (p : PipePlane env sealing room) (l : PipeLabel) : p.Change (p.step l) := by
  cases l with
  | pump input => exact .same rfl rfl
  | connect device => exact .same rfl rfl
  | admitConn c answered => exact admitConn_change c answered
  | openStream c => exact openStream_change c
  | hello i sent nowMs => exact .moved (.hello sent nowMs) rfl rfl
  | gate i answered => exact .moved (.gate answered) rfl rfl
  | dialed i ok => exact .moved (.dialed ok) rfl rfl
  | accept i ok => exact .moved (.accept (ok && p.isOpen i)) rfl rfl
  | register i nowMs => exact register_change i nowMs
  | finish i => exact .moved .finish rfl rfl
  | reap i => exact reap_change i
  | tick nowMs live => exact tick_change nowMs live
  | watch answered => exact watch_change answered
  | expose args drawn => exact expose_change args drawn
  | close args => exact .same rfl rfl
  | owner j ids => exact owner_change j ids

/-! ### Supervision -/

theorem getElem?_modify_steady {l : List PipeStream} {f : PipeStream → PipeStream}
    (hf : ∀ st : PipeStream, st.Steady (f st)) {i j : Nat} {st' : PipeStream} (h : (l.modify i f)[j]? = some st') :
    ∃ st, l[j]? = some st ∧ st.Steady st' := by
  rw [List.getElem?_modify] at h
  obtain ⟨st, hst, rfl⟩ := Option.map_eq_some_iff.mp h
  refine ⟨st, hst, ?_⟩
  split
  · exact hf st
  · exact .refl st

theorem getElem?_set_some {l : List PipeStream} {i : Nat} {st a : PipeStream} (h : l[i]? = some st) (j : Nat) :
    (l.set i a)[j]? = if i = j then some a else l[j]? := by
  obtain ⟨hlt, -⟩ := List.getElem?_eq_some_iff.mp h
  rw [List.getElem?_set]
  by_cases hij : i = j
  · subst hij
    simp [hlt]
  · simp [hij]

/-- After `n` steps: a registered stream that runs stands in the table under its own number, and every entry of the
table is a registered stream. -/
structure Supervised (n : Nat) (p : PipePlane env sealing room) : Prop where
  counted : p.sessions.next ≤ n
  issued : ∀ {i : Nat} {st : PipeStream} {x : ShortId × Nat}, p.streams[i]? = some st → st.session = some x →
    x.2 < p.sessions.next
  once : ∀ {i j : Nat} {st st' : PipeStream} {x x' : ShortId × Nat}, p.streams[i]? = some st →
    p.streams[j]? = some st' → st.session = some x → st'.session = some x' → x.2 = x'.2 → i = j
  entry : ∀ {id : Nat} {e : SessionEntry}, p.sessions.sessions.get? id = some e → ∃ st,
    p.streams[e.stream]? = some st ∧ st.session = some (e.pipeId, id) ∧ st.device = e.device ∧ st.conn = e.conn
  held : ∀ {i : Nat} {st : PipeStream} {x : ShortId × Nat}, p.streams[i]? = some st → st.session = some x →
    st.running = true → ∃ e, p.sessions.sessions.get? x.2 = some e ∧ e.stream = i

namespace Supervised

variable {n : Nat} {q : PipePlane env sealing room}

theorem start (engine : SyncEngine env sealing room) : Supervised 0 (PipePlane.start engine) := by
  refine ⟨Nat.le_refl _, ?_, ?_, ?_, ?_⟩
  · intro i st x hst
    simp [PipePlane.start] at hst
  · intro i j st st' x x' hst
    simp [PipePlane.start] at hst
  · intro id e he
    simp [PipePlane.start, PipeSessions.new] at he
  · intro i st x hst
    simp [PipePlane.start] at hst

/-- Streams that moved by themselves, some of them perhaps new, beside a table that is as before. -/
theorem steady (h : Supervised n p) (hsessions : q.sessions = p.sessions)
    (hback : ∀ {j : Nat} {st' : PipeStream} {x : ShortId × Nat}, q.streams[j]? = some st' → st'.session = some x →
      ∃ st, p.streams[j]? = some st ∧ st.Steady st')
    (hforth : ∀ {j : Nat} {st : PipeStream}, p.streams[j]? = some st →
      ∃ st', q.streams[j]? = some st' ∧ st.Steady st') : Supervised n q := by
  refine ⟨?_, ?_, ?_, ?_, ?_⟩
  · rw [hsessions]
    exact h.counted
  · intro i st x hst hx
    obtain ⟨st₀, hst₀, hsteady⟩ := hback hst hx
    rw [hsessions]
    exact h.issued hst₀ (hsteady.session.symm.trans hx)
  · intro i j st st' x x' hst hst' hx hx' heq
    obtain ⟨st₀, hst₀, hsteady⟩ := hback hst hx
    obtain ⟨st₁, hst₁, hsteady'⟩ := hback hst' hx'
    exact h.once hst₀ hst₁ (hsteady.session.symm.trans hx) (hsteady'.session.symm.trans hx') heq
  · intro id e he
    rw [hsessions] at he
    obtain ⟨st, hst, hsession, hdevice, hconn⟩ := h.entry he
    obtain ⟨st', hst', hsteady⟩ := hforth hst
    exact ⟨st', hst', hsteady.session.trans hsession, hsteady.device.trans hdevice, hsteady.conn.trans hconn⟩
  · intro i st x hst hx hrun
    obtain ⟨st₀, hst₀, hsteady⟩ := hback hst hx
    rw [hsessions]
    exact h.held hst₀ (hsteady.session.symm.trans hx) (hsteady.running x hx hrun)

theorem moved (h : Supervised n p) {i : Nat} {f : PipeStream → PipeStream} (hf : ∀ st : PipeStream, st.Steady (f st))
    (hstreams : q.streams = p.streams.modify i f) (hsessions : q.sessions = p.sessions) : Supervised n q := by
  apply h.steady hsessions
  · intro j st' x hst' _
    rw [hstreams] at hst'
    exact getElem?_modify_steady hf hst'
  · intro j st hst
    refine ⟨if i = j then f st else st, ?_, ?_⟩
    · rw [hstreams, List.getElem?_modify, hst]
      rfl
    · split
      · exact hf st
      · exact .refl st

theorem opened (h : Supervised n p) {c : Nat} {device : DeviceKey}
    (hstreams : q.streams = p.streams ++ [⟨c, device, none, .hello⟩]) (hsessions : q.sessions = p.sessions) :
    Supervised n q := by
  apply h.steady hsessions
  · intro j st' x hst' hx
    rw [hstreams] at hst'
    by_cases hlt : j < p.streams.length
    · rw [List.getElem?_append_left hlt] at hst'
      exact ⟨st', hst', .refl st'⟩
    · -- the new stream has no session yet
      rw [List.getElem?_append_right (Nat.le_of_not_lt hlt), List.getElem?_singleton] at hst'
      split_ifs at hst'
      cases hst'
      simp [PipeStream.session] at hx
  · intro j st hst
    refine ⟨st, ?_, .refl st⟩
    rw [hstreams, List.getElem?_append_left (List.getElem?_eq_some_iff.mp hst).1, hst]

/-- A stream takes the next number, which no other one has. -/
theorem registered (h : Supervised n p) (hn : n + 1 < 2 ^ 64) {i since : Nat} {st : PipeStream} {pipeId : ShortId}
    {target : SocketAddr} {running : Bool} (hst : p.streams[i]? = some st)
    (hphase : st.phase = .spliced pipeId target none running)
    (hstreams : q.streams =
      p.streams.set i { st with phase := .spliced pipeId target (some p.sessions.next) running })
    (hsessions : q.sessions = (p.sessions.register ⟨st.device, pipeId, since, st.conn, i⟩).1) :
    Supervised (n + 1) q := by
  have hnext : q.sessions.next = p.sessions.next + 1 := by
    rw [hsessions]
    exact Nat.mod_eq_of_lt (by have := h.counted; omega)
  have hget : ∀ id, q.sessions.sessions.get? id =
      if id = p.sessions.next then some ⟨st.device, pipeId, since, st.conn, i⟩ else p.sessions.sessions.get? id := by
    intro id
    rw [hsessions]
    exact OrdMap.get?_insert _ _ _ _
  have hstream : ∀ j, q.streams[j]? = if i = j then
      some { st with phase := .spliced pipeId target (some p.sessions.next) running } else p.streams[j]? := by
    intro j
    rw [hstreams]
    exact getElem?_set_some hst j
  have hbefore : ∀ {j : Nat} {st' : PipeStream} {x : ShortId × Nat}, q.streams[j]? = some st' →
      st'.session = some x → (j = i ∧ x = (pipeId, p.sessions.next) ∧ st'.running = running) ∨
        (j ≠ i ∧ p.streams[j]? = some st' ∧ x.2 < p.sessions.next) := by
    intro j st' x hst' hx
    rw [hstream] at hst'
    split_ifs at hst' with hij
    · cases hst'
      exact Or.inl ⟨hij.symm, (Option.some.inj hx).symm, rfl⟩
    · exact Or.inr ⟨fun h => hij h.symm, hst', h.issued hst' hx⟩
  refine ⟨?_, ?_, ?_, ?_, ?_⟩
  · have := h.counted
    omega
  · intro j st' x hst' hx
    rcases hbefore hst' hx with ⟨-, rfl, -⟩ | ⟨-, -, hlt⟩
    · show p.sessions.next < _
      omega
    · omega
  · intro j k st₁ st₂ x₁ x₂ hst₁ hst₂ hx₁ hx₂ heq
    rcases hbefore hst₁ hx₁ with ⟨rfl, rfl, -⟩ | ⟨-, hold₁, hlt₁⟩
    · rcases hbefore hst₂ hx₂ with ⟨rfl, -, -⟩ | ⟨-, -, hlt₂⟩
      · rfl
      · exact absurd heq hlt₂.ne'
    · rcases hbefore hst₂ hx₂ with ⟨rfl, rfl, -⟩ | ⟨-, hold₂, -⟩
      · exact absurd heq hlt₁.ne
      · exact h.once hold₁ hold₂ hx₁ hx₂ heq
  · intro id e he
    rw [hget] at he
    split_ifs at he with hid
    · cases he
      refine ⟨{ st with phase := .spliced pipeId target (some p.sessions.next) running }, ?_, ?_, rfl, rfl⟩
      · rw [hstream, if_pos rfl]
      · rw [hid]
        rfl
    · obtain ⟨st₀, hst₀, hsession, hdevice, hconn⟩ := h.entry he
      have hne : i ≠ e.stream := by
        rintro rfl
        rw [hst] at hst₀
        cases hst₀
        simp [PipeStream.session, hphase] at hsession
      exact ⟨st₀, by rw [hstream, if_neg hne, hst₀], hsession, hdevice, hconn⟩
  · intro j st' x hst' hx hrun
    rcases hbefore hst' hx with ⟨rfl, rfl, -⟩ | ⟨-, hold, hlt⟩
    · exact ⟨_, by rw [hget, if_pos rfl], rfl⟩
    · obtain ⟨e, he, hstr⟩ := h.held hold hx hrun
      exact ⟨e, by rw [hget, if_neg hlt.ne, he], hstr⟩

/-- A session is dropped from the table while no stream runs under its number any more. -/
theorem dropped (h : Supervised n p) {id : Nat} (hsessions : q.sessions = p.sessions.deregister id)
    (hback : ∀ {j : Nat} {st' : PipeStream} {x : ShortId × Nat}, q.streams[j]? = some st' → st'.session = some x →
      ∃ st, p.streams[j]? = some st ∧ st.Steady st' ∧ (x.2 = id → st'.running = false))
    (hforth : ∀ {j : Nat} {st : PipeStream} {x : ShortId × Nat}, p.streams[j]? = some st → st.session = some x →
      x.2 ≠ id → ∃ st', q.streams[j]? = some st' ∧ st.Steady st') : Supervised n q := by
  have hget : ∀ id', q.sessions.sessions.get? id' = if id' = id then none else p.sessions.sessions.get? id' := by
    intro id'
    rw [hsessions]
    exact OrdMap.get?_erase _ _ _
  refine ⟨?_, ?_, ?_, ?_, ?_⟩
  · rw [hsessions]
    exact h.counted
  · intro i st x hst hx
    obtain ⟨st₀, hst₀, hsteady, -⟩ := hback hst hx
    rw [hsessions]
    exact h.issued hst₀ (hsteady.session.symm.trans hx)
  · intro i j st st' x x' hst hst' hx hx' heq
    obtain ⟨st₀, hst₀, hsteady, -⟩ := hback hst hx
    obtain ⟨st₁, hst₁, hsteady', -⟩ := hback hst' hx'
    exact h.once hst₀ hst₁ (hsteady.session.symm.trans hx) (hsteady'.session.symm.trans hx') heq
  · intro id' e he
    rw [hget] at he
    split_ifs at he with hid
    obtain ⟨st, hst, hsession, hdevice, hconn⟩ := h.entry he
    obtain ⟨st', hst', hsteady⟩ := hforth hst hsession hid
    exact ⟨st', hst', hsteady.session.trans hsession, hsteady.device.trans hdevice, hsteady.conn.trans hconn⟩
  · intro i st x hst hx hrun
    obtain ⟨st₀, hst₀, hsteady, hstopped⟩ := hback hst hx
    have hid : x.2 ≠ id := fun hid => by simp [hstopped hid] at hrun
    rw [hget, if_neg hid]
    exact h.held hst₀ (hsteady.session.symm.trans hx) (hsteady.running x hx hrun)

theorem torn (h : Supervised n p) {id : Nat} {entry : SessionEntry} (hheld : p.sessions.sessions.get? id = some entry)
    (hstreams : q.streams = p.streams.modify entry.stream PipeStream.finishSplice)
    (hsessions : q.sessions = p.sessions.deregister id) : Supervised n q := by
  apply h.dropped hsessions
  · intro j st' x hst' hx
    rw [hstreams, List.getElem?_modify] at hst'
    obtain ⟨st, hst, rfl⟩ := Option.map_eq_some_iff.mp hst'
    refine ⟨st, hst, ?_, ?_⟩
    · split
      · exact .finishSplice st
      · exact .refl st
    · intro hid
      split_ifs at hx ⊢ with hj
      · unfold PipeStream.finishSplice PipeStream.running
        split
        · rename_i hphase
          split at hphase
          · cases hphase
            rfl
          · rename_i hother
            exact absurd hphase (hother _ _ _ _)
        · rfl
      · -- a stream that ran under this number would be the one of the entry
        by_contra hrun
        obtain ⟨e, he, hstream⟩ := h.held hst hx (by simpa using hrun)
        rw [hid, hheld] at he
        cases he
        exact hj hstream
  · intro j st x hst _ _
    refine ⟨if entry.stream = j then st.finishSplice else st, ?_, ?_⟩
    · rw [hstreams, List.getElem?_modify, hst]
      rfl
    · split
      · exact .finishSplice st
      · exact .refl st

theorem reaped (h : Supervised n p) {i id : Nat} {st : PipeStream} {pipeId : ShortId} {target : SocketAddr}
    (hst : p.streams[i]? = some st) (hphase : st.phase = .spliced pipeId target (some id) false)
    (hstreams : q.streams = p.streams.set i { st with phase := .ended })
    (hsessions : q.sessions = p.sessions.deregister id) : Supervised n q := by
  have hsession : st.session = some (pipeId, id) := by simp [PipeStream.session, hphase]
  apply h.dropped hsessions
  · intro j st' x hst' hx
    rw [hstreams, getElem?_set_some hst] at hst'
    split_ifs at hst' with hij
    · cases hst'
      simp [PipeStream.session] at hx
    · exact ⟨st', hst', .refl st', fun hid => absurd (h.once hst hst' hsession hx hid.symm) hij⟩
  · intro j st' x hst' hx hid
    refine ⟨st', ?_, .refl st'⟩
    rw [hstreams, getElem?_set_some hst, if_neg ?_, hst']
    rintro rfl
    rw [hst] at hst'
    cases hst'
    rw [hsession] at hx
    cases hx
    exact hid rfl

theorem mono (h : Supervised n p) {m : Nat} (hm : n ≤ m) : Supervised m p :=
  ⟨h.counted.trans hm, h.issued, h.once, h.entry, h.held⟩

theorem step (h : Supervised n p) (hn : n + 1 < 2 ^ 64) (l : PipeLabel) : Supervised (n + 1) (p.step l) := by
  cases p.step_change l with
  | same hstreams hsessions =>
    refine (h.steady hsessions ?_ ?_).mono (Nat.le_succ n)
    · intro j st' x hst' _
      rw [hstreams] at hst'
      exact ⟨st', hst', .refl st'⟩
    · intro j st hst
      exact ⟨st, by rw [hstreams, hst], .refl st⟩
  | opened _ hstreams hsessions => exact (h.opened hstreams hsessions).mono (Nat.le_succ n)
  | moved hmoves hstreams hsessions => exact (h.moved hmoves.steady hstreams hsessions).mono (Nat.le_succ n)
  | registered hst hphase hstreams hsessions => exact h.registered hn hst hphase hstreams hsessions
  | reaped hst hphase hstreams hsessions => exact (h.reaped hst hphase hstreams hsessions).mono (Nat.le_succ n)
  | torn hheld hstreams hsessions => exact (h.torn hheld hstreams hsessions).mono (Nat.le_succ n)

theorem run (h : Supervised n p) (ls : List PipeLabel) (hn : n + ls.length < 2 ^ 64) :
    Supervised (n + ls.length) (p.run ls) := by
  induction ls generalizing n p with
  | nil => exact h
  | cons l ls ih =>
    rw [List.length_cons] at hn
    have hrun := ih (h.step (by omega) l) (by omega)
    rw [List.length_cons, ← Nat.add_assoc, Nat.add_right_comm]
    exact hrun

theorem of_run (engine : SyncEngine env sealing room) (ls : List PipeLabel) (hn : ls.length < 2 ^ 64) :
    Supervised ls.length ((PipePlane.start engine).run ls) := by
  have hrun := (Supervised.start engine).run ls (by omega)
  rwa [Nat.zero_add] at hrun

end Supervised

end PipePlane

end IrohRooms
