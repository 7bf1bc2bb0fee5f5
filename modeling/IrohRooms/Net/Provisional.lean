import IrohRooms.Net.Pump

/-!
# Room content and unproven peers

A device the gate has only ever admitted provisionally, and that has proven no capability, is to be served no room
events. It is not, in a run in which a teardown clears its mark between the gate's answer and the lookup: its frame is
then taken for a member's. `no_content_to_unproven` says that this is the only way.
-/

namespace IrohRooms

section Unproven

variable {isPoint : DeviceKey → Bool}

namespace Links

/-- The device has no proven mark, and no room events wait for it. -/
structure Bare (device : EndpointId isPoint) (l : Links isPoint) : Prop where
  unproven : device ∉ l.capabilityProven
  queue : ∀ queue, l.outbound.get? device = some queue → ∀ msg ∈ queue, msg.body.isContent = false

variable {device d : EndpointId isPoint} {l : Links isPoint}

namespace Bare

/-- Only the marks and the queues count. -/
theorem same {l' : Links isPoint} (h : l.Bare device) (hproven : l'.capabilityProven = l.capabilityProven)
    (hout : l'.outbound = l.outbound) : l'.Bare device := by
  refine ⟨?_, ?_⟩
  · rw [hproven]
    exact h.unproven
  · rw [hout]
    exact h.queue

/-- A queue is replaced by one without room events, or is another device's. -/
theorem setQueue (h : l.Bare device) {queue : List RoomMessage}
    (hqueue : d = device → ∀ msg ∈ queue, msg.body.isContent = false) :
    Bare device { l with outbound := l.outbound.insert d queue } := by
  refine ⟨h.unproven, fun queue' hget => ?_⟩
  dsimp only at hget
  rw [OrdMap.get?_insert] at hget
  split_ifs at hget with hd
  · rw [← Option.some.inj hget]
    exact hqueue hd.symm
  · exact h.queue queue' hget

theorem install (h : l.Bare device) (provisional : Bool) : (l.install d provisional).Bare device := by
  have hset : Bare device { l with outbound := l.outbound.insert d [] } := by
    apply h.setQueue
    intro _ msg hmsg
    cases hmsg
  exact hset.same rfl rfl

theorem registerEstablishedLink (h : l.Bare device) (overdue : Bool) (decision : AdmissionDecision) (allow : Bool) :
    (l.registerEstablishedLink d overdue decision allow).1.Bare device := by
  have hcleared : Bare device { l with terminalConfirmations := l.terminalConfirmations.erase d } := h.same rfl rfl
  unfold Links.registerEstablishedLink
  cases decision with
  | admitted _ =>
    dsimp only
    split_ifs
    · exact h
    · exact hcleared.install false
  | admitProvisional =>
    dsimp only
    split_ifs
    · exact h
    · exact hcleared.install true
    · exact hcleared
  | reject _ =>
    dsimp only
    split_ifs
    · exact h
    · exact hcleared

theorem clearProvisional (h : l.Bare device) : (l.clearProvisional d).Bare device :=
  ⟨fun hproven => h.unproven (OrdSet.mem_erase.mp hproven).2, h.queue⟩

theorem activateLinkIfCurrent (h : l.Bare device) (generation : Nat) (decision : AdmissionDecision) (allow : Bool) :
    (l.activateLinkIfCurrent d generation decision allow).1.Bare device := by
  unfold Links.activateLinkIfCurrent
  cases decision with
  | admitted _ =>
    dsimp only
    split_ifs
    · exact h
    · exact h.clearProvisional
  | admitProvisional =>
    dsimp only
    split_ifs
    · exact h
    · exact h.same rfl rfl
    · exact h
  | reject _ =>
    dsimp only
    split_ifs
    · exact h
    · exact h

theorem unregister (h : l.Bare device) : (l.unregister d).Bare device := by
  refine ⟨h.unproven, fun queue hget => ?_⟩
  unfold Links.unregister at hget
  rw [OrdMap.get?_erase] at hget
  split_ifs at hget
  exact h.queue queue hget

theorem teardownIfCurrent (h : l.Bare device) (generation : Nat) : (l.teardownIfCurrent d generation).1.Bare device := by
  unfold Links.teardownIfCurrent
  split_ifs
  · exact h
  · exact h.clearProvisional.unregister

theorem removeTerminalConfirmation (h : l.Bare device) (nonce : ShortId) :
    (l.removeTerminalConfirmation d nonce).Bare device := by
  unfold Links.removeTerminalConfirmation
  split_ifs
  · exact h.same rfl rfl
  · exact h

theorem confirmTerminalEvents (h : l.Bare device) (roomId : RoomId) (ids : List EventId) (nonce : ShortId) :
    (l.confirmTerminalEvents d roomId ids nonce).1.Bare device := by
  unfold Links.confirmTerminalEvents
  split_ifs
  · exact h.removeTerminalConfirmation nonce
  · exact h

theorem markCapabilityProven (h : l.Bare device) (hd : device ≠ d) : (l.markCapabilityProven d).Bare device := by
  refine ⟨fun hmem => ?_, h.queue⟩
  rcases OrdSet.mem_add.mp hmem with heq | hold
  · exact hd heq
  · exact h.unproven hold

theorem push (h : l.Bare device) (placed : Bool) {msg : RoomMessage}
    (hmsg : d = device → msg.body.isContent = false) : (l.push d placed msg).Bare device := by
  unfold Links.push
  split
  · rename_i queue hqueue
    split_ifs
    · apply h.setQueue
      rintro rfl m hm
      rcases List.mem_append.mp hm with hm | hm
      · exact h.queue queue hqueue m hm
      · rw [List.mem_singleton.mp hm]
        exact hmsg rfl
    · exact h
  · exact h

theorem drain (h : l.Bare device) (i : Nat) : (l.drain d i).Bare device := by
  unfold Links.drain
  split
  · rename_i queue hqueue
    apply h.setQueue
    rintro rfl m hm
    exact h.queue queue hqueue m (List.mem_of_mem_eraseIdx hm)
  · exact h

theorem route (h : l.Bare device) {o : Outgoing} (ho : o.peer = device.val → o.msg.body.isContent = false)
    (gossip placed : Bool) : (l.route o gossip placed).Bare device := by
  unfold Links.route
  split
  · exact h
  · rename_i d hd
    split_ifs
    · exact h
    · apply h.push
      intro heq
      rw [EndpointId.fromBytes_eq_some] at hd
      exact ho (by rw [← hd, heq])

theorem routeTerminalRemoval (h : l.Bare device) {peer : PeerId} (hpeer : peer ≠ device.val) (roomId : RoomId)
    (frames : List Frame) (id : EventId) (nonce : ShortId) (placed : Bool) :
    (l.routeTerminalRemoval peer roomId frames id nonce placed).Bare device := by
  unfold Links.routeTerminalRemoval
  split
  · exact h
  · rename_i d hd
    rw [EndpointId.fromBytes_eq_some] at hd
    split
    · split_ifs
      · refine push (h.same ?_ ?_) _ fun heq => ?_
        · rfl
        · rfl
        · exact absurd (by rw [← hd, heq]) hpeer
      · exact h
    · exact h

end Bare

end Links

variable {env : Env} {sealing : Sealing} {room : RoomId}

/-! ### The device, in a run -/

/-- The gate answers nothing but a provisional admission for the device, and no proof of it matches an invite. -/
def OnlyProvisional (device : EndpointId isPoint) (w : World env sealing room isPoint) : Label isPoint → Prop
  | .recheck i answer _ => ∀ f, w.inbound[i]? = some f → f.peer = device.val → answer = .admitProvisional
  | .register d _ answer _ => d = device → answer = .admitProvisional
  | .activate d _ answer _ => d = device → answer = .admitProvisional
  | .lookup _ => ∀ f inviteId secret, w.phase = .checked f → f.peer = device.val →
      f.msg = ⟨room, .proveCapability inviteId secret⟩ → w.engine.capabilityProofMatches inviteId secret = false
  | _ => True

/-- Where the pump is about to serve the device its room, the mark is there; and it has not become a member. -/
def MarkStands (device : EndpointId isPoint) (w : World env sealing room isPoint) : Label isPoint → Prop
  | .lookup _ => ∀ f, w.phase = .checked f → f.peer = device.val → f.msg.roomId = room →
      f.msg.body.isPull = true → w.links.isProvisional device = true
  | .connected d _ => d = device → w.links.isProvisional device = true
  | .finish _ => ∀ shut, w.phase = .routing [] shut (some device.val) → w.isMember device.val = false
  | _ => True

/-- Nothing in the pump leads to room events for the device. -/
inductive Phase.Bars (peer : PeerId) (room : RoomId) : Phase → Prop
  | idle : Bars peer room .idle
  | checked (f : Inbound) : Bars peer room (.checked f)
  | serving {f : Inbound} (provisional : Bool)
    (h : f.peer = peer → f.msg.roomId = room → f.msg.body.isPull = false) : Bars peer room (.serving f provisional)
  | routing {outs : List Outgoing} (shut : OrdSet PeerId) (sender : Option PeerId)
    (h : ∀ o ∈ outs, o.peer = peer → o.msg.body.isContent = false) : Bars peer room (.routing outs shut sender)

structure Barred (device : EndpointId isPoint) (w : World env sealing room isPoint) : Prop where
  links : w.links.Bare device
  absent : device.val ∉ w.engine.peers
  phase : w.phase.Bars device.val room

namespace Barred

variable {device : EndpointId isPoint} {w : World env sealing room isPoint} {serving : Serving env room}

theorem setLinks (h : Barred device w) {l : Links isPoint} (hl : l.Bare device) :
    Barred device { w with links := l } := ⟨hl, h.absent, h.phase⟩

theorem setPhase (h : Barred device w) {phase : Phase} (hphase : phase.Bars device.val room) :
    Barred device { w with phase := phase } := ⟨h.links, h.absent, hphase⟩

theorem takeReceipt (h : Barred device w) (d : EndpointId isPoint) (f : Inbound) :
    (w.takeReceipt d f).1.Bare device := by
  unfold World.takeReceipt
  split
  · split_ifs
    · exact h.links.confirmTerminalEvents _ _ _
    · exact h.links
  · exact h.links

theorem recheck (h : Barred device w) (i : Nat) (answer selfAnswer : AdmissionDecision) :
    Barred device (w.recheck i answer selfAnswer) := by
  unfold World.recheck
  split
  · split
    · exact ⟨h.links, h.absent, h.phase⟩
    · rename_i f _ _ _ d _
      dsimp only
      split_ifs
      · exact ⟨h.takeReceipt d f, h.absent, h.phase⟩
      · exact ⟨h.links, h.absent, h.phase⟩
      · exact ⟨h.links, h.absent, .checked f⟩
  · exact h

/-- A handshake of another device. -/
theorem runDeferred (h : Barred device w) {peer : PeerId} (hpeer : peer ≠ device.val) {outs : List Outgoing}
    (houts : peer ∈ w.deferred → w.engine.Greets serving peer outs) : Barred device (w.runDeferred peer outs) := by
  unfold World.runDeferred
  split_ifs with hmem
  · refine ⟨h.links, ?_, .routing _ _ fun o ho _ => (houts hmem).no_content ho⟩
    dsimp only
    rw [SyncEngine.onConnect_peers, OrdSet.mem_add]
    rintro (heq | hold)
    · exact hpeer heq.symm
    · exact h.absent hold
  · exact h.setPhase .idle

theorem lookup (h : Barred device w) {outs : List Outgoing} (hsends : w.Sends serving (.lookup outs))
    (honly : OnlyProvisional device w (.lookup outs)) (hmark : MarkStands device w (.lookup outs)) :
    Barred device (w.lookup outs) := by
  unfold World.lookup
  split
  · rename_i f hphase
    split_ifs with hprov
    · split
      · rename_i inviteId secret hbody
        unfold World.proveCapability
        split_ifs with hmatch
        · split
          · rename_i d hd
            have hne : f.peer ≠ device.val := by
              intro heq
              have hmsg : f.msg = ⟨room, .proveCapability inviteId secret⟩ := by
                rw [← hmatch.1, ← hbody]
              rw [honly f inviteId secret hphase heq hmsg] at hmatch
              cases hmatch.2
            rw [EndpointId.fromBytes_eq_some] at hd
            have hbare : (w.links.markCapabilityProven d).Bare device := by
              apply h.links.markCapabilityProven
              rintro rfl
              exact hne hd.symm
            exact runDeferred (h.setLinks hbare) hne (hsends f hphase)
          · exact h.setPhase .idle
        · exact h.setPhase .idle
      · rename_i body hbody
        split_ifs with hallowed
        · refine h.setPhase (.serving true fun hpeer _ => ?_)
          have hunproven : w.isCapabilityProven f.peer = false := by
            have hsome : EndpointId.fromBytes isPoint device.val = some device := EndpointId.fromBytes_eq_some.mpr rfl
            rw [World.isCapabilityProven, hpeer, hsome, Option.any_some, Links.isCapabilityProven]
            exact decide_eq_false h.links.unproven
          rw [hunproven] at hallowed
          cases hb : f.msg.body with
          | wantMembership _ => rw [hb] at hallowed; cases hallowed
          | wantEvents _ => rw [hb] at hallowed; cases hallowed
          | wantRecentChat _ _ => rw [hb] at hallowed; cases hallowed
          | _ => rfl
        · exact h.setPhase .idle
    · refine h.setPhase (.serving false fun hpeer hroom => ?_)
      rw [Bool.eq_false_iff]
      intro hpull
      apply hprov
      have hsome : EndpointId.fromBytes isPoint device.val = some device := EndpointId.fromBytes_eq_some.mpr rfl
      rw [World.isProvisional, hpeer, hsome]
      exact hmark f hphase hpeer hroom hpull
  · exact h

theorem handle (h : Barred device w) {outs : List Outgoing} (hsends : w.Sends serving (.handle outs)) :
    Barred device (w.handle outs) := by
  unfold World.handle
  split
  · rename_i f provisional hphase
    have hbars := h.phase
    rw [hphase] at hbars
    cases hbars with
    | serving _ hserved =>
      refine ⟨h.links, ?_, .routing _ _ fun o ho hpeer => ?_⟩
      · dsimp only
        rw [SyncEngine.onMessage_peers]
        exact h.absent
      · rw [Bool.eq_false_iff]
        intro hcontent
        rcases (hsends f provisional hphase).content_to ho hcontent with hmem | ⟨hsender, hroom, hpull⟩
        · rw [hpeer] at hmem
          exact h.absent hmem
        · rw [hserved (by rw [← hsender, hpeer]) hroom] at hpull
          cases hpull
  · exact h

theorem routeNext (h : Barred device w) (gossip placed : Bool) (nonce : ShortId) :
    Barred device (w.routeNext gossip placed nonce) := by
  unfold World.routeNext
  split
  · rename_i o outs shut sender hphase
    have hbars := h.phase
    rw [hphase] at hbars
    cases hbars with
    | routing _ _ hpending =>
      have hrest : ∀ o' ∈ outs, o'.peer = device.val → o'.msg.body.isContent = false :=
        fun o' ho' => hpending o' (List.mem_cons_of_mem o ho')
      have ho := hpending o List.mem_cons_self
      split_ifs
      · exact h.setPhase (.routing _ _ hrest)
      · split
        · rename_i index id frames _ hframes
          refine ⟨?_, h.absent, .routing _ _ hrest⟩
          apply h.links.routeTerminalRemoval
          intro hpeer
          have hcontent := ho hpeer
          rw [hframes] at hcontent
          cases hcontent
        · exact ⟨h.links.route ho gossip placed, h.absent, .routing _ _ hrest⟩
  · exact h

theorem finish (h : Barred device w) {outs : List Outgoing} (hsends : w.Sends serving (.finish outs))
    (hmark : MarkStands device w (.finish outs)) : Barred device (w.finish outs) := by
  unfold World.finish
  split
  · exact h.setPhase .idle
  · rename_i shut peer hphase
    split
    · split_ifs with hmember
      · have hne : peer ≠ device.val := by
          rintro rfl
          rw [hmark shut hphase] at hmember
          cases hmember
        exact runDeferred (h.setLinks h.links.clearProvisional) hne (hsends shut peer hphase)
      · exact h.setPhase .idle
    · exact h.setPhase .idle
  · exact h

theorem proofMessage_no_content {peer : PeerId} {o : Outgoing} (ho : o ∈ w.proofMessage peer) :
    o.msg.body.isContent = false := by
  unfold World.proofMessage at ho
  cases hproof : w.bootstrapProof with
  | none =>
    rw [hproof] at ho
    cases ho
  | some p =>
    rw [hproof] at ho
    rw [List.mem_singleton.mp ho]
    rfl

theorem connected (h : Barred device w) {d : EndpointId isPoint} {outs : List Outgoing}
    (hsends : w.Sends serving (.connected d outs)) (hmark : MarkStands device w (.connected d outs)) :
    Barred device (w.connected d outs) := by
  unfold World.connected
  split
  · split_ifs with hprov
    · exact ⟨h.links, h.absent, .routing _ _ fun o ho _ => proofMessage_no_content ho⟩
    · have hne : d ≠ device := by
        rintro rfl
        apply hprov
        have hunproven : w.links.isCapabilityProven d = false := decide_eq_false h.links.unproven
        rw [hmark rfl, hunproven]
        rfl
      refine ⟨h.links, ?_, .routing _ _ fun o ho _ => ?_⟩
      · dsimp only
        rw [SyncEngine.onConnect_peers, OrdSet.mem_add]
        rintro (heq | hold)
        · exact hne (Subtype.ext heq.symm)
        · exact h.absent hold
      · rcases List.mem_append.mp ho with ho | ho
        · exact proofMessage_no_content ho
        · exact SyncEngine.Greets.no_content hsends ho
  · exact h

theorem disconnected (h : Barred device w) (d : EndpointId isPoint) (wasConnected : Bool) :
    Barred device (w.disconnected d wasConnected) := by
  unfold World.disconnected
  split
  · refine ⟨h.links, ?_, h.phase⟩
    dsimp only
    split_ifs
    · exact fun hmem => h.absent (SyncEngine.mem_onDisconnect_peers hmem)
    · exact h.absent
  · exact h

theorem tick (h : Barred device w) {outs : List Outgoing} (hsends : w.Sends serving (.tick outs)) :
    Barred device (w.tick outs) := by
  obtain ⟨spread, round, rfl, hspread, hround⟩ := hsends
  unfold World.tick
  split
  · refine ⟨h.links, ?_, .routing _ _ fun o ho hpeer => ?_⟩
    · dsimp only
      rw [SyncEngine.onTick_peers]
      exact h.absent
    · exfalso
      apply h.absent
      rw [← hpeer]
      rcases List.mem_append.mp ho with ho | ho
      · exact (hspread o ho).1
      · exact (hround o ho).1
  · exact h

theorem publish (h : Barred device w) {f : Frame} {outs : List Outgoing} (hsends : w.Sends serving (.publish f outs)) :
    Barred device (w.publish f outs) := by
  unfold World.publish
  split
  · rename_i engine _ hok
    refine ⟨h.links, ?_, .routing _ _ fun o ho hpeer => ?_⟩
    · dsimp only
      rw [SyncEngine.publish_peers hok]
      exact h.absent
    · exfalso
      apply h.absent
      rw [← hpeer]
      exact (hsends o ho).1
  · exact h

theorem step (h : Barred device w) {l : Label isPoint} (hsends : w.Sends serving l)
    (honly : OnlyProvisional device w l) (hmark : MarkStands device w l) : Barred device (w.step l) := by
  cases l with
  | arrive f => exact ⟨h.links, h.absent, h.phase⟩
  | recheck i answer selfAnswer => exact h.recheck i answer selfAnswer
  | lookup outs => exact h.lookup hsends honly hmark
  | handle outs => exact h.handle hsends
  | route gossip placed nonce => exact h.routeNext gossip placed nonce
  | finish outs => exact h.finish hsends hmark
  | connected d outs => exact h.connected hsends hmark
  | disconnected d wasConnected => exact h.disconnected d wasConnected
  | tick outs => exact h.tick hsends
  | publish f outs => exact h.publish hsends
  | register d overdue answer allow => exact h.setLinks (h.links.registerEstablishedLink overdue answer allow)
  | activate d generation answer allow => exact h.setLinks (h.links.activateLinkIfCurrent generation answer allow)
  | teardown d generation => exact h.setLinks (h.links.teardownIfCurrent generation)
  | invalidate d => exact h.setLinks (h.links.same rfl rfl)
  | unregister d => exact h.setLinks h.links.unregister
  | reap d nonce => exact h.setLinks (h.links.removeTerminalConfirmation nonce)
  | replay peer msg placed =>
    refine h.setLinks (h.links.route (fun _ => ?_) false placed)
    have hpull : msg.body.isPull = true := hsends
    cases hb : msg.body with
    | events _ => rw [hb] at hpull; cases hpull
    | terminalEvents _ _ _ => rw [hb] at hpull; cases hpull
    | _ => rfl
  | drain d i => exact h.setLinks (h.links.drain i)

/-- A run in which the mark stands keeps the device barred. -/
theorem run (h : Barred device w) {ls : List (Label isPoint)}
    (hrun : Along (fun w l => w.Sends serving l ∧ OnlyProvisional device w l ∧ MarkStands device w l) w ls) :
    Barred device (w.run ls) := by
  induction ls generalizing w with
  | nil => exact h
  | cons l ls ih =>
    obtain ⟨⟨hsends, honly, hmark⟩, hrest⟩ := hrun
    exact ih (h.step hsends honly hmark) hrest

end Barred

/-- In every run from a freshly opened engine in which the mark of an unproven provisional device is there whenever
the pump reads it to serve the device, no message on the device's queue carries room events. -/
theorem no_content_to_unproven {config : SyncConfig} {seed : Option SigningKey} {s : EventStore env room}
    {tables : SyncTables env room} {e : SyncEngine env sealing room}
    (hopen : SyncEngine.openEngine config seed s tables = .ok e) (proof : Option (RoomId × ShortId × ShortId))
    (serving : Serving env room) (device : EndpointId isPoint) (ls : List (Label isPoint))
    (hrun : Along (fun w l => w.Sends serving l ∧ OnlyProvisional device w l ∧ MarkStands device w l)
      (World.start e proof) ls) :
    ∀ queue, ((World.start e proof : World env sealing room isPoint).run ls).links.outbound.get? device = some queue →
      ∀ msg ∈ queue, msg.body.isContent = false := by
  have hstart : Barred device (World.start e proof : World env sealing room isPoint) := by
    refine ⟨⟨OrdSet.not_mem_empty device, fun queue hget => ?_⟩, ?_, .idle⟩
    · cases hget
    · rw [SyncEngine.openEngine_ok hopen]
      exact OrdSet.not_mem_empty device.val
  exact (hstart.run hrun).links.queue

end Unproven

/-! ### The worked room

A dialer the gate knows nothing of asks for the genesis. -/

namespace Toy

abbrev anyPoint : DeviceKey → Bool := fun _ => true

def dialer : EndpointId anyPoint := ⟨device 9, rfl⟩

def serving : Serving toyEnv room := ⟨512, 200, 1000, fun _ => 300⟩

def tables : SyncTables toyEnv room := ⟨.empty, none, .empty, .empty⟩

/-- The worked room with its genesis, opened again. -/
def reopened : SyncEngine toyEnv sealing room := .restore .standard none (run [(1, genesis)]).store tables

def asked : Inbound := ⟨device 9, ⟨room, .wantEvents [.ofNat 1]⟩, false⟩

/-- The link goes down between the gate's answer and the lookup. -/
def dropped : List (Label anyPoint) :=
  [.register dialer false .admitProvisional true, .arrive asked, .recheck 0 .admitProvisional .admitProvisional,
    .teardown dialer 1]

/-- The link is replaced while the frame is on its way to the engine. -/
def redialled (outs : List Outgoing) : List (Label anyPoint) :=
  [.lookup [], .register dialer false .admitProvisional true, .handle outs, .route false true 0]

section Redial

variable (e : SyncEngine toyEnv sealing room)

theorem dropped_phase : ((World.start e none).run dropped).phase = .checked asked := rfl

theorem dropped_links : ((World.start e none).run dropped).links =
    ((Links.empty.registerEstablishedLink dialer false .admitProvisional true).1.teardownIfCurrent dialer 1).1 := rfl

theorem dropped_engine : ((World.start e none).run dropped).engine = e := rfl

theorem dropped_lookup : ((World.start e none).run dropped).lookup [] =
    { (World.start e none).run dropped with phase := .serving asked false } := by
  have hmark : ((World.start e none).run dropped).isProvisional asked.peer = false := by
    rw [World.isProvisional, dropped_links]
    decide
  unfold World.lookup
  rw [dropped_phase]
  dsimp only
  rw [hmark]
  rfl

theorem answers_asked : e.Answers serving asked.peer asked.msg (e.serveWantEvents serving asked.peer [.ofNat 1]) := by
  refine ⟨fun h => absurd rfl h, fun _ => ⟨[], [], ?_, ?_, ?_⟩⟩
  · show _ = _ ++ [] ++ [] ++ []
    simp only [List.append_nil]
    rfl
  · intro o ho
    cases ho
  · intro o ho
    cases ho

theorem along_redialled : Along (fun w l => w.Sends serving l ∧ OnlyProvisional dialer w l) (World.start e none)
    (dropped ++ redialled (e.serveWantEvents serving asked.peer [.ofNat 1])) := by
  refine ⟨⟨trivial, fun _ => rfl⟩, ⟨trivial, trivial⟩, ⟨trivial, fun _ _ _ => rfl⟩, ⟨trivial, trivial⟩, ⟨?_, ?_⟩,
    ⟨trivial, fun _ => rfl⟩, ⟨?_, trivial⟩, ⟨trivial, trivial⟩, trivial⟩
  · intro f _ hmem
    exact absurd hmem (OrdSet.not_mem_empty f.peer)
  · intro f inviteId secret hphase _ hmsg
    obtain rfl : asked = f := Phase.checked.inj ((dropped_phase e).symm.trans hphase)
    cases (congrArg RoomMessage.body hmsg : MessageBody.wantEvents _ = _)
  · show ((((World.start e none).run dropped).lookup []).step (.register dialer false .admitProvisional true)).Sends
      serving (.handle _)
    rw [dropped_lookup]
    intro f provisional hphase
    obtain ⟨rfl, -⟩ : asked = f ∧ false = provisional := Phase.serving.inj hphase
    have hengine : ∀ w : World toyEnv sealing room anyPoint, w.engine = e →
        (w.step (.register dialer false .admitProvisional true)).engine = e := fun _ h => h
    have hsame := hengine { (World.start e none).run dropped with phase := .serving asked false } (dropped_engine e)
    rw [hsame]
    exact answers_asked e

end Redial

def isEvents : MessageBody → Bool
  | .events _ => true
  | _ => false

theorem isEvents_eq_true {body : MessageBody} (h : isEvents body = true) : ∃ frames, body = .events frames := by
  cases body with
  | events frames => exact ⟨frames, rfl⟩
  | _ => cases h

theorem lost_mark_serves : ∃ outs,
    Along (fun w l => w.Sends serving l ∧ OnlyProvisional dialer w l) (World.start reopened none)
      (dropped ++ redialled outs) ∧
    ∃ queue, ((World.start reopened none).run (dropped ++ redialled outs)).links.outbound.get? dialer = some queue ∧
      ∃ msg ∈ queue, ∃ frames, msg.body = .events frames := by
  refine ⟨reopened.serveWantEvents serving asked.peer [.ofNat 1], along_redialled reopened, ?_⟩
  have hqueue : (((World.start reopened none).run (dropped ++ redialled (reopened.serveWantEvents serving asked.peer
      [.ofNat 1]))).links.outbound.get? dialer).any
      (fun queue => queue.any fun msg => isEvents msg.body) = true := by decide +kernel
  obtain ⟨queue, hget, hany⟩ := (Option.any_eq_true _ _).mp hqueue
  obtain ⟨msg, hmsg, hevents⟩ := List.any_eq_true.mp hany
  exact ⟨queue, hget, msg, hmsg, isEvents_eq_true hevents⟩

/-- The same frame while the link is up. -/
def blocked : List (Label anyPoint) :=
  [.register dialer false .admitProvisional true, .arrive asked, .recheck 0 .admitProvisional .admitProvisional,
    .lookup []]

theorem along_blocked (e : SyncEngine toyEnv sealing room) :
    Along (fun w l => w.Sends serving l ∧ OnlyProvisional dialer w l ∧ MarkStands dialer w l) (World.start e none)
      blocked := by
  refine ⟨⟨trivial, fun _ => rfl, trivial⟩, ⟨trivial, trivial, trivial⟩, ⟨trivial, fun _ _ _ => rfl, trivial⟩,
    ⟨?_, ?_, ?_⟩, trivial⟩
  · intro f _ hmem
    exact absurd hmem (OrdSet.not_mem_empty f.peer)
  · intro f inviteId secret hphase _ hmsg
    obtain rfl : asked = f := Phase.checked.inj hphase
    cases (congrArg RoomMessage.body hmsg : MessageBody.wantEvents _ = _)
  · intro f _ _ _ _
    show (Links.empty.registerEstablishedLink dialer false .admitProvisional true).1.isProvisional dialer = true
    decide

theorem no_content_to_dialer :
    Along (fun w l => w.Sends serving l ∧ OnlyProvisional dialer w l ∧ MarkStands dialer w l)
      (World.start reopened none) blocked ∧
    ∀ queue, ((World.start reopened none).run blocked).links.outbound.get? dialer = some queue →
      ∀ msg ∈ queue, msg.body.isContent = false := by
  have hopen : SyncEngine.openEngine .standard none (run [(1, genesis)]).store tables = .ok reopened := rfl
  exact ⟨along_blocked reopened, no_content_to_unproven hopen none serving dialer blocked (along_blocked reopened)⟩

end Toy

end IrohRooms
