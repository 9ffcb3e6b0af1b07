import BareRTC.Signal.Proof.Client

/-!
# Keepalive messages and their acknowledgement

The keepalive timer clears `mbAliving` and sends a message; an acknowledgement sets it again, and
both timers take a cleared flag for a lost connection. The flag is cleared also when nothing is
sent, for want of a session. With a session at every tick, the flag is cleared only while a message
is waiting for its acknowledgement (`Heartbeat.Inv`), and only then is an error reported
(`reports_of_session`).
-/

namespace BareRTC.Signal

open EStateM (Result)

/-! ## The flag -/

def St.alive (s : St) : Bool × Bool := (s.conn.mRTCConnected, s.conn.mbAliving)

def KeepsAlive (s s' : St) : Prop := s'.alive = s.alive

abbrev StaysAlive {α : Type} (x : ConnM α) : Prop := Safe KeepsAlive (fun _ => True) x

theorem KeepsAlive.closed : Closed KeepsAlive (fun _ => True) where
  refl _ := rfl
  trans h h' := h'.trans h
  observer _ _ := rfl
  sent _ _ := rfl
  conn s c h h' := by
    simp only [Conn.settings, Prod.mk.injEq] at h
    obtain ⟨-, -, -, -, h⟩ := h
    exact Prod.ext h h'
  overflow := trivial

theorem KeepsAlive.modify {f : St → St} (h : ∀ s, (f s).alive = s.alive) : StaysAlive (modify f : ConnM Unit) :=
  Safe.modify h

variable (rnd : Nat → Nat)

theorem KeepsAlive.replies : Closed.Replies KeepsAlive (fun _ => True) rnd where
  stores _ := modify fun _ => rfl
  handles _ _ _ := modify fun _ => rfl
  onSuccess _ _ := modify fun _ => rfl
  onError _ _ := modify fun _ => rfl
  release _ _ := modify fun _ => rfl
  freed _ := trivial
  null := trivial

theorem KeepsAlive.subscriberCreateHandle (id : UInt64) : StaysAlive (subscriberCreateHandle rnd id) :=
  closed.subscriberCreateHandle (fun _ => modify fun _ => rfl) (fun _ => modify fun _ => rfl)
    ((replies rnd).stores _)

theorem KeepsAlive.onKind {m : Msg} {k : Kind} (hk : k ≠ .ack) : StaysAlive (onKind rnd m k) :=
  closed.onKind (fun _ => replies rnd)
    (fun _ => closed.onEvent (closed.eventHandle (fun _ => trivial) (fun _ => modify fun _ => rfl)
      trivial) (subscriberCreateHandle rnd)) fun h => absurd h hk

variable {m : Msg} {x : ConnM Unit} {s : St}

theorem KeepsAlive.onRTCMessage (hm : m.kind ≠ some .ack) : StaysAlive (onRTCMessage rnd m) :=
  onRTCMessage_safe closed fun _ hk => onKind rnd fun h => hm (h ▸ hk)

/-! ## The flag of a client -/

def Client.alive (c : Client) : Option (Bool × Bool) := c.mFRTCconn.map (·.st.alive)

theorem alive_after (c : Client) (f : FRTCConnection) : (c.after f s).alive = some s.alive := by
  obtain ⟨p, q, he⟩ := after_eq c
  rw [he]
  rfl

theorem keepsAlive_onConn (hx : StaysAlive x) : Keeps Client.alive (onConn x) := by
  intro c
  cases hf : c.mFRTCconn with
  | none => rw [onConn_none hf]; rfl
  | some f =>
    have h : (Result.state (x f.start)).alive = f.start.alive := (hx f.start).1
    rw [(onConn_some hf x).1, alive_after, h, Client.alive, hf]
    rfl

theorem keepsAlive_poll (hx : StaysAlive x) {ok : WsState → Bool}
    {w : WsState → WsState} : Keeps Client.alive (poll ok w x) :=
  poll_keeps (fun _ _ _ => rfl) (keepsAlive_onConn hx) ok

theorem KeepsAlive.onRTCClosed : StaysAlive onRTCClosed :=
  closed.bind (modify fun _ => rfl) fun _ => closed.bind (closed.observe) fun _ => closed.observe

theorem KeepsAlive.reportConnectError : StaysAlive reportConnectError :=
  closed.bind (closed.observe) fun _ => closed.observe

theorem KeepsAlive.signalKeepaliveCheckResult : StaysAlive signalKeepaliveCheckResult := by
  refine closed.bind closed.get fun s => ?_
  split
  · exact closed.pure
  · exact reportConnectError

/-! ## One call -/

def isKeepAlive : ClientEv → Bool
  | .sendData _ _ (.keepAlive _) => true
  | _ => false

def acknowledged (c : Client) : ClientIn → Bool
  | .wsOpen _ => c.ctx.map c.ws = some .connecting
  | .wsMsg _ m => m.kind = some .ack ∧ (c.ctx.map c.ws = some .opened ∨ c.ctx.map c.ws = some .failed)
  | _ => false

section
variable {c : Client} {f : FRTCConnection}

theorem Disconnected.alive_ne {c' : Client} (h : Disconnected c f c') : c'.alive ≠ some (true, false) := by
  obtain ⟨st, hst, hconn⟩ := h.conn
  rw [Client.alive, hst]
  simp [St.alive, hconn]

/-- A tick of a connection that is alive clears the flag, and sends a message if there is a
session. -/
theorem signalKeepalive_of (ha : s.conn.mbAliving) (hc : s.conn.mRTCConnected)
    (hs : s.conn.mSessionId ≠ 0) : signalKeepalive s = .ok () { s with
      conn := { s.conn with mbAliving := false }
      evs := s.evs ++ [.sent (.keepAlive s.conn.mSessionId)] } := by
  rw [signalKeepalive, get_bind, if_pos ha]
  refine (bind_of_ok (modify_apply)).trans ?_
  rw [keepAlive, get_bind, if_neg hs]
  rw [sendMessage, get_bind, if_pos hc]
  rfl

theorem signalKeepalive_of_not (ha : ¬ s.conn.mbAliving) : signalKeepalive s = reportConnectError s := by
  rw [signalKeepalive, get_bind, if_neg ha]

theorem signalKeepalive_connected (hc : ¬ s.conn.mRTCConnected) :
    ¬ (Result.state (signalKeepalive s)).conn.mRTCConnected := by
  by_cases ha : s.conn.mbAliving
  · have hk := keepAlive_not (s := { s with conn := { s.conn with mbAliving := false } }) (.inl hc)
    have hrun : signalKeepalive s = .ok () { s with conn := { s.conn with mbAliving := false } } := by
      rw [signalKeepalive, get_bind, if_pos ha]
      exact (bind_of_ok (modify_apply)).trans hk
    rw [hrun]
    exact hc
  · rw [signalKeepalive_of_not ha]
    exact hc

theorem whenCtx_some {k : Nat} (h : c.ctx = some k) : whenCtx x c = onConn x c := by
  unfold Client.ctx at h
  rw [whenCtx, get_bind, h]
  rfl

theorem whenCtx_none (h : c.ctx = none) : whenCtx x c = .ok () c := by
  unfold Client.ctx at h
  rw [whenCtx, get_bind, h]
  rfl

/-- **The tick** leaves an open connection without the flag only if it had none, or a message was
sent. -/
theorem keepalive_beat
    (hs : ∀ f ∈ c.mFRTCconn, f.st.conn.mRTCConnected → f.st.conn.mbAliving → f.st.conn.mSessionId ≠ 0)
    (h : (Result.state (whenCtx signalKeepalive c)).alive = some (true, false)) :
    (Result.state (whenCtx signalKeepalive c)).evs.any isKeepAlive ∨ c.alive = some (true, false) := by
  cases hctx : c.ctx with
  | none =>
    rw [whenCtx_none hctx] at h
    exact .inr h
  | some k =>
    rw [whenCtx_some hctx] at h ⊢
    obtain ⟨f, hf, -⟩ := Option.bind_eq_some_iff.1 hctx
    obtain ⟨p, q, ha⟩ := after_eq c
    rw [(onConn_some hf _).1] at h ⊢
    rw [alive_after, Option.some_inj] at h
    by_cases hc : f.st.conn.mRTCConnected
    swap
    · exact absurd (congrArg Prod.fst h) (signalKeepalive_connected (s := f.start) hc)
    by_cases hal : f.st.conn.mbAliving
    · left
      rw [ha, signalKeepalive_of (s := f.start) hal hc (hs f hf hc hal)]
      simp [FRTCConnection.start, Client.event, isKeepAlive]
    right
    rw [Client.alive, hf]
    exact congrArg some (Prod.ext hc (Bool.eq_false_iff.2 hal))

theorem alive_poll {k : Nat} (hctx : c.ctx = some k) (ok : WsState → Bool) (hok : ok (c.ws k))
    (w : WsState → WsState) :
    ∃ s : St, (Result.state (poll ok w x c)).alive = some (Result.state (x s)).alive := by
  obtain ⟨f, hf, -⟩ := Option.bind_eq_some_iff.1 hctx
  have hs := (onConn_some (c := { c with ws := Function.update c.ws k (w (c.ws k)) }) hf x).1
  refine ⟨f.start, ?_⟩
  rw [poll_some hctx, if_pos hok, hs, alive_after]

theorem wsOpen_beat {rnd : Nat → Nat} (h : (Result.state ((ClientIn.wsOpen rnd).run c)).alive = some (true, false)) :
    c.alive = some (true, false) ∧ acknowledged c (.wsOpen rnd) = false := by
  simp only [ClientIn.run] at h
  unfold acknowledged
  cases hctx : c.ctx with
  | none =>
    rw [poll_none hctx] at h
    exact ⟨h, rfl⟩
  | some k =>
    by_cases hw : c.ws k = .connecting
    · obtain ⟨s, hs⟩ := alive_poll hctx (· = .connecting) (decide_eq_true hw) (fun _ => .opened)
      cases congrArg Prod.snd (Option.some.inj (hs.symm.trans h))
    · rw [poll_some hctx, if_neg (by simpa using hw)] at h
      exact ⟨h, by simpa using hw⟩

theorem onRTCMessage_ack (hm : m.kind = some .ack) {rnd : Nat → Nat} :
    (Result.state (onRTCMessage rnd m s)).alive ≠ (true, false) := by
  intro h
  by_cases hc : s.conn.mRTCConnected
  · rw [onRTCMessage_eq hc, hm] at h
    cases congrArg Prod.snd h
  · rw [onRTCMessage_not hc] at h
    exact hc (congrArg Prod.fst h)

theorem wsMsg_beat {rnd : Nat → Nat} (h : (Result.state ((ClientIn.wsMsg rnd m).run c)).alive = some (true, false)) :
    c.alive = some (true, false) ∧ acknowledged c (.wsMsg rnd m) = false := by
  simp only [ClientIn.run] at h
  unfold acknowledged
  by_cases hm : m.kind = some .ack
  swap
  · rw [keepsAlive_poll (KeepsAlive.onRTCMessage rnd hm) c] at h
    exact ⟨h, by simp [hm]⟩
  cases hctx : c.ctx with
  | none =>
    rw [poll_none hctx] at h
    exact ⟨h, by simp⟩
  | some k =>
    by_cases hw : c.ws k = .opened ∨ c.ws k = .failed
    · obtain ⟨s, hs⟩ := alive_poll hctx (fun w => w = .opened || w = .failed) (by simpa using hw)
        id
      exact absurd (Option.some.inj (hs.symm.trans h)) (onRTCMessage_ack hm)
    · rw [poll_some hctx, if_neg (by simpa using hw)] at h
      exact ⟨h, by simpa [hm] using hw⟩

/-- **One call**, poll or timer: an open connection is left without the flag only if it had none,
and no acknowledgement came, or a keepalive message was sent. -/
theorem run_beat {i : ClientIn} (hs : i = .keepalive → ∀ f ∈ c.mFRTCconn, f.st.conn.mRTCConnected →
      f.st.conn.mbAliving → f.st.conn.mSessionId ≠ 0)
    (h : (Result.state (i.run c)).alive = some (true, false)) :
    (Result.state (i.run c)).evs.any isKeepAlive ∨ c.alive = some (true, false) ∧ acknowledged c i = false := by
  have hkeep (hk : Keeps Client.alive i.run) : c.alive = some (true, false) := (hk c).symm.trans h
  have hmanaged (hm : i.manages) : c.alive = some (true, false) := by
    obtain ⟨c', hrun, hm⟩ := managed hm c
    rw [hrun] at h
    cases hm with
    | idle | forgets => exact h
    | init => simp [Client.alive, St.alive, construct] at h
    | ends _ _ _ hd => exact absurd h hd.alive_ne
    | login _ hf _ _ halive _ _ hcon =>
      obtain ⟨st, hst, hconn⟩ := hcon.conn
      simp only [Result.state_ok, Client.alive, hst, Option.map_some, Option.some_inj, St.alive, hconn] at h
      rw [Client.alive, hf]
      exact congrArg some (halive.symm.trans h)
  have hbuild : ∀ {g : St → Request}, Keeps Client.alive (whenConn (do let s ← get; sendMessage (g s))) := by
    intro g
    exact whenConn_keeps (keepsAlive_onConn
      (KeepsAlive.closed.bind KeepsAlive.closed.get fun _ => KeepsAlive.closed.sendMessage))
  cases i with
  | init | deInit | loginRoom | logoutRoom => exact .inr ⟨hmanaged rfl, rfl⟩
  | wsOpen rnd => exact .inr (wsOpen_beat h)
  | wsMsg rnd m => exact .inr (wsMsg_beat h)
  | wsError | wsClose =>
    exact .inr ⟨hkeep (by unfold ClientIn.run; exact keepsAlive_poll KeepsAlive.onRTCClosed), rfl⟩
  | keepalive => exact (keepalive_beat (hs rfl) h).imp_right fun h => ⟨h, rfl⟩
  | keepaliveCheckResult =>
    exact .inr ⟨hkeep (whenCtx_keeps (keepsAlive_onConn KeepsAlive.signalKeepaliveCheckResult)), rfl⟩
  | sendMessageToUser msg id => exact .inr ⟨hkeep hbuild, rfl⟩
  | publishOwnFeed | createAnswer | stopPublish | stopSubscribeStreaming =>
    exact .inr ⟨hkeep (Keeps.get.bind fun _ => hbuild), rfl⟩
  | subscribeStreaming rnd feedId =>
    exact .inr ⟨hkeep (whenConn_keeps (keepsAlive_onConn (KeepsAlive.subscriberCreateHandle rnd feedId))), rfl⟩

end

theorem signalKeepalive_silent (he : s.evs = []) (ha : s.conn.mbAliving) (o : Obs) :
    .observer o ∉ (Result.state (signalKeepalive s)).evs := by
  have hrun : signalKeepalive s = keepAlive { s with conn := { s.conn with mbAliving := false } } := by
    rw [signalKeepalive, get_bind, if_pos ha]
    exact bind_of_ok (modify_apply)
  rw [hrun, keepAlive, get_bind]
  split
  · simp [he]
  rw [sendMessage, get_bind]
  split
  · rw [emit, modify_apply]
    simp [he]
  · simp [he]

theorem signalKeepaliveCheckResult_silent (he : s.evs = []) (ha : s.conn.mbAliving)
    (o : Obs) : .observer o ∉ (Result.state (signalKeepaliveCheckResult s)).evs := by
  rw [signalKeepaliveCheckResult, get_bind, if_pos ha]
  simp [he]

theorem whenCtx_reports {c : Client} {o : Obs} (he : c.evs = [])
    (hx : ∀ s : St, s.evs = [] → s.conn.mbAliving → ∀ o, .observer o ∉ (Result.state (x s)).evs)
    (h : .conn (.observer o) ∈ (Result.state (whenCtx x c)).evs) :
    ∃ f, c.mFRTCconn = some f ∧ f.st.conn.mbAliving = false := by
  cases hctx : c.ctx with
  | none =>
    rw [whenCtx_none hctx, Result.state_ok, he] at h
    cases h
  | some k =>
    obtain ⟨f, hf, -⟩ := Option.bind_eq_some_iff.1 hctx
    refine ⟨f, hf, Bool.eq_false_iff.2 fun ha => ?_⟩
    obtain ⟨p, q, hafter⟩ := after_eq c
    rw [whenCtx_some hctx, (onConn_some hf x).1, hafter] at h
    simp only [he, List.nil_append, List.mem_map] at h
    obtain ⟨e, hmem, hev⟩ := h
    cases e with
    | observer o' =>  exact hx f.start rfl ha o' hmem
    | _ => cases hev

/-! ## Runs -/

structure Heartbeat where
  l : ClientMachine
  awaiting : Bool

def Heartbeat.init : Heartbeat := ⟨.init, false⟩

def Heartbeat.step (w : Heartbeat) (i : ClientIn) : Heartbeat × List ClientEv :=
  (⟨(clientStep w.l i).1, (clientStep w.l i).2.any isKeepAlive || w.awaiting && !acknowledged w.l.c i⟩,
    (clientStep w.l i).2)

def ReportsLost (w : Heartbeat) (i : ClientIn) : Prop :=
  w.l.fault = none → w.l.c.connected → i = .keepalive ∨ i = .keepaliveCheckResult →
    .conn (.observer .onRTCConnectError) ∈ (w.step i).2 → w.awaiting

def HasSession (w : Heartbeat) : ClientIn → Prop
  | .keepalive => w.l.fault = none → ∀ f ∈ w.l.c.mFRTCconn, f.st.conn.mRTCConnected →
      f.st.conn.mbAliving → f.st.conn.mSessionId ≠ 0
  | _ => True

def Heartbeat.Inv (w : Heartbeat) : Prop := w.l.fault = none → w.l.c.alive = some (true, false) → w.awaiting

section
variable {w : Heartbeat} {i : ClientIn}

theorem step_beat (hinv : w.Inv) (h : HasSession w i) : (w.step i).1.Inv := by
  intro hf' ha
  unfold Heartbeat.step at hf' ha ⊢
  by_cases hf : w.l.fault = none
  · rw [clientStep_of_none hf] at ha ⊢
    have hs : i = .keepalive → ∀ f ∈ w.l.start.mFRTCconn, f.st.conn.mRTCConnected →
        f.st.conn.mbAliving → f.st.conn.mSessionId ≠ 0 := by
      intro hi
      subst hi
      exact h hf
    rcases run_beat (c := w.l.start) hs ha with hsent | ⟨hal, hack⟩
    · simp [hsent]
    · have hack' : acknowledged w.l.c i = false := hack
      simp [hinv hf hal, hack']
  · rw [clientStep_of_fault hf] at hf'
    exact absurd hf' hf

theorem step_reports (hinv : w.Inv) : ReportsLost w i := by
  intro hf hc hi he
  unfold Heartbeat.step at he
  rw [clientStep_of_none hf] at he
  have hdead : ∃ f, w.l.c.mFRTCconn = some f ∧ f.st.conn.mbAliving = false := by
    rcases hi with rfl | rfl
    · exact whenCtx_reports (c := w.l.start) rfl (fun s => signalKeepalive_silent) he
    · exact whenCtx_reports (c := w.l.start) rfl (fun s => signalKeepaliveCheckResult_silent) he
  obtain ⟨f, hconn, ha⟩ := hdead
  refine hinv hf ?_
  rw [Client.connected, hconn] at hc
  rw [Client.alive, hconn]
  exact congrArg some (Prod.ext hc ha)

end

/-- **A connection error is reported only for a message that was not acknowledged**, in every run in
which the keepalive timer finds a session. -/
theorem reports_of_session (is : List ClientIn) (h : Along Heartbeat.step HasSession .init is) :
    Along Heartbeat.step ReportsLost .init is :=
  along_of_inv (fun _ _ hinv h => step_beat hinv h) (fun _ _ hinv _ => step_reports hinv) is Heartbeat.init nofun h

instance (w : Heartbeat) (i : ClientIn) : Decidable (HasSession w i) := by
  unfold HasSession
  split <;> infer_instance

def lostBeat : List ClientIn :=
  [.init, .loginRoom ⟨0, true, true, true⟩ true, .wsOpen fun _ => 0,
   .wsMsg (fun _ => 1) ⟨true, [(.janus, ascii "success"), (.transaction, ascii "AAAAAAAAAAAA"),
     (.dataId, ascii "5")], by decide⟩,
   .keepalive, .keepaliveCheckResult]

theorem reports_lostBeat :
    (.conn (.observer .onRTCConnectError)) ∈ (outs Heartbeat.step .init lostBeat).flatten ∧
    Along Heartbeat.step ReportsLost .init lostBeat :=
  ⟨by decide +kernel, reports_of_session lostBeat (by decide +kernel)⟩

/-- A tick before the session is created sends nothing, and the check reports an error. -/
theorem report_without_session :
    (outs Heartbeat.step .init [.init, .loginRoom ⟨0, true, true, true⟩ true, .wsOpen fun _ => 0,
      .keepalive, .keepaliveCheckResult]).drop 3 =
      [[], [.conn (.observer .onRTCConnectError), .conn (.observer .onCirrusDisconnected)]] := by
  decide +kernel

end BareRTC.Signal
