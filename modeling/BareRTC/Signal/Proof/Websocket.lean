import BareRTC.Signal.Proof.Client

/-!
# Data is sent on an open websocket

`sendMessage` goes by `mRTCConnected`, which is set when the websocket opens and stays set when it
fails or is closed: `Client.severed`. As long as nothing is sent in that state, all data goes to a
socket that has opened and was neither closed nor failed since (`sendsOpened_of_quiet`).
-/

namespace BareRTC.Signal

open EStateM (Result)

def SendsOpened (l : ClientMachine) (i : ClientIn) : Prop :=
  ∀ p ∈ sends (clientStep l i).2, ∃ k, p = (some k, some .opened)

def Client.severed (c : Client) : Bool :=
  c.mFRTCconn.any fun f => f.st.conn.mRTCConnected && f.mWSConnetion.map c.ws != some .opened

def Quiet (l : ClientMachine) (i : ClientIn) : Prop :=
  l.fault = none → l.c.severed →
  match i with
  | .wsMsg .. => l.c.ctx.map l.c.ws ≠ some .failed
  | .keepalive => ∀ f ∈ l.c.mFRTCconn, f.st.conn.mbAliving → f.st.conn.mSessionId = 0
  | .sendMessageToUser .. | .publishOwnFeed _ | .createAnswer _ | .stopPublish
  | .subscribeStreaming .. | .stopSubscribeStreaming => False
  | _ => True

section
variable {s : St}

theorem signalKeepalive_not (he : s.evs = [])
    (h : ¬ s.conn.mRTCConnected ∨ (s.conn.mbAliving → s.conn.mSessionId = 0)) :
    requests (Result.state (signalKeepalive s)).evs = [] := by
  rw [signalKeepalive, get_bind]
  split
  · rename_i ha
    have hk := keepAlive_not (s := { s with conn := { s.conn with mbAliving := false } }) (h.imp_right fun h => h ha)
    have hrun : (modConn (fun c => { c with mbAliving := false }) >>= fun _ => keepAlive) s =
        .ok () { s with conn := { s.conn with mbAliving := false } } :=
      (bind_of_ok (modify_apply)).trans hk
    rw [hrun]
    exact congrArg requests he
  · exact (congrArg (fun evs => requests (evs ++ _ ++ _)) he).trans rfl

theorem subscriberCreateHandle_not (he : s.evs = []) (h : ¬ s.conn.mRTCConnected)
    {rnd : Nat → Nat} {id : UInt64} :
    requests (Result.state (subscriberCreateHandle rnd id s)).evs = [] := by
  obtain ⟨s', hr, -, -, hev⟩ := subscriberCreateHandle_ok
  rw [hr, Result.state_ok, hev, he, if_neg h]
  rfl

end

/-! ## Calls that keep to an open socket -/

def SocketKnown (c : Client) : Prop :=
  ∀ f k, c.mFRTCconn = some f → f.mWSCtx = some k → f.mWSConnetion = some k ∨ c.ws k = .closed

structure Sound (c : Client) : Prop where
  known : SocketKnown c
  sends : ∀ p ∈ sends c.evs, ∃ k, p = (some k, some .opened)

def Sendable (c : Client) (f : FRTCConnection) (x : ConnM Unit) : Prop :=
  requests (Result.state (x f.start)).evs = [] ∨ ∃ k, f.mWSConnetion = some k ∧ c.ws k = .opened

variable {i : ClientIn}

section
variable {c : Client} {f : FRTCConnection} {x : ConnM Unit} {c' : Client}

theorem Sound.of_nil (hk : SocketKnown c) (he : Signal.sends c.evs = []) : Sound c := by
  refine ⟨hk, fun p hp => ?_⟩
  rw [he] at hp
  cases hp

theorem not_severed (h : ¬ c.severed) (hf : c.mFRTCconn = some f) :
    ¬ f.st.conn.mRTCConnected ∨ ∃ k, f.mWSConnetion = some k ∧ c.ws k = .opened := by
  simp only [Client.severed, hf, Option.any_some, Bool.and_eq_true, bne_iff_ne, not_and, not_not] at h
  by_cases hc : f.st.conn.mRTCConnected
  · exact .inr (by simpa using h hc)
  · exact .inl hc

theorem Disconnected.socketKnown (h : Disconnected c f c') : SocketKnown c' := by
  obtain ⟨st, hst, -⟩ := h.conn
  intro f' k hf' hctx
  cases hst.symm.trans hf'
  cases hctx

theorem Connecting.socketKnown {b : Bool} (h : Connecting b c f c') : SocketKnown c' := by
  obtain ⟨st, hst, -⟩ := h.conn
  intro f' k hf' hctx
  cases hst.symm.trans hf'
  cases hctx
  cases b with
  | true => exact .inl rfl
  | false => exact .inr (by rw [h.ws]; exact Function.update_self _ _ _)

theorem onConn_sound (hk : SocketKnown c) (he : sends c.evs = [])
    (hx : ∀ f, c.mFRTCconn = some f → Sendable c f x) : Sound (Result.state (onConn x c)) := by
  cases hf : c.mFRTCconn with
  | none =>
    rw [onConn_none hf]
    exact .of_nil hk he
  | some f =>
    obtain ⟨p, q, ha⟩ := after_eq c
    rw [(onConn_some hf x).1, ha]
    refine ⟨?_, fun p hp => ?_⟩
    · intro f' k hf' hctx
      cases hf'
      exact hk f k hf hctx
    simp only [sends_append, he, List.nil_append, sends_event, List.mem_map] at hp
    obtain ⟨r, hr, rfl⟩ := hp
    rcases hx f hf with hnone | ⟨k, hconn, hws⟩
    · rw [hnone] at hr
      cases hr
    · exact ⟨k, by rw [hconn, Option.map_some, hws]⟩

theorem whenConn_sound (hk : SocketKnown c) (he : sends c.evs = [])
    (hx : ∀ f, c.mFRTCconn = some f → Sendable c f x) : Sound (Result.state (whenConn x c)) := by
  rw [whenConn, get_bind]
  split
  · exact .of_nil hk he
  · exact onConn_sound hk he hx

theorem whenCtx_sound (hk : SocketKnown c) (he : sends c.evs = [])
    (hx : ∀ f, c.mFRTCconn = some f → Sendable c f x) : Sound (Result.state (whenCtx x c)) := by
  rw [whenCtx, get_bind]
  split
  · exact .of_nil hk he
  · exact onConn_sound hk he hx

/-- A poll of a socket that is not closed: it is the one in `mWSConnetion`. -/
theorem poll_sound {ok : WsState → Bool} {w : WsState → WsState} (hk : SocketKnown c)
    (he : sends c.evs = []) (hok : ok .closed = false)
    (hx : ∀ f k, c.mFRTCconn = some f → f.mWSConnetion = some k → c.ctx = some k → ok (c.ws k) →
      Sendable { c with ws := Function.update c.ws k (w (c.ws k)) } f x) :
    Sound (Result.state (poll ok w x c)) := by
  cases hctx : c.ctx with
  | none =>
    rw [poll_none hctx]
    exact .of_nil hk he
  | some k =>
    rw [poll_some hctx]
    split
    swap
    · exact .of_nil hk he
    rename_i hready
    have hne : c.ws k ≠ .closed := by
      intro h
      rw [h, hok] at hready
      cases hready
    have hconn : ∀ f, c.mFRTCconn = some f → f.mWSCtx = some k ∧ f.mWSConnetion = some k := by
      intro f hf
      have : f.mWSCtx = some k := by rw [← hctx, Client.ctx, hf]; rfl
      exact ⟨this, (hk f k hf this).resolve_right hne⟩
    refine onConn_sound ?_ he fun f hf => hx f k hf (hconn f hf).2 hctx hready
    intro f k' hf hk'
    have : k' = k := Option.some.inj (hk'.symm.trans (hconn f hf).1)
    exact .inl (this ▸ (hconn f hf).2)

theorem Managed.sound (hm : Managed c i c') (hk : SocketKnown c) (he : sends c.evs = []) : Sound c' := by
  cases hm with
  | idle | forgets => exact .of_nil hk he
  | init =>
    refine .of_nil (fun f k hf hctx => ?_) he
    cases hf
    cases hctx
  | ends _ _ _ hd => exact .of_nil hd.socketKnown (hd.sends.trans he)
  | login _ _ _ _ _ _ hs hcon => exact .of_nil hcon.socketKnown (hcon.sends.trans (hs.trans he))

theorem run_sound (hk : SocketKnown c) (he : c.evs = []) (h : Quiet ⟨c, none⟩ i) : Sound (Result.state (i.run c)) := by
  have hs : sends c.evs = [] := by rw [he]; rfl
  -- a call that sends nothing unless it is connected
  have hcall : ∀ {x : ConnM Unit}, ¬ c.severed →
      (∀ s : St, s.evs = [] → ¬ s.conn.mRTCConnected → requests (Result.state (x s)).evs = []) →
      ∀ f, c.mFRTCconn = some f → Sendable c f x := by
    intro x hsev hx f hf
    exact (not_severed hsev hf).imp_left fun hc => hx f.start rfl hc
  have hbuild : ∀ {x : ConnM Unit}, ¬ c.severed →
      (∀ s : St, ¬ s.conn.mRTCConnected → x s = .ok () s) →
      ∀ f, c.mFRTCconn = some f → Sendable c f x := by
    intro x hsev hx
    refine hcall hsev fun s hev hc => ?_
    rw [hx s hc]
    exact congrArg requests hev
  have hclosed : ∀ c' f, Sendable c' f onRTCClosed := fun c' f => .inl rfl
  have hmanaged : i.manages → Sound (Result.state (i.run c)) := by
    intro hm
    obtain ⟨c', hrun, hm⟩ := managed hm c
    rw [hrun]
    exact hm.sound hk hs
  cases i with
  | init | deInit | loginRoom | logoutRoom => exact hmanaged rfl
  | wsOpen rnd =>
    unfold ClientIn.run
    refine poll_sound hk hs rfl fun f k _ hconn _ _ => .inr ⟨k, hconn, ?_⟩
    exact Function.update_self _ _ _
  | wsMsg rnd m =>
    unfold ClientIn.run
    refine poll_sound hk hs rfl fun f k hf hconn hctx hready => ?_
    simp only [id_eq, Function.update_eq_self]
    by_cases hsev : c.severed
    · -- the socket is open, since it has not failed
      simp only [Bool.or_eq_true, decide_eq_true_eq] at hready
      have hne : c.ws k ≠ .failed := fun hw => h rfl hsev (by rw [hctx, Option.map_some, hw])
      exact .inr ⟨k, hconn, hready.resolve_right hne⟩
    · exact hbuild hsev (fun s hc => onRTCMessage_not hc) f hf
  | wsError | wsClose => unfold ClientIn.run; exact poll_sound hk hs rfl fun f k _ _ _ _ => hclosed _ f
  | keepalive =>
    refine whenCtx_sound hk hs fun f hf => ?_
    by_cases hsev : c.severed
    · exact .inl (signalKeepalive_not rfl (.inr (h rfl hsev f hf)))
    · exact hcall hsev (fun s hev hc => signalKeepalive_not hev (.inl hc)) f hf
  | keepaliveCheckResult =>
    refine whenCtx_sound hk hs fun f hf => .inl ?_
    rw [signalKeepaliveCheckResult, get_bind]
    split <;> rfl
  | sendMessageToUser | publishOwnFeed | createAnswer | stopPublish | stopSubscribeStreaming =>
    exact whenConn_sound hk hs (hbuild (h rfl) fun s hc => sendMessage_not hc)
  | subscribeStreaming rnd feedId =>
    exact whenConn_sound hk hs (hcall (h rfl) fun s hev hc => subscriberCreateHandle_not hev hc)

end

theorem step_sound {l : ClientMachine} (hk : SocketKnown l.c) (h : Quiet l i) :
    SocketKnown (clientStep l i).1.c ∧ SendsOpened l i := by
  unfold SendsOpened
  by_cases hf : l.fault = none
  · have hsound : Sound (Result.state (i.run l.start)) := run_sound (c := l.start) hk rfl fun _ => h hf
    rw [clientStep_of_none hf]
    exact ⟨hsound.known, hsound.sends⟩
  · rw [clientStep_of_fault hf]
    exact ⟨hk, nofun⟩

/-- **Data is sent on an open websocket only**, in every run in which nothing is sent after the
socket failed or was closed, or before a new one has opened. -/
theorem sendsOpened_of_quiet (is : List ClientIn) (h : Along clientStep Quiet .init is) :
    Along clientStep SendsOpened .init is :=
  along_of_inv (fun _ _ hk hq => (step_sound hk hq).1) (fun _ _ hk hq => (step_sound hk hq).2) is
    ClientMachine.init nofun h

instance (l : ClientMachine) (i : ClientIn) : Decidable (Quiet l i) := by
  unfold Quiet
  cases i <;> infer_instance

def openClosed : List ClientIn :=
  [.init, .loginRoom ⟨0, true, true, true⟩ true, .wsOpen fun _ => 0, .sendMessageToUser (ascii "x") 0,
   .keepalive, .wsClose, .logoutRoom]

theorem sendsOpened_openClosed :
    sends (outs clientStep .init openClosed).flatten = [(some 0, some .opened), (some 0, some .opened)] ∧
    Along clientStep SendsOpened .init openClosed :=
  ⟨by decide +kernel, sendsOpened_of_quiet openClosed (by decide +kernel)⟩

/-- The connection still counts as connected when the socket has been closed. -/
theorem sends_closed :
    (outs clientStep .init [.init, .loginRoom ⟨0, true, true, true⟩ true, .wsOpen fun _ => 0, .wsClose,
      .sendMessageToUser (ascii "x") 0]).getLast?.map sends = some [(some 0, some .closed)] := by
  decide +kernel

end BareRTC.Signal
