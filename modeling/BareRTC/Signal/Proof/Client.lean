import BareRTC.Signal.Client
import BareRTC.Signal.Proof.Frame

/-!
# The websocket contexts of a client

`onConn_some`: a call of the connection changes its state, the handles that the observer keeps, and
nothing of the websocket. `disconnect` is only reached when the websocket has opened, so a logout
before that leaves the context behind; if no logout and no `deInit` comes so early, and no `init`
while logged in, then at most one context exists at any time (`tidy_iff`).
-/

namespace BareRTC.Signal

open List

open EStateM (Result)

/-! ## Calls of the connection -/

variable {evs : List Ev}

theorem foldl_observe (c : Client) : ∃ p q, evs.foldl Client.observe c =
    { c with mPulisherHandleId := p, mListernerHandleId := q } := by
  induction evs generalizing c with
  | nil => exact ⟨_, _, rfl⟩
  | cons e evs ih =>
    obtain ⟨p, q, h⟩ := ih (c.observe e)
    rw [foldl_cons, h]
    unfold Client.observe
    split <;> exact ⟨p, q, rfl⟩

def FRTCConnection.start (f : FRTCConnection) : St := { f.st with evs := [] }

theorem after_eq (c : Client) {f : FRTCConnection} {s : St} : ∃ p q, c.after f s =
    { c with mFRTCconn := some { f with st := s }, mPulisherHandleId := p, mListernerHandleId := q,
             evs := c.evs ++ s.evs.map (c.event f) } := by
  unfold Client.after
  obtain ⟨p, q, h⟩ := foldl_observe { c with
    mFRTCconn := some { f with st := s }, evs := c.evs ++ s.evs.map (c.event f) }
  exact ⟨p, q, h⟩

theorem onConn_eq {c : Client} {f : FRTCConnection} (h : c.mFRTCconn = some f) (x : ConnM Unit) :
    onConn x c = match x f.start with
      | .ok _ s => .ok () (c.after f s)
      | .error e s => .error e (c.after f s) := by
  unfold onConn
  rw [get_bind, h]
  change (match x f.start with
    | .ok _ s => set (c.after f s)
    | .error e s => do set (c.after f s); throw e : ClientM Unit) c = _
  cases x f.start <;> rfl

theorem onConn_some {c : Client} {f : FRTCConnection} (h : c.mFRTCconn = some f) (x : ConnM Unit) :
    Result.state (onConn x c) = c.after f (Result.state (x f.start)) ∧
    Result.err (onConn x c) = Result.err (x f.start) := by
  rw [onConn_eq h]
  cases x f.start <;> exact ⟨rfl, rfl⟩

theorem onConn_none {c : Client} (h : c.mFRTCconn = none) (x : ConnM Unit) : onConn x c = .error .nullDeref c := by
  unfold onConn
  rw [get_bind, h]
  rfl

/-! ## What is seen of the contexts -/

def Client.ctx (c : Client) : Option Nat := c.mFRTCconn.bind (·.mWSCtx)

def connects (evs : List ClientEv) : List (Option Nat) :=
  evs.filterMap fun
    | .connecting k => some k
    | _ => none

@[simp] theorem connects_append {l l' : List ClientEv} : connects (l ++ l') = connects l ++ connects l' :=
  filterMap_append

theorem connects_event (c : Client) (f : FRTCConnection) : connects (evs.map (c.event f)) = [] := by
  unfold connects
  rw [filterMap_map, filterMap_eq_nil_iff]
  intro e _
  cases e <;> rfl

def sends (evs : List ClientEv) : List (Option Nat × Option WsState) :=
  evs.filterMap fun
    | .sendData d w _ => some (d, w)
    | _ => none

def requests (evs : List Ev) : List Request :=
  evs.filterMap fun
    | .sent r => some r
    | _ => none

@[simp] theorem sends_append (l l' : List ClientEv) : sends (l ++ l') = sends l ++ sends l' := filterMap_append

theorem sends_event (c : Client) (f : FRTCConnection) :
    sends (evs.map (c.event f)) = (requests evs).map fun _ => (f.mWSConnetion, f.mWSConnetion.map c.ws) := by
  induction evs with
  | nil => rfl
  | cons e evs ih =>
    have h : sends (c.event f e :: evs.map (c.event f)) =
        sends [c.event f e] ++ sends (evs.map (c.event f)) := sends_append [_] _
    have h' : requests (e :: evs) = requests [e] ++ requests evs := (filterMap_append : requests ([e] ++ evs) = _)
    rw [map_cons, h, ih, h', map_append]
    cases e <;> rfl

def Client.view (c : Client) : Bool × Bool × Option Nat × List Nat × List (Option Nat) :=
  (c.mIsInitialized, c.mIsLoginRoom, c.ctx, c.ctxs, connects c.evs)

theorem view_after {c : Client} {f : FRTCConnection} (h : c.mFRTCconn = some f) (s : St) :
    (c.after f s).view = c.view := by
  obtain ⟨p, q, he⟩ := after_eq c
  rw [he]
  simp [Client.view, Client.ctx, h, connects_event]

theorem keeps_onConn {x : ConnM Unit} : Keeps Client.view (onConn x) := by
  intro c
  cases h : c.mFRTCconn with
  | none => rw [onConn_none h]; rfl
  | some f => rw [(onConn_some h x).1, view_after h]

variable {w : WsState → WsState}

section
variable {v : Client → τ} {x : ConnM Unit}

theorem poll_keeps (hw : ∀ k w, Keeps v (setWs k w)) (hx : Keeps v (onConn x)) (ok : WsState → Bool)
    : Keeps v (poll ok w x) := by
  refine Keeps.get.bind fun c => ?_
  split
  · exact Keeps.pure
  split
  · exact (hw _ _).bind fun _ => hx
  · exact Keeps.pure

theorem whenConn_keeps (hx : Keeps v (onConn x)) : Keeps v (whenConn x) := by
  refine Keeps.get.bind fun c => ?_
  split
  · exact Keeps.pure
  · exact hx

theorem whenCtx_keeps (hx : Keeps v (onConn x)) : Keeps v (whenCtx x) := by
  refine Keeps.get.bind fun c => ?_
  split
  · exact Keeps.pure
  · exact hx

end

variable {ok : WsState → Bool}

theorem keeps_poll {x : ConnM Unit} : Keeps Client.view (poll ok w x) :=
  poll_keeps (fun _ _ _ => rfl) (keeps_onConn) ok

def ClientIn.manages : ClientIn → Bool
  | .init | .deInit | .loginRoom .. | .logoutRoom => true
  | _ => false

theorem keeps_run {i : ClientIn} (h : i.manages = false) : Keeps Client.view i.run := by
  cases i with
  | init | deInit | loginRoom | logoutRoom => cases h
  | wsOpen | wsMsg | wsError | wsClose => unfold ClientIn.run; exact keeps_poll
  | keepalive | keepaliveCheckResult => exact whenCtx_keeps (keeps_onConn)
  | sendMessageToUser | subscribeStreaming => exact whenConn_keeps (keeps_onConn)
  | publishOwnFeed | createAnswer | stopPublish | stopSubscribeStreaming =>
    exact Keeps.get.bind fun _ => whenConn_keeps (keeps_onConn)

theorem poll_none {c : Client} (h : c.ctx = none)
    (x : ConnM Unit) : poll ok w x c = .ok () c := by
  unfold Client.ctx at h
  unfold poll
  rw [get_bind, h]
  rfl

theorem poll_some {c : Client} {k : Nat} (h : c.ctx = some k)
    (x : ConnM Unit) : poll ok w x c =
      if ok (c.ws k) then onConn x { c with ws := Function.update c.ws k (w (c.ws k)) }
      else .ok () c := by
  unfold Client.ctx at h
  unfold poll
  rw [get_bind, h]
  dsimp only
  by_cases hok : ok (c.ws k)
  · rw [if_pos hok, if_pos hok]
    exact bind_of_ok (modify_apply)
  · rw [if_neg hok, if_neg hok]
    rfl

/-! ## Disconnecting -/

section
variable {c : Client} {f : FRTCConnection}

theorem onConn_ok {x : ConnM Unit} {s : St} (h : c.mFRTCconn = some f) (hx : x f.start = .ok () s) :
    ∃ p q, onConn x c = .ok () { c with
      mFRTCconn := some { f with st := s }, mPulisherHandleId := p, mListernerHandleId := q,
      evs := c.evs ++ s.evs.map (c.event f) } := by
  obtain ⟨p, q, he⟩ := after_eq c
  refine ⟨p, q, ?_⟩
  rw [onConn_eq h, hx, ← he]

theorem uninitContext_ok (h : c.mFRTCconn = some f) {k : Nat} :
    ∃ c' st, uninitContext k c = .ok () c' ∧ c'.mFRTCconn = some { f with st := st } ∧
      c'.ctxs = c.ctxs.erase k ∧ c'.mIsInitialized = c.mIsInitialized ∧
      c'.mIsLoginRoom = c.mIsLoginRoom ∧ connects c'.evs = connects c.evs ∧
      sends c'.evs = sends c.evs := by
  unfold uninitContext
  rw [get_bind]
  split
  · obtain ⟨p, q, hr⟩ := onConn_ok (c := { c with ws := Function.update c.ws k .closed }) h
      (show onRTCClosed f.start = .ok () _ from rfl)
    refine ⟨_, _, (bind_of_ok (modify_apply)).trans (bind_of_ok hr), rfl, rfl, rfl, rfl, ?_, ?_⟩
    · rw [connects_append, connects_event, append_nil]
    · rw [sends_append, sends_event]
      exact append_nil _
  · exact ⟨_, f.st, rfl, h, rfl, rfl, rfl, rfl, rfl⟩

structure Disconnected (c : Client) (f : FRTCConnection) (c' : Client) : Prop where
  conn : ∃ st, c'.mFRTCconn = some ⟨st, none, none⟩ ∧ st.conn.mRTCConnected = false
  ctxs : c'.ctxs = f.mWSCtx.elim c.ctxs c.ctxs.erase
  isInitialized : c'.mIsInitialized = c.mIsInitialized
  isLoginRoom : c'.mIsLoginRoom = c.mIsLoginRoom
  connects : connects c'.evs = connects c.evs
  sends : sends c'.evs = sends c.evs

theorem disconnectWs_ok (h : c.mFRTCconn = some f) : ∃ c', disconnectWs c = .ok () c' ∧ Disconnected c f c' := by
  have hdrop : ∃ c1 st, dropContext f.mWSCtx c = .ok () c1 ∧
      c1.mFRTCconn = some ⟨st, none, f.mWSConnetion⟩ ∧ c1.ctxs = f.mWSCtx.elim c.ctxs c.ctxs.erase ∧
      c1.mIsInitialized = c.mIsInitialized ∧ c1.mIsLoginRoom = c.mIsLoginRoom ∧
      Signal.connects c1.evs = Signal.connects c.evs ∧ Signal.sends c1.evs = Signal.sends c.evs := by
    cases hk : f.mWSCtx with
    | none => exact ⟨c, f.st, rfl, by rw [h, ← hk], rfl, rfl, rfl, rfl, rfl⟩
    | some k =>
      obtain ⟨c1, st, hr, hconn, hctxs, hi, hl, hco, hs⟩ := uninitContext_ok h
      refine ⟨_, st, (bind_of_ok hr).trans (modify_apply), ?_, hctxs, hi, hl, hco, hs⟩
      simp only [hconn]
      rfl
  obtain ⟨c1, st, hr, hconn, hctxs, hi, hl, hco, hs⟩ := hdrop
  obtain ⟨p, q, hd⟩ := onConn_ok (f := ⟨st, none, none⟩)
    (c := { c1 with mFRTCconn := some ⟨st, none, none⟩ }) rfl (show disconnect _ = .ok () _ from rfl)
  have hstep : disconnectWs c = onConn disconnect { c1 with mFRTCconn := some ⟨st, none, none⟩ } := by
    unfold disconnectWs
    rw [get_bind, h]
    dsimp only
    rw [bind_of_ok hr, modFRTCconn, bind_of_ok (modify_apply)]
    simp only [hconn, Option.map_some]
  refine ⟨_, hstep.trans hd, ⟨⟨_, rfl, rfl⟩, hctxs, hi, hl, ?_, ?_⟩⟩
  · exact (connects_append).trans (by rw [connects_event, append_nil, hco])
  refine (sends_append _ _).trans ?_
  rw [sends_event, hs]
  exact append_nil _

structure Connecting (b : Bool) (c : Client) (f : FRTCConnection) (c' : Client) : Prop where
  conn : ∃ st, c'.mFRTCconn = some ⟨st, some c.next, if b then some c.next else none⟩ ∧
    st.conn = f.st.conn
  ctxs : c'.ctxs = c.next :: c.ctxs
  ws : c'.ws = Function.update c.ws c.next (if b then WsState.connecting else WsState.closed)
  isInitialized : c'.mIsInitialized = c.mIsInitialized
  isLoginRoom : c'.mIsLoginRoom = c.mIsLoginRoom
  connects : connects c'.evs = connects c.evs ++ [f.mWSCtx]
  sends : sends c'.evs = sends c.evs

variable {b : Bool}

theorem connecting_ok (h : c.mFRTCconn = some f) :
    ∃ c', connecting b c = .ok () c' ∧ Connecting b c f c' := by
  unfold connecting
  rw [get_bind, h]
  cases b with
  | true =>
    refine ⟨_, rfl, ⟨⟨_, rfl, rfl⟩, rfl, rfl, rfl, rfl, ?_, ?_⟩⟩
    · exact connects_append
    · exact (sends_append _ _).trans (append_nil _)
  | false =>
    obtain ⟨p, q, hr⟩ := onConn_ok (f := { f with mWSCtx := some c.next, mWSConnetion := none })
      (c := { c with
        mFRTCconn := some { f with mWSCtx := some c.next, mWSConnetion := none }
        ctxs := c.next :: c.ctxs
        ws := Function.update c.ws c.next .closed
        next := c.next + 1
        evs := c.evs ++ [ClientEv.connecting f.mWSCtx] }) rfl
      (show observe .onRTCConnectError _ = .ok () _ from rfl)
    refine ⟨_, hr, ⟨⟨_, rfl, rfl⟩, rfl, rfl, rfl, rfl, ?_, ?_⟩⟩
    · refine (connects_append).trans ?_
      rw [connects_event, append_nil]
      exact connects_append
    refine (sends_append _ _).trans ?_
    rw [sends_event]
    exact (append_nil _).trans ((sends_append _ _).trans (append_nil _))

theorem connected_some (h : c.connected) : ∃ f, c.mFRTCconn = some f := by
  unfold Client.connected at h
  cases hf : c.mFRTCconn with
  | none => rw [hf] at h; cases h
  | some f => exact ⟨f, rfl⟩

theorem loginRoom_ok (hl : c.mIsLoginRoom = false) (hf : c.mFRTCconn = some f) {s : LoginSettings}
    : ∃ c1 c' f1, c1.ctxs = c.ctxs ∧ f1.mWSCtx = f.mWSCtx ∧
      (f1.st.conn.mRTCConnected, f1.st.conn.mbAliving) = (f.st.conn.mRTCConnected, f.st.conn.mbAliving) ∧
      connects c1.evs = connects c.evs ∧ sends c1.evs = sends c.evs ∧ Connecting b c1 f1 c' ∧
      loginRoom s b c = .ok () { c' with mIsLoginRoom := true } := by
  have hset : ∃ c1 st, onConn (In.login s.feedId s.autoSubscribe s.asListener s.asPublisher).run c =
      .ok () c1 ∧ c1.mFRTCconn = some { f with st := st } ∧ c1.ctxs = c.ctxs ∧
      (st.conn.mRTCConnected, st.conn.mbAliving) = (f.st.conn.mRTCConnected, f.st.conn.mbAliving) ∧
      connects c1.evs = connects c.evs ∧ sends c1.evs = sends c.evs := by
    obtain ⟨p, q, hr⟩ := onConn_ok hf
      (show (In.login s.feedId s.autoSubscribe s.asListener s.asPublisher).run f.start = .ok () _ from rfl)
    refine ⟨_, _, hr, rfl, rfl, rfl, ?_, ?_⟩
    · exact (connects_append).trans (by rw [connects_event, append_nil])
    refine (sends_append _ _).trans ?_
    rw [sends_event]
    exact append_nil _
  obtain ⟨c1, st, hr, hf1, hctxs, halive, hco, hs⟩ := hset
  obtain ⟨c', hr', hc'⟩ := connecting_ok hf1
  refine ⟨c1, c', { f with st := st }, hctxs, rfl, halive, hco, hs, hc', ?_⟩
  rw [loginRoom, get_bind, hl, hf]
  simp only [Option.isNone_some, Bool.or_self, Bool.false_eq_true, if_false]
  rw [bind_of_ok hr]
  exact bind_of_ok hr'

inductive Managed (c : Client) : ClientIn → Client → Prop
  | idle {i : ClientIn} (h : match i with
      | .init => c.mIsInitialized
      | .deInit => ¬ c.mIsInitialized
      | .logoutRoom => ¬ c.mIsLoginRoom
      | _ => True) : Managed c i c
  | init (hi : ¬ c.mIsInitialized) :
      Managed c .init { c with mFRTCconn := some ⟨construct, none, none⟩, mIsInitialized := true }
  | forgets {i : ClientIn} {b : Bool} (hi : i = .deInit ∧ c.mIsInitialized ∨ i = .logoutRoom)
      (hc : ¬ c.connected) : Managed c i { c with mIsLoginRoom := false, mIsInitialized := b }
  | ends {i : ClientIn} {b : Bool} {f : FRTCConnection} {c1 : Client} (hi : i = .deInit ∨ i = .logoutRoom)
      (hc : c.connected) (hf : c.mFRTCconn = some f) (hd : Disconnected c f c1) :
      Managed c i { c1 with mIsLoginRoom := false, mIsInitialized := b }
  | login {s : LoginSettings} {b : Bool} {f f1 : FRTCConnection} {c1 c' : Client} (hl : c.mIsLoginRoom = false)
      (hf : c.mFRTCconn = some f) (hctxs : c1.ctxs = c.ctxs) (hctx : f1.mWSCtx = f.mWSCtx)
      (halive : (f1.st.conn.mRTCConnected, f1.st.conn.mbAliving) = (f.st.conn.mRTCConnected, f.st.conn.mbAliving))
      (hconnects : connects c1.evs = connects c.evs) (hsends : sends c1.evs = sends c.evs)
      (hcon : Connecting b c1 f1 c') : Managed c (.loginRoom s b) { c' with mIsLoginRoom := true }

theorem managed {i : ClientIn} (hi : i.manages) (c : Client) : ∃ c', i.run c = .ok () c' ∧ Managed c i c' := by
  cases i with
  | init =>
    by_cases hi : c.mIsInitialized
    · exact ⟨c, by rw [ClientIn.run, init, modify_apply, if_pos hi], .idle hi⟩
    · exact ⟨_, by rw [ClientIn.run, init, modify_apply, if_neg hi], .init hi⟩
  | deInit =>
    rw [ClientIn.run, deInit, get_bind]
    split
    swap
    · exact ⟨c, rfl, .idle ‹_›⟩
    rw [get_bind]
    split
    · obtain ⟨f, hf⟩ := connected_some ‹_›
      obtain ⟨c1, hr, hd⟩ := disconnectWs_ok hf
      exact ⟨_, bind_of_ok hr, .ends (.inl rfl) ‹_› hf hd⟩
    · exact ⟨_, rfl, .forgets (.inl ⟨rfl, ‹_›⟩) ‹_›⟩
  | logoutRoom =>
    rw [ClientIn.run, logoutRoom, get_bind]
    split
    swap
    · exact ⟨c, rfl, .idle ‹_›⟩
    rw [get_bind]
    split
    · obtain ⟨f, hf⟩ := connected_some ‹_›
      obtain ⟨c1, hr, hd⟩ := disconnectWs_ok hf
      exact ⟨_, bind_of_ok hr, .ends (.inr rfl) ‹_› hf hd⟩
    · exact ⟨_, rfl, .forgets (.inr rfl) ‹_›⟩
  | loginRoom s b =>
    by_cases hl : (c.mIsLoginRoom || c.mFRTCconn.isNone)
    · exact ⟨c, by rw [ClientIn.run, loginRoom, get_bind, if_pos hl]; rfl, .idle trivial⟩
    simp only [Bool.or_eq_true, not_or, Bool.not_eq_true, Option.isNone_eq_false_iff, Option.isSome_iff_exists] at hl
    obtain ⟨hl, f, hf⟩ := hl
    obtain ⟨c1, c', f1, hctxs, hctx, halive, hco, hs, hcon, hrun⟩ := loginRoom_ok hl hf
    exact ⟨_, hrun, .login hl hf hctxs hctx halive hco hs hcon⟩
  | _ => cases hi

end

/-! ## Runs -/

theorem clientStep_of_fault {l : ClientMachine} (h : l.fault ≠ none) (i : ClientIn) : clientStep l i = (l, []) := by
  obtain ⟨e, he⟩ := Option.ne_none_iff_exists'.1 h
  simp only [clientStep, he]

def ClientMachine.start (l : ClientMachine) : Client := { l.c with evs := [] }

theorem clientStep_of_none {l : ClientMachine} (h : l.fault = none) (i : ClientIn) :
    clientStep l i = (⟨Result.state (i.run l.start), Result.err (i.run l.start)⟩,
      (Result.state (i.run l.start)).evs) := by
  simp only [clientStep, h]
  unfold ClientMachine.start
  cases i.run { l.c with evs := [] } <;> rfl

def Tidy (l : ClientMachine) (i : ClientIn) : Prop :=
  (clientStep l i).1.c.ctxs.length ≤ 1 ∧
  (∀ k ∈ (clientStep l i).1.c.ctxs, (clientStep l i).1.c.ctx = some k) ∧
  ((clientStep l i).1.c.mIsLoginRoom = false → (clientStep l i).1.c.ctx = none) ∧
  ∀ k ∈ connects (clientStep l i).2, k = none

def Orderly (l : ClientMachine) (i : ClientIn) : Prop :=
  l.fault = none → l.c.mIsLoginRoom →
  match i with
  | .init => l.c.mIsInitialized
  | .deInit => l.c.mIsInitialized → l.c.connected
  | .logoutRoom => l.c.connected
  | _ => True

def OneContext (c : Client) : Prop := c.ctxs = c.ctx.toList ∧ c.mIsLoginRoom = c.ctx.isSome

theorem OneContext.tidy {l : ClientMachine} {i : ClientIn} (h : OneContext (clientStep l i).1.c)
    (hc : ∀ k ∈ connects (clientStep l i).2, k = none) : Tidy l i := by
  obtain ⟨hctxs, hlogin⟩ := h
  refine ⟨?_, fun k hk => ?_, fun hl => ?_, hc⟩
  · rw [hctxs]
    cases (clientStep l i).1.c.ctx <;> simp
  · rw [hctxs, Option.mem_toList] at hk
    exact hk
  · rw [hl] at hlogin
    exact Option.isNone_iff_eq_none.1 (by simpa using hlogin.symm)

structure Kempt (c : Client) : Prop where
  context : OneContext c
  connects : ∀ k ∈ connects c.evs, k = none

section
variable {c c' : Client} {f : FRTCConnection} {c1 : Client} {i : ClientIn}

theorem OneContext.ctx_eq_none (h : OneContext c) (hl : c.mIsLoginRoom = false) : c.ctx = none ∧ c.ctxs = [] := by
  obtain ⟨hctxs, hlogin⟩ := h
  have hnone : c.ctx = none := by
    cases hc : c.ctx with
    | none => rfl
    | some k => rw [hl, hc] at hlogin; cases hlogin
  exact ⟨hnone, by rw [hctxs, hnone]; rfl⟩

theorem Kempt.of_view (h : OneContext c) (he : c.evs = []) (hv : c'.view = c.view) : Kempt c' := by
  simp only [Client.view, Prod.mk.injEq] at hv
  obtain ⟨-, hl, hctx, hctxs, hco⟩ := hv
  refine ⟨⟨by rw [hctxs, hctx]; exact h.1, by rw [hl, hctx]; exact h.2⟩, fun k hk => ?_⟩
  rw [hco, he] at hk
  cases hk

theorem Kempt.of_none (hctx : c.ctx = none) (hctxs : c.ctxs = []) (hl : c.mIsLoginRoom = false)
    (hco : Signal.connects c.evs = []) : Kempt c := by
  refine ⟨⟨by rw [hctx, hctxs]; rfl, by rw [hctx, hl]; rfl⟩, fun k hk => ?_⟩
  rw [hco] at hk
  cases hk

theorem Disconnected.ctx (hd : Disconnected c f c1) : c1.ctx = none := by
  obtain ⟨st, hst, -⟩ := hd.conn
  rw [Client.ctx, hst]
  rfl

theorem Disconnected.ctxs_eq_nil (hd : Disconnected c f c1)
    (hf : c.mFRTCconn = some f) (h : OneContext c) : c1.ctxs = [] := by
  have hctx : c.ctx = f.mWSCtx := by rw [Client.ctx, hf]; rfl
  rw [hd.ctxs, h.1, hctx]
  cases f.mWSCtx <;> simp

theorem run_kempt (hinv : OneContext c) (he : c.evs = []) (h : Orderly ⟨c, none⟩ i) :
    Kempt (Result.state (i.run c)) := by
  have hev : connects c.evs = [] := by rw [he]; rfl
  have hnl : ¬ c.mIsLoginRoom → c.ctx = none ∧ c.ctxs = [] := fun hl =>
    hinv.ctx_eq_none (Bool.eq_false_iff.2 hl)
  by_cases hm : i.manages
  swap
  · exact .of_view hinv he (keeps_run (Bool.eq_false_iff.2 hm) c)
  obtain ⟨c', hrun, hm⟩ := managed hm c
  rw [hrun, Result.state_ok]
  cases hm with
  | idle => exact .of_view hinv he rfl
  | init hi =>
    have hl : ¬ c.mIsLoginRoom := fun hl => hi (h rfl hl)
    exact .of_none rfl (hnl hl).2 (Bool.eq_false_iff.2 hl) hev
  | forgets hi hc =>
    have hl : ¬ c.mIsLoginRoom := by
      intro hl
      rcases hi with ⟨rfl, hi⟩ | rfl
      · exact hc (h rfl hl hi)
      · exact hc (h rfl hl)
    exact .of_none (hnl hl).1 (hnl hl).2 rfl hev
  | ends _ _ hf hd => exact .of_none hd.ctx (hd.ctxs_eq_nil hf hinv) rfl (hd.connects.trans hev)
  | @login s b f f1 c1 c' hl hf hctxs1 hf1 _ hco1 _ hcon =>
    obtain ⟨hctx, hctxs⟩ := hinv.ctx_eq_none hl
    obtain ⟨st, hst, -⟩ := hcon.conn
    have hctx' : Client.ctx { c' with mIsLoginRoom := true } = some c1.next := by
      simp only [Client.ctx, hst]
      rfl
    refine ⟨⟨?_, ?_⟩, fun k hk => ?_⟩
    · rw [hctx']
      exact hcon.ctxs.trans (by rw [hctxs1, hctxs]; rfl)
    · rw [hctx']
      rfl
    have hk' : k ∈ connects c'.evs := hk
    rw [hcon.connects, hco1, hev, hf1, nil_append, mem_singleton] at hk'
    rw [hk', ← hctx, Client.ctx, hf]
    rfl

end

section
variable {l : ClientMachine} {i : ClientIn}

theorem step_oneContext (hinv : OneContext l.c) (h : Orderly l i) : OneContext (clientStep l i).1.c ∧ Tidy l i := by
  suffices hk : OneContext (clientStep l i).1.c ∧ ∀ k ∈ connects (clientStep l i).2, k = none from
    ⟨hk.1, hk.1.tidy hk.2⟩
  by_cases hf : l.fault = none
  · have hkempt : Kempt (Result.state (i.run l.start)) := run_kempt (c := l.start) hinv rfl fun _ => h hf
    rw [clientStep_of_none hf]
    exact ⟨hkempt.context, hkempt.connects⟩
  · rw [clientStep_of_fault hf]
    exact ⟨hinv, nofun⟩

/-- A logout before the websocket has opened keeps its context, and an `init` forgets it. -/
theorem Tidy.orderly (hinv : OneContext l.c) (h : Tidy l i) : Orderly l i := by
  intro hf hl
  obtain ⟨k, hk⟩ : ∃ k, l.c.ctx = some k := Option.isSome_iff_exists.1 (hinv.2 ▸ hl)
  unfold Tidy at h
  rw [clientStep_of_none hf] at h
  obtain ⟨-, hone, hnone, -⟩ := h
  by_cases hm : i.manages
  swap
  · cases i with
    | init | deInit | loginRoom | logoutRoom => exact absurd rfl hm
    | _ => trivial
  obtain ⟨c', hrun, hm⟩ := managed hm l.start
  rw [hrun] at hone hnone
  cases hm with
  | idle hidle =>
    cases i with
    | init => exact hidle
    | deInit => exact fun hi => absurd hi hidle
    | logoutRoom => exact absurd hl hidle
    | _ => trivial
  | init hi =>
    have hmem : k ∈ l.c.ctxs := by rw [hinv.1, hk]; exact mem_singleton_self k
    cases hone k hmem
  | forgets => cases hk.symm.trans (hnone rfl)
  | ends hi hc =>
    rcases hi with rfl | rfl
    · exact fun _ => hc
    · exact hc
  | login => trivial

end

/-- **At most one websocket context** exists, and none without a login: in exactly the runs in which
no logout, `deInit` or `init` abandons a connection that is being made. -/
theorem tidy_iff (is : List ClientIn) : Along clientStep Tidy .init is ↔ Along clientStep Orderly .init is :=
  along_iff_of_ok (fun _ _ hinv h => (step_oneContext hinv h).1)
    (fun _ _ hinv => ⟨fun h => h.orderly hinv, fun h => (step_oneContext hinv h).2⟩) is
    ClientMachine.init ⟨rfl, rfl⟩

/-- A logout before the websocket has opened, and a new login: two contexts exist. -/
theorem logout_before_open :
    (exec clientStep .init [.init, .loginRoom ⟨0, true, true, true⟩ true, .logoutRoom]).c.ctx = some 0 ∧
    (exec clientStep .init [.init, .loginRoom ⟨0, true, true, true⟩ true, .logoutRoom]).c.mIsLoginRoom = false ∧
    (outs clientStep .init [.init, .loginRoom ⟨0, true, true, true⟩ true, .logoutRoom,
      .loginRoom ⟨0, true, true, true⟩ true]).getLast? = some [.connecting (some 0)] ∧
    (exec clientStep .init [.init, .loginRoom ⟨0, true, true, true⟩ true, .logoutRoom,
      .loginRoom ⟨0, true, true, true⟩ true]).c.ctxs = [1, 0] := by
  refine ⟨?_, ?_, ?_, ?_⟩ <;> decide +kernel

end BareRTC.Signal
