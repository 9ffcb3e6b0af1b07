import BareRTC.Signal.Connection

/-!
# The client and its websocket (`barertc/src/brtc/baidu_rtc_signal_client.c`, `RTCConnection.c`)

A client has one connection, and the connection one websocket: a context (the event manager) and the
socket that `brtc_websocket_connect` makes in it. Contexts are numbered as they are made, and a
socket has the number of its context. The websocket library is assumed to poll one context only, the
one that `mWSCtx` points to, and to report to the connection what happens to its socket: it opens
once, then messages come, an error may be reported (messages that were read before are still
delivered), and it is closed once. Closing the context closes the socket.

What the observer does in answer to an event (`publishOwnFeed` when the publisher has joined, the
answer to a remote offer) are inputs of their own.
-/

namespace BareRTC.Signal

inductive WsState
  | connecting | opened | failed | closed
  deriving DecidableEq, Repr

structure FRTCConnection where
  st : St
  mWSCtx : Option Nat
  mWSConnetion : Option Nat

inductive ClientEv
  | conn (e : Ev)
  /-- `connecting` is executed, with this context in `mWSCtx`. -/
  | connecting (mWSCtx : Option Nat)
  /-- `brtc_websocket_send_data`, with how far the socket is. -/
  | sendData (c : Option Nat) (state : Option WsState) (r : Request)
  deriving DecidableEq, Repr

/-- `struct BaiduRtcClient`, and the contexts of the websocket library. -/
structure Client where
  mIsInitialized : Bool
  mIsLoginRoom : Bool
  mFRTCconn : Option FRTCConnection
  mPulisherHandleId : UInt64
  mListernerHandleId : UInt64
  /-- The contexts that exist. -/
  ctxs : List Nat
  ws : Nat → WsState
  next : Nat
  evs : List ClientEv

abbrev ClientM := EStateM Fault Client

def createClient : Client := ⟨false, false, none, 0, 0, [], fun _ => .closed, 0, []⟩

/-! ## Calls of the connection -/

def Client.observe (c : Client) : Ev → Client
  | .observer (.onPublisherJoined id) => { c with mPulisherHandleId := id }
  | .observer (.subscriberHandleRemoteJsep id _) => { c with mListernerHandleId := id }
  | _ => c

/-- An event of the connection, with the socket that a request goes to. -/
def Client.event (c : Client) (f : FRTCConnection) : Ev → ClientEv
  | .sent r => .sendData f.mWSConnetion (f.mWSConnetion.map c.ws) r
  | e => .conn e

def Client.after (c : Client) (f : FRTCConnection) (s : St) : Client :=
  s.evs.foldl Client.observe { c with
    mFRTCconn := some { f with st := s }
    evs := c.evs ++ s.evs.map (c.event f) }

def onConn (x : ConnM Unit) : ClientM Unit := do
  let c ← get
  match c.mFRTCconn with
  | none => throw .nullDeref
  | some f =>
    match x { f.st with evs := [] } with
    | .ok _ s => set (c.after f s)
    | .error e s => do
      set (c.after f s)
      throw e

def modFRTCconn (g : FRTCConnection → FRTCConnection) : ClientM Unit :=
  modify fun c => { c with mFRTCconn := c.mFRTCconn.map g }

def setWs (k : Nat) (w : WsState) : ClientM Unit :=
  modify fun c => { c with ws := Function.update c.ws k w }

/-! ## The websocket -/

/-- `connects` is whether `mg_ws_connect` makes a connection. -/
def connecting (connects : Bool) : ClientM Unit := do
  let c ← get
  match c.mFRTCconn with
  | none => throw .nullDeref
  | some f =>
    set { c with
      mFRTCconn := some { f with
        mWSCtx := some c.next, mWSConnetion := if connects then some c.next else none }
      ctxs := c.next :: c.ctxs
      ws := Function.update c.ws c.next (if connects then WsState.connecting else WsState.closed)
      next := c.next + 1
      evs := c.evs ++ [ClientEv.connecting f.mWSCtx] }
    if connects then return ()
    else onConn (observe .onRTCConnectError)

/-- `brtc_websocket_uninit_context`: the socket is closed, and that is reported. -/
def uninitContext (k : Nat) : ClientM Unit := do
  if (← get).ws k ≠ .closed then
    setWs k .closed
    onConn onRTCClosed
  modify fun c => { c with ctxs := c.ctxs.erase k }

/-- `if (conn->mWSCtx != NULL)`, in `disconnect` -/
def dropContext : Option Nat → ClientM Unit
  | none => return ()
  | some k => do
    uninitContext k
    modFRTCconn fun f => { f with mWSCtx := none }

def disconnectWs : ClientM Unit := do
  match (← get).mFRTCconn with
  | none => throw .nullDeref
  | some f =>
    dropContext f.mWSCtx
    modFRTCconn fun f => { f with mWSConnetion := none }
    onConn disconnect

/-- A poll of the context that `mWSCtx` points to, which reports `x` for a socket that is as far as
`ok` says; the socket is then `w`. -/
def poll (ok : WsState → Bool) (w : WsState → WsState) (x : ConnM Unit) : ClientM Unit := do
  let c ← get
  match c.mFRTCconn.bind (·.mWSCtx) with
  | none => return ()
  | some k =>
    if ok (c.ws k) then
      setWs k (w (c.ws k))
      onConn x

/-! ## Client calls -/

def init : ClientM Unit :=
  modify fun c =>
    if c.mIsInitialized then c
    else { c with mFRTCconn := some ⟨construct, none, none⟩, mIsInitialized := true }

/-- `client->mFRTCconn->mRTCConnected` -/
def Client.connected (c : Client) : Bool := c.mFRTCconn.any (·.st.conn.mRTCConnected)

def deInit : ClientM Unit := do
  if (← get).mIsInitialized then
    if (← get).connected then disconnectWs
    modify fun c => { c with mIsLoginRoom := false, mIsInitialized := false }

structure LoginSettings where
  feedId : UInt64
  autoSubscribe : Bool
  asListener : Bool
  asPublisher : Bool

def loginRoom (s : LoginSettings) (connects : Bool) : ClientM Unit := do
  let c ← get
  if c.mIsLoginRoom || c.mFRTCconn.isNone then return ()
  else
    onConn (In.login s.feedId s.autoSubscribe s.asListener s.asPublisher).run
    connecting connects
    modify fun c => { c with mIsLoginRoom := true }

def logoutRoom : ClientM Unit := do
  if (← get).mIsLoginRoom then
    if (← get).connected then disconnectWs
    modify fun c => { c with mIsLoginRoom := false }

def whenConn (x : ConnM Unit) : ClientM Unit := do
  if (← get).mFRTCconn.isNone then return ()
  else onConn x

/-- Both keepalive functions report a connection error in the same way. -/
def reportConnectError : ConnM Unit := do
  observe .onRTCConnectError
  observe .onCirrusDisconnected

/-- The common condition of the keepalive functions: there is a context. -/
def whenCtx (x : ConnM Unit) : ClientM Unit := do
  if ((← get).mFRTCconn.bind (·.mWSCtx)).isNone then return ()
  else onConn x

def signalKeepalive : ConnM Unit := do
  if (← get).conn.mbAliving then
    modConn fun c => { c with mbAliving := false }
    keepAlive
  else reportConnectError

def signalKeepaliveCheckResult : ConnM Unit := do
  if (← get).conn.mbAliving then return ()
  else reportConnectError

/-! ## Runs -/

inductive ClientIn
  | init | deInit
  | loginRoom (s : LoginSettings) (connects : Bool)
  | logoutRoom
  /-- What a poll reports. -/
  | wsOpen (rnd : Nat → Nat)
  | wsMsg (rnd : Nat → Nat) (m : Msg)
  | wsError | wsClose
  /-- The timers. -/
  | keepalive | keepaliveCheckResult
  | sendMessageToUser (msg : Bytes) (id : UInt64)
  /-- `publishOwnFeed`, with the encoded offer, and the answer to a remote offer. -/
  | publishOwnFeed (offer : Bytes)
  | createAnswer (answer : Bytes)
  | stopPublish
  | subscribeStreaming (rnd : Nat → Nat) (feedId : UInt64)
  | stopSubscribeStreaming

def ClientIn.run : ClientIn → ClientM Unit
  | .init => Signal.init
  | .deInit => Signal.deInit
  | .loginRoom s connects => Signal.loginRoom s connects
  | .logoutRoom => Signal.logoutRoom
  | .wsOpen rnd => poll (· = .connecting) (fun _ => .opened) (onRTCOpen rnd)
  | .wsMsg rnd m => poll (fun w => w = .opened || w = .failed) id (onRTCMessage rnd m)
  | .wsError => poll (fun w => w = .connecting || w = .opened) (fun _ => .failed) onRTCClosed
  | .wsClose => poll (· ≠ .closed) (fun _ => .closed) onRTCClosed
  | .keepalive => whenCtx signalKeepalive
  | .keepaliveCheckResult => whenCtx signalKeepaliveCheckResult
  | .sendMessageToUser msg id => whenConn (Signal.sendMessageToUser msg id false)
  | .publishOwnFeed offer => do
    whenConn (publisherCreateOffer (← get).mPulisherHandleId offer)
  | .createAnswer answer => do
    whenConn (subscriberCreateAnswer (← get).mListernerHandleId answer)
  | .stopPublish => do whenConn (unpublish (← get).mPulisherHandleId)
  | .subscribeStreaming rnd feedId => whenConn (subscriberCreateHandle rnd feedId)
  | .stopSubscribeStreaming => do whenConn (detach (← get).mListernerHandleId)

structure ClientMachine where
  c : Client
  fault : Option Fault

def ClientMachine.init : ClientMachine := ⟨createClient, none⟩

def clientStep (l : ClientMachine) (i : ClientIn) : ClientMachine × List ClientEv :=
  match l.fault with
  | some _ => (l, [])
  | none =>
    match i.run { l.c with evs := [] } with
    | .ok _ c => (⟨c, none⟩, c.evs)
    | .error e c => (⟨c, some e⟩, c.evs)

end BareRTC.Signal
