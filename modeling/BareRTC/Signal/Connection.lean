import BareRTC.Signal.Defs

/-!
# The signalling connection (`barertc/src/brtc/RTCConnection.c`)

`onRTCMessage` gives a message to the transaction it answers, or to `onEvent` and `onSessionEvent`.
`malloc` is taken to succeed, and the texts of the requests to fit in their buffers. `rnd` is what
`rand` returns for the transaction id that a call stores; the ids of requests that nothing waits
for are left out.
-/

namespace BareRTC.Signal

/-! ## Requests -/

def charTable : Bytes := ascii "ABCDEFGHIJKLMNOPQRSTUVWXYZabcdefghijklmnopqrstuvwxyz0123456789"

def generateString (rnd : Nat → Nat) (len : Nat) : Bytes :=
  (List.range (len - 1)).map fun cnt => charTable.getD (rnd cnt % 62) 0

def newId (rnd : Nat → Nat) : Bytes := generateString rnd RTC_JANUS_TRANSACTION_ID_LEN

def sendMessage (r : Request) : ConnM Unit := do
  if (← get).conn.mRTCConnected then emit (.sent r)

def TransactionMap.store (map : TransactionMap) (slot : Fin 8) (jt : RtcJanusTransaction) :
    TransactionMap :=
  ⟨Function.update map.jtId slot jt.transactionId, map.jts.put slot jt⟩

def Callback.slot : Callback → Fin 8
  | .createSession => 0
  | .publisherCreateHandle => 1
  | .createRoom => 2
  | .subscriberCreateHandle => 3

def storeTransaction (onSuccess : Callback) (rnd : Nat → Nat) : ConnM Unit :=
  modify fun s => { s with
    mJanusTransactionMap := s.mJanusTransactionMap.store onSuccess.slot ⟨newId rnd, onSuccess⟩ }

def createSession (rnd : Nat → Nat) : ConnM Unit := do
  storeTransaction .createSession rnd
  sendMessage (.create (newId rnd))

def publisherCreateHandle (rnd : Nat → Nat) : ConnM Unit := do
  storeTransaction .publisherCreateHandle rnd
  sendMessage (.attach (newId rnd) (← get).conn.mSessionId)

def createRoom (rnd : Nat → Nat) (handleId : UInt64) : ConnM Unit := do
  storeTransaction .createRoom rnd
  let c := (← get).conn
  sendMessage (.createRoom (newId rnd)
    (if c.mMediaServerStandalone_needRoomID then some c.mRoomId else none) c.mSessionId handleId)

def publisherJoinRoom (handleId : UInt64) : ConnM Unit := do
  let c := (← get).conn
  sendMessage (.joinPublisher c.mRoomId c.mSessionId handleId)

def subscriberJoinRoom (handleId feedId : UInt64) : ConnM Unit := do
  let c := (← get).conn
  sendMessage (.joinListener c.mRoomId feedId c.mSessionId handleId)

def subscriberCreateHandle (rnd : Nat → Nat) (feedId : UInt64) : ConnM Unit := do
  emit (.subscribed feedId (newId rnd))
  modConn fun c => { c with mFeedId := feedId }
  storeTransaction .subscriberCreateHandle rnd
  sendMessage (.attach (newId rnd) (← get).conn.mSessionId)

def keepAlive : ConnM Unit := do
  let c := (← get).conn
  if c.mSessionId = 0 then return ()
  else sendMessage (.keepAlive c.mSessionId)

def publisherCreateOffer (handleId : UInt64) (desc : Bytes) : ConnM Unit := do
  sendMessage (.offer desc (← get).conn.mSessionId handleId)

def subscriberCreateAnswer (handleId : UInt64) (desc : Bytes) : ConnM Unit := do
  let c := (← get).conn
  sendMessage (.answer c.mRoomId desc c.mSessionId handleId)

def sendMessageToUser (msg : Bytes) (id : UInt64) (internal : Bool) : ConnM Unit := do
  let c := (← get).conn
  sendMessage (.senddata c.mRoomId id msg internal c.mSessionId)

def unpublish (handleId : UInt64) : ConnM Unit := do
  sendMessage (.unpublish (← get).conn.mSessionId handleId)

def detach (handleId : UInt64) : ConnM Unit := do
  sendMessage (.detach (← get).conn.mSessionId handleId)

/-! ## Replies -/

def whenSome {α : Type} (o : Option α) (f : α → ConnM Unit) : ConnM Unit :=
  match o with
  | none => return ()
  | some a => f a

/-- A value is copied, and not used. -/
def saveUnused (v : Bytes) : ConnM Unit := do
  let _ ← save MIN_SIZE v

def createSessionCallback (rnd : Nat → Nat) (m : Msg) : ConnM Unit := do
  whenSome (← saveId m .dataId) fun id => modConn fun c => { c with mSessionId := id }
  whenSome (m.search .standalone) fun v => modConn fun c =>
    { c with mMediaServerStandalone_needRoomID := strncmpEq (ascii "true") v }
  whenSome (m.search .dataVersion) saveUnused
  publisherCreateHandle rnd

def publisherCreateHandleCallback (rnd : Nat → Nat) (m : Msg) : ConnM Unit := do
  whenSome (← saveId m .dataId) (createRoom rnd)

def HandlesMap.store (map : HandlesMap) (slot : Fin 2) (jh : RtcJanusHandle) : HandlesMap :=
  ⟨Function.update map.jhId slot jh.handleId, map.jhs.put slot jh⟩

def storeHandle (slot : Fin 2) (handleId : UInt64) (role : Role) : ConnM Unit :=
  modify fun s => { s with
    mJanusHandlesMap := s.mJanusHandlesMap.store slot ⟨handleId, s.conn.mFeedId, role⟩ }

def createRoomCallback (m : Msg) : ConnM Unit := do
  let handleId := (← saveId m .sender).getD 0
  whenSome (← saveId m .room) fun id => modConn fun c => { c with mRoomId := id }
  whenSome (m.search .jsep) saveUnused
  let c := (← get).conn
  if c.mAsPublisher then
    storeHandle 0 handleId .publisher
    publisherJoinRoom handleId
  else if c.mAsListener then
    storeHandle 0 handleId .subscriber
    subscriberJoinRoom handleId c.mFeedId
  else storeHandle 0 handleId .unset

def subscriberCreateHandleCallback (m : Msg) : ConnM Unit := do
  let handleId := (← saveId m .dataId).getD 0
  storeHandle 1 handleId .subscriber
  subscriberJoinRoom handleId (← get).conn.mFeedId

def runCallback (rnd : Nat → Nat) (m : Msg) : Callback → ConnM Unit
  | .createSession => createSessionCallback rnd m
  | .publisherCreateHandle => publisherCreateHandleCallback rnd m
  | .createRoom => createRoomCallback m
  | .subscriberCreateHandle => subscriberCreateHandleCallback m

/-- `strcpy(..jtId, ""); free(jt);`. The pointer in the map stays. -/
def TransactionMap.release (map : TransactionMap) (slot : Fin 8) (jt : Cell RtcJanusTransaction) :
    TransactionMap :=
  ⟨Function.update map.jtId slot [], map.jts.free jt⟩

def releaseTransaction (slot : Fin 8) (jt : Cell RtcJanusTransaction) : ConnM Unit :=
  modify fun s => { s with mJanusTransactionMap := s.mJanusTransactionMap.release slot jt }

def derefTransaction (jt : Cell RtcJanusTransaction) : ConnM RtcJanusTransaction := do
  if (← get).mJanusTransactionMap.jts.Live jt then return jt.val else throw (.freedTransaction jt)

def succeed (rnd : Nat → Nat) (m : Msg) (slot : Fin 8) : ConnM Unit := do
  match (← get).mJanusTransactionMap.jts.slot slot with
  | none => throw .nullDeref
  | some jt =>
    let t ← derefTransaction jt
    emit (.onSuccess slot jt)
    runCallback rnd m t.onSuccess
    releaseTransaction slot jt

/-- An `error` for the transaction of a slot; `RtcJanusTransaction_onError` does nothing. -/
def failWith (slot : Fin 8) (jt : Cell RtcJanusTransaction) : ConnM Unit := do
  let _ ← derefTransaction jt
  emit (.onError slot jt)
  releaseTransaction slot jt

def slots : List (Fin 8) := [0, 1, 2, 3, 4, 5, 6, 7]

def successLoop (rnd : Nat → Nat) (m : Msg) : List (Fin 8) → ConnM Unit
  | [] => return ()
  | i :: is => do
    if strncmpEq ((← get).mJanusTransactionMap.jtId i) (m.val .transaction) then succeed rnd m i
    else successLoop rnd m is

/-- The loop for `error`; it passes over slots that were never used. -/
def errorLoop (m : Msg) : List (Fin 8) → ConnM Unit
  | [] => return ()
  | i :: is => do
    let map := (← get).mJanusTransactionMap
    if strncmpEq (map.jtId i) (m.val .transaction) then
      match map.jts.slot i with
      | some jt => failWith i jt
      | none => errorLoop m is
    else errorLoop m is

/-! ## Events -/

/-- `plugindata.data.leaving`; whether the event is handled by it. -/
def eventLeaving (m : Msg) : ConnM Bool := do
  match ← saveId m .leaving with
  | none => return false
  | some hid =>
    if hid = 0 then return false
    else
      let w := (← get).conn.webListener
      if w 0 = hid then modConn fun c => { c with webListener := Function.update w 0 0 }
      else if w 1 = hid then modConn fun c => { c with webListener := Function.update w 1 0 }
      else observe (.onLeaving hid)
      return true

def eventUnpublished (m : Msg) : ConnM Bool := do
  match m.search .unpublished with
  | none => return false
  | some v =>
    let v ← save MIN_SIZE v
    if strncmpEq (ascii "ok") v then
      observe .onUnpublished
      return true
    else
      let feedId := atoll v
      if feedId ≠ 0 ∧ feedId = (← get).conn.mFeedId then
        observe (.onLeaving feedId)
        return true
      else return false

def findHandle (map : HandlesMap) (handleId : UInt64) : Option (Cell RtcJanusHandle) :=
  if map.jhId 0 = handleId then map.jhs.slot 0
  else if map.jhId 1 = handleId then map.jhs.slot 1
  else none

def derefHandle (jh : Cell RtcJanusHandle) : ConnM RtcJanusHandle := do
  if (← get).mJanusHandlesMap.jhs.Live jh then return jh.val else throw (.freedHandle jh)

/-- `jh->onJoined(conn, jh)`, for the event `joined`. -/
def eventJoined (m : Msg) : Option (Cell RtcJanusHandle) → ConnM Unit
  | none => return ()
  | some jh => do
    match m.search .videoroom with
    | none => return ()
    | some v =>
      if strncmpEq (ascii "joined") v then
        let h ← derefHandle jh
        match h.role with
        | .publisher => observe (.onPublisherJoined h.handleId)
        | _ => throw .uninitialised

/-- `onPublisherRemoteJsep_callback`, `subscriberHandleRemoteJsep_callback` -/
def onRemoteJsep (h : RtcJanusHandle) (jsep : Bytes) : ConnM Unit :=
  match h.role with
  | .publisher => do
    let jsep ← save (MIN_SIZE * 100) jsep
    observe (.onPublisherRemoteJsep h.handleId jsep)
  | .subscriber => observe (.subscriberHandleRemoteJsep h.handleId jsep)
  | .unset => throw .uninitialised

/-- `free(jh);`. The pointer in the map stays here too. -/
def HandlesMap.release (map : HandlesMap) (jh : Cell RtcJanusHandle) : HandlesMap := { map with jhs := map.jhs.free jh }

def releaseHandle (jh : Cell RtcJanusHandle) : ConnM Unit :=
  modify fun s => { s with mJanusHandlesMap := s.mJanusHandlesMap.release jh }

def eventJsep (m : Msg) (jh : Option (Cell RtcJanusHandle)) : ConnM Bool :=
  match m.search .jsep, (m.search .configured).or (m.search .id), jh with
  | some jsep, some feed, some jh => do
    let h ← derefHandle jh
    if h.role = .unset then throw .uninitialised
    else if strncmpEq [] jsep then return false
    else
      let feed ← save MIN_SIZE feed
      let feedId := atoll feed
      if feedId ≠ 0 ∧ feedId = (← get).conn.mFeedId then
        modConn fun c => { c with mFeedIdIsOnline := true }
      onRemoteJsep h jsep
      releaseHandle jh
      return true
  | _, _, _ => return false

def eventHandle (m : Msg) : ConnM Bool := do
  let sender ← save MIN_SIZE (m.val .sender)
  let jh := findHandle (← get).mJanusHandlesMap (atoll sender)
  eventJoined m jh
  eventJsep m jh

def eventNacks (m : Msg) : ConnM Bool := do
  match m.search .pluginNacks with
  | none => return false
  | some v =>
    if strncmpEq (ascii "listener_slow_link") (m.val .videoroom) ∧ strncmpEq [] v = false then
      let v ← save MIN_SIZE v
      observe (.onListenerNACKs (atoll v))
      return true
    else return false

def eventError (m : Msg) : ConnM Bool := do
  match m.search .transaction, m.search .errorCode, m.search .error with
  | some tid, some code, some error =>
    if strncmpEq [] tid then return false
    else
      let code ← save MIN_SIZE code
      if strncmpEq [] error then return false
      else
        let error ← save MIN_SIZE error
        observe (.onRTCError (atoll code) error)
        return true
  | _, _, _ => return false

/-- The feeds that the connection subscribes to by itself. -/
def autoSubscribes (c : Conn) (id : UInt64) : Bool :=
  if c.mAsListener && c.mFeedId == 0 then c.mAutoSubscribe
  else c.mAsListener && c.mFeedId != 0 && c.mAsPublisher && id == c.mFeedId

/-- `char name[MIN_SIZE] = "noname"; strncpy(name, value, length);` leaves the rest of `noname`
after a shorter value. -/
def saveName (v : Bytes) : ConnM Bytes := do
  let v ← save MIN_SIZE v
  return v ++ (ascii "noname").drop v.length

def eventPublishers (rnd : Nat → Nat) (m : Msg) : ConnM Unit := do
  match m.search .publisherId, m.search .publisherDisplay with
  | some id, some display =>
    let id := atoll (← save MIN_SIZE id)
    if strncmpEq [] display = false then
      let name ← saveName display
      observe (.onRTCFeedComing id name)
      if strncmpEq (ascii "web_listener") display then
        modConn fun c => { c with webListener := Function.update c.webListener 0 id }
      if autoSubscribes (← get).conn id then subscriberCreateHandle rnd id
  | _, _ => return ()

/-- A part of a function that may return from it. -/
def orElse (x : ConnM Bool) (y : ConnM Unit) : ConnM Unit := do
  if ← x then return () else y

def onEvent (rnd : Nat → Nat) (m : Msg) : ConnM Unit :=
  orElse (eventLeaving m) <| orElse (eventUnpublished m) <| orElse (eventHandle m) <|
    orElse (eventNacks m) <| orElse (eventError m) <| eventPublishers rnd m

/-- `recvdata`, in `onSessionEvent` -/
def sessionData (m : Msg) : ConnM Unit := do
  match m.search .recvData with
  | none => return ()
  | some v =>
    let data ← save MIN_SIZE v
    let sender := atoll (← save MIN_SIZE (m.val .recvFrom))
    match m.search .recvInternal, m.search .recvFrom with
    | some i, some _ =>
      if strncmpEq (ascii "true") i then observe (.onRTCUserAttribute sender data)
      else if strncmpEq (ascii "false") i then observe (.onRTCUserMessage sender data)
    | _, _ => return ()

def Msg.nonempty (m : Msg) (k : Key) : Option Bytes := (m.search k).filter (strncmpEq [] · = false)

/-- `userevent`, in `onSessionEvent`. The attribute of a user is passed on as a pointer into the
message; the bytes after the value are left out. -/
def sessionUsers (m : Msg) : ConnM Unit := do
  if m.search .userevent = none then return ()
  else if let some v := m.nonempty .ueJoined then
    let id ← save MIN_SIZE v
    let name ← save MIN_SIZE (m.val .ueDisplay)
    observe (.onRTCUserJoinedRoom (atoll id) name)
  else if let some v := m.nonempty .ueLeaving then
    let id ← save MIN_SIZE v
    observe (.onRTCUserLeavingRoom (atoll id))
  else if let some v := m.nonempty .userId then
    let id := atoll (← save MIN_SIZE v)
    let name ← saveName ((m.nonempty .userDisplay).getD [])
    observe (.onRTCUserJoinedRoom id name)
    if let some v := m.nonempty .userAttribute then
      let attr ← save MIN_SIZE v
      observe (.onRTCUserAttribute id attr)

def onSessionEvent (m : Msg) : ConnM Unit := do
  sessionData m
  sessionUsers m

/-! ## Messages -/

/-- The kinds of messages, in the order in which `onRTCMessage` tells them. -/
inductive Kind
  | success | error | event | ack | sessionevent | webrtcup | media | hangup | slowlink
  deriving DecidableEq, Repr

def Kind.name : Kind → Bytes
  | .success => ascii "success"
  | .error => ascii "error"
  | .event => ascii "event"
  | .ack => ascii "ack"
  | .sessionevent => ascii "sessionevent"
  | .webrtcup => ascii "webrtcup"
  | .media => ascii "media"
  | .hangup => ascii "hangup"
  | .slowlink => ascii "slowlink"

/-- The value of `janus` is compared up to its own length. -/
def kindOf (v : Bytes) : Option Kind :=
  [Kind.success, .error, .event, .ack, .sessionevent, .webrtcup, .media, .hangup, .slowlink].find? (strncmpEq ·.name v)

/-- The part of `onRTCMessage` for `media`. The value compared with `true` is that of `janus`. -/
def onMedia (m : Msg) : ConnM Unit :=
  observe (.onRTCMediaStreamingEvent ((m.search .type).any (strncmpEq (ascii "video") ·))
    ((m.search .receiving).isSome && strncmpEq (ascii "true") (m.val .janus)))

/-- Those for `hangup` and `slowlink` copy to 20 bytes. -/
def onHangup (m : Msg) : ConnM Unit := do
  match m.search .sender with
  | none => observe (.onRTCHangUp 0)
  | some v =>
    let v ← save 20 v
    observe (.onRTCHangUp (atoll v))

def onSlowlink (m : Msg) : ConnM Unit := do
  match m.search .nacks with
  | none => return ()
  | some v =>
    let v ← save 20 v
    observe (.onNACKs (atoll v))

def onKind (rnd : Nat → Nat) (m : Msg) : Kind → ConnM Unit
  | .success => successLoop rnd m slots
  | .error => errorLoop m slots
  | .event => onEvent rnd m
  | .ack => modConn fun c => { c with mbAliving := true }
  | .sessionevent => onSessionEvent m
  | .webrtcup => do observe (.onRTCWebrtcUp ((← saveId m .sender).getD 0))
  | .media => onMedia m
  | .hangup => onHangup m
  | .slowlink => onSlowlink m

def Msg.kind (m : Msg) : Option Kind :=
  if m.valid then (m.search .janus).bind kindOf else none

def onRTCMessage (rnd : Nat → Nat) (m : Msg) : ConnM Unit := do
  if (← get).conn.mRTCConnected then
    match m.kind with
    | none => return ()
    | some k => onKind rnd m k

def onRTCOpen (rnd : Nat → Nat) : ConnM Unit := do
  modConn fun c => { c with mRTCConnected := true, mbAliving := true }
  observe .onRTCLoginOK
  createSession rnd

def onRTCClosed : ConnM Unit := do
  modConn fun c => { c with mbQuitWatchDog := true }
  observe .onRTCConnectError
  observe .onCirrusDisconnected

def disconnect : ConnM Unit := modConn fun c => { c with mRTCConnected := false }

/-! ## Runs -/

inductive In
  /-- The setters that `loginRoom` calls. -/
  | login (feedId : UInt64) (autoSubscribe asListener asPublisher : Bool)
  /-- The websocket is open, .. -/
  | opened (rnd : Nat → Nat)
  /-- .. a message from it, .. -/
  | message (rnd : Nat → Nat) (m : Msg)
  /-- .. and it is closed. -/
  | closed
  | disconnect
  /-- `subscribeStreaming` -/
  | subscribe (rnd : Nat → Nat) (feedId : UInt64)

def In.run : In → ConnM Unit
  | .login feedId autoSubscribe asListener asPublisher => modConn fun c =>
      { c with mFeedId := feedId, mAutoSubscribe := autoSubscribe, mAsListener := asListener,
               mAsPublisher := asPublisher }
  | .opened rnd => onRTCOpen rnd
  | .message rnd m => onRTCMessage rnd m
  | .closed => onRTCClosed
  | .disconnect => Signal.disconnect
  | .subscribe rnd feedId => subscriberCreateHandle rnd feedId

structure Machine where
  st : St
  fault : Option Fault

def Machine.init : Machine := ⟨construct, none⟩

/-- The events of a step are those that the state has after it; a run ends at a fault. -/
def step (l : Machine) (i : In) : Machine × List Ev :=
  match l.fault with
  | some _ => (l, [])
  | none =>
    match i.run { l.st with evs := [] } with
    | .ok _ s => (⟨s, none⟩, s.evs)
    | .error e s => (⟨s, some e⟩, s.evs)

end BareRTC.Signal
