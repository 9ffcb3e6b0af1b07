import BareRTC.Lib.Pool
import BareRTC.Re.Regex

/-!
# The state of a signalling connection (`barertc/src/brtc/RTCConnection.h`)

The connection talks JSON with a Janus server. A request that waits for a reply has a transaction
record in `mJanusTransactionMap`, a plugin handle one in `mJanusHandlesMap`; both maps are arrays
with a fixed slot for each purpose. The JSON parser is assumed: `JSON_Validate` says `valid`, and
`JSON_Search` returns the value of a key, a pointer into the message and a length. It takes no
message with a NUL byte in a string.
-/

namespace BareRTC.Signal

/-! ## C strings -/

/-- `!strncmp(a, v, n)` for the string `a` and the `n` bytes `v`. -/
def strncmpEq : Bytes → Bytes → Bool
  | _, [] => true
  | [], c :: _ => c == 0
  | a :: as, c :: v => a == c && strncmpEq as v

/-- `strncmp` with the length of the second string compares with a prefix of the first. -/
theorem strncmpEq_iff {a v : Bytes} (hv : (0 : UInt8) ∉ v) : strncmpEq a v ↔ v <+: a := by
  induction v generalizing a with
  | nil => simp [strncmpEq]
  | cons c v ih =>
    rw [List.mem_cons, not_or] at hv
    cases a with
    | nil => simp [strncmpEq, Ne.symm hv.1]
    | cons b a =>
      rw [strncmpEq, Bool.and_eq_true, beq_iff_eq, ih hv.2, List.cons_prefix_cons]
      exact and_congr_left fun _ => eq_comm

def isDigit (c : UInt8) : Bool := chr '0' ≤ c && c ≤ chr '9'

def isSpace (c : UInt8) : Bool := c == 32 || (9 ≤ c && c ≤ 13)

/-- As an `unsigned long long`. -/
def atoll (b : Bytes) : UInt64 :=
  match b.dropWhile isSpace with
  | [] => 0
  | c :: ds =>
    if c = chr '-' then UInt64.ofInt (-(min (digits ds) (2 ^ 63) : Nat))
    else UInt64.ofNat (min (digits (if c = chr '+' then ds else c :: ds)) (2 ^ 63 - 1))
where
  digits (ds : Bytes) : Nat := (ds.takeWhile isDigit).foldl (fun n c => 10 * n + (c - chr '0').toNat) 0

/-! ## Messages -/

inductive Key
  | janus | transaction | sender | jsep | standalone | receiving | type | nacks
  /-- `data.id`, `data.version` -/
  | dataId | dataVersion
  /-- `plugindata.data.` .. -/
  | room | leaving | unpublished | videoroom | configured | id | pluginNacks | errorCode | error
  /-- `plugindata.data.publishers.[0].` .. -/
  | publisherId | publisherDisplay
  /-- `recvdata.` .. -/
  | recvData | recvInternal | recvFrom
  /-- `userevent`, and `userevent.` .. -/
  | userevent | ueJoined | ueDisplay | ueLeaving
  /-- `userevent.users.[0].` .. -/
  | userId | userDisplay | userAttribute
  deriving DecidableEq, Repr

structure Msg where
  valid : Bool
  fields : List (Key × Bytes)
  nonul : ∀ f ∈ fields, (0 : UInt8) ∉ f.2

/-- `JSON_Search` -/
def Msg.search (m : Msg) (k : Key) : Option Bytes := m.fields.lookup k

/-- The bytes at the pointer after a search; none where it failed. -/
def Msg.val (m : Msg) (k : Key) : Bytes := (m.search k).getD []

theorem Msg.nonul_val (m : Msg) {k : Key} : (0 : UInt8) ∉ m.val k := by
  unfold Msg.val Msg.search
  cases h : m.fields.lookup k with
  | none => simp
  | some v =>
    obtain ⟨l1, l2, hl, -⟩ := List.lookup_eq_some_iff.1 h
    exact m.nonul (k, v) (by simp [hl])

/-! ## Records -/

def RTC_JANUS_TRANSACTION_ID_LEN : Nat := 13
def MIN_SIZE : Nat := 50

inductive Callback
  | createSession | publisherCreateHandle | createRoom | subscriberCreateHandle
  deriving DecidableEq, Repr

structure RtcJanusTransaction where
  transactionId : Bytes
  onSuccess : Callback
  deriving DecidableEq, Repr

/-- What the function pointers of a handle are set to: `onJoined` and `onRemoteJsep` for a
publisher, `onRemoteJsep` for a subscriber; all others are what `malloc` returns. -/
inductive Role
  | publisher | subscriber | unset
  deriving DecidableEq, Repr

structure RtcJanusHandle where
  handleId : UInt64
  feedId : UInt64
  role : Role
  deriving DecidableEq, Repr

/-- `mJanusTransactionMap`: the ids and the pointers of its slots. -/
structure TransactionMap where
  jtId : Fin 8 → Bytes
  jts : Pool (Fin 8) RtcJanusTransaction

structure HandlesMap where
  jhId : Fin 2 → UInt64
  jhs : Pool (Fin 2) RtcJanusHandle

/-- `struct FRTCConnection`, without its maps. -/
structure Conn where
  mSessionId : UInt64
  mRoomId : UInt64
  mFeedId : UInt64
  mAsPublisher : Bool
  mAsListener : Bool
  mMediaServerStandalone_needRoomID : Bool
  mFeedIdIsOnline : Bool
  mAutoSubscribe : Bool
  mRTCConnected : Bool
  mbAliving : Bool
  mbQuitWatchDog : Bool
  /-- `mPublisherWebListenerMap[..].feedId` -/
  webListener : Fin 2 → UInt64

/-! ## What the connection does -/

inductive Request
  | create (transaction : Bytes)
  | attach (transaction : Bytes) (session : UInt64)
  | createRoom (transaction : Bytes) (room : Option UInt64) (session handle : UInt64)
  | joinPublisher (room session handle : UInt64)
  | joinListener (room feed session handle : UInt64)
  | keepAlive (session : UInt64)
  | offer (sdp : Bytes) (session handle : UInt64)
  | trickle (candidate : Bytes) (session handle : UInt64)
  | trickleComplete (session handle : UInt64)
  | answer (room : UInt64) (sdp : Bytes) (session handle : UInt64)
  | configure (session handle : UInt64)
  | senddata (room user : UInt64) (data : Bytes) (internal : Bool) (session : UInt64)
  | unpublish (session handle : UInt64)
  | detach (session handle : UInt64)
  deriving DecidableEq, Repr

inductive Obs
  | onRTCLoginOK | onRTCConnectError | onCirrusDisconnected | onUnpublished
  | onLeaving (id : UInt64)
  | onPublisherJoined (handleId : UInt64)
  | onPublisherRemoteJsep (handleId : UInt64) (jsep : Bytes)
  | subscriberHandleRemoteJsep (handleId : UInt64) (jsep : Bytes)
  | onListenerNACKs (nacks : UInt64)
  | onNACKs (nacks : UInt64)
  | onRTCError (code : UInt64) (error : Bytes)
  | onRTCFeedComing (id : UInt64) (name : Bytes)
  | onRTCUserAttribute (id : UInt64) (attr : Bytes)
  | onRTCUserMessage (id : UInt64) (msg : Bytes)
  | onRTCUserJoinedRoom (id : UInt64) (name : Bytes)
  | onRTCUserLeavingRoom (id : UInt64)
  | onRTCWebrtcUp (handleId : UInt64)
  | onRTCMediaStreamingEvent (video sending : Bool)
  | onRTCHangUp (handleId : UInt64)
  deriving DecidableEq, Repr

inductive Ev
  | sent (r : Request)
  /-- `jt->onSuccess(..)` or `jt->onError(..)` for the pointer of a slot. -/
  | onSuccess (slot : Fin 8) (jt : Cell RtcJanusTransaction)
  | onError (slot : Fin 8) (jt : Cell RtcJanusTransaction)
  /-- `subscriberCreateHandle` is called, and makes a transaction for the feed. -/
  | subscribed (feedId : UInt64) (transaction : Bytes)
  | observer (o : Obs)
  deriving DecidableEq, Repr

inductive Fault
  | overflow
  | nullDeref
  | uninitialised
  /-- A released record is read. -/
  | freedTransaction (jt : Cell RtcJanusTransaction)
  | freedHandle (jh : Cell RtcJanusHandle)
  deriving DecidableEq, Repr

structure St where
  conn : Conn
  mJanusTransactionMap : TransactionMap
  mJanusHandlesMap : HandlesMap
  evs : List Ev

abbrev ConnM := EStateM Fault St

def modConn (f : Conn → Conn) : ConnM Unit := modify fun s => { s with conn := f s.conn }

def emit (e : Ev) : ConnM Unit := modify fun s => { s with evs := s.evs ++ [e] }

def observe (o : Obs) : ConnM Unit := emit (.observer o)

/-- `char save[size] = ""; strncpy(save, value, length);`, with room for the final NUL. -/
def save (size : Nat) (v : Bytes) : ConnM Bytes := if v.length < size then return v else throw .overflow

/-- A number: searched, copied and converted. -/
def saveId (m : Msg) (k : Key) : ConnM (Option UInt64) :=
  match m.search k with
  | none => return none
  | some v => do
    let v ← save MIN_SIZE v
    return some (atoll v)

/-- `FRTCConnection_construct`, after the `memset` of `init`. -/
def construct : St where
  conn := ⟨0, 999, 0, true, true, false, false, true, false, false, false, fun _ => 0⟩
  mJanusTransactionMap := ⟨fun _ => [], .empty⟩
  mJanusHandlesMap := ⟨fun _ => 0, .empty⟩
  evs := []

end BareRTC.Signal
