import BareRTC.Peer.Connection

/-!
# The HTTP server of the sessions (`barertc/src/barertc.c`)

A browser gets a session with `POST /connect` and gives its descriptions to it with `POST /sdp`. The
reply to that request is left pending, in one variable for all sessions, until the ICE candidates
are gathered. What the media side does is part of the input: how the calls into it end, when
gathering completes and what it sets in the SDP session. The requests that are for the room client
are left out, and so is the start of ICE after an answer was sent, whose error is only logged.
-/

namespace BareRTC.Peer

/-- `struct http_conn *` -/
abbrev Conn := Nat

/-- `struct session`; `ptr` is its address. -/
structure Session where
  ptr : Nat
  id : Bytes
  pc : Option PeerConnection

/-- What is sent on a connection; a description is sent on none if the pending connection is `NULL`
or closed. -/
inductive Reply
  | status (conn : Conn) (scode : Nat)
  | connected (conn : Conn) (id : Bytes)
  | descr (conn : Option Conn) (id : Bytes) (type : SdpType) (sdp : Bytes)
  deriving DecidableEq, Repr

structure Server where
  sessl : List Session
  connPending : Option Conn
  sessionCounter : UInt32
  nextPtr : Nat
  closed : List Conn
  replies : List Reply
  crashed : Bool

def Server.init : Server := ⟨[], none, 0, 0, [], [], false⟩

abbrev SrvM := EStateM Fault Server

namespace Server

def find (w : Server) (ptr : Nat) : Option Session := w.sessl.find? (·.ptr == ptr)

def pc (w : Server) (ptr : Nat) : Option PeerConnection := (w.find ptr).bind (·.pc)

def setPc (w : Server) (ptr : Nat) (pc : Option PeerConnection) : Server :=
  { w with sessl := w.sessl.map fun s => if s.ptr == ptr then { s with pc } else s }

def reply (w : Server) (r : Reply) : Server := { w with replies := w.replies ++ [r] }

/-- The connection that `http_reply(conn_pending, ..)` sends on. -/
def pending (w : Server) : Option Conn := w.connPending.filter (!w.closed.contains ·)

end Server

/-- A call on `sess->pc`, which returns `EINVAL` for `NULL`. -/
def onPc {α : Type} (ptr : Nat) (x : PcM α) : SrvM α := fun w =>
  match w.pc ptr with
  | none => .error (.err .EINVAL) w
  | some pc =>
    match x pc with
    | .ok a pc' => .ok a (w.setPc ptr (some pc'))
    | .error e pc' => .error e (w.setPc ptr (some pc'))

def sessionLookup (w : Server) (sessid : Bytes) : Option Session := w.sessl.find? fun sess => strCaseEq sessid sess.id

/-- With the reply that has the id. -/
def sessionNew (conn : Conn) (w : Server) : Server :=
  let counter := w.sessionCounter + 1
  let id := Sdp.printU counter.toNat
  let sess : Session := ⟨w.nextPtr, id, none⟩
  { w with
    sessionCounter := counter
    nextPtr := w.nextPtr + 1
    sessl := w.sessl ++ [sess] }.reply (.connected conn id)

def peerconnectionSignaling : Option PeerConnection → SignalingSt
  | some pc => pc.signalingState
  | none => .SS_STABLE

def gatherType (ss : SignalingSt) : SdpType :=
  if ss ≠ .SS_HAVE_REMOTE_OFFER then .SDP_OFFER else .SDP_ANSWER

def createType (net : Sdp.Net) : SdpType → PcM Bytes
  | .SDP_OFFER => createOffer net
  | .SDP_ANSWER => createAnswer net

def replyDescr (id : Bytes) (type : SdpType) (mb : Bytes) (w : Server) : Server := w.reply (.descr w.pending id type mb)

def peerconnectionGatherHandler (net : Sdp.Net) (sess : Session) (w : Server) : Server :=
  let type := gatherType (peerconnectionSignaling (w.pc sess.ptr))
  match onPc sess.ptr (createType net type) w with
  | .ok mb w' => replyDescr sess.id type mb w'
  | .error _ w' => w'

abbrev Ice := Sdp.Session → Sdp.Session

def PeerConnection.gathered (pc : PeerConnection) (ice : Ice) : PeerConnection :=
  { pc with sdp := ice pc.sdp, gatherOk := true }

/-- That of `peerconn.c`, without an error. -/
def mnatEstabHandler (net : Sdp.Net) (sess : Session) (ice : Ice) (w : Server) : Server :=
  match w.pc sess.ptr with
  | none => w
  | some pc => peerconnectionGatherHandler net sess (w.setPc sess.ptr (some (pc.gathered ice)))

def peerconnectionCloseHandler (sess : Session) (w : Server) : Server := w.setPc sess.ptr none

/-- What the media side does while a request is handled: `peerconnection_new` fails or makes a
connection with the session `sdp`, `peerconnection_add_audio` fails, gathering completes inside it,
and the update of ICE fails. -/
structure MediaEnv where
  newErr : Option Errno
  sdp : Sdp.Session
  gathered : Option Ice
  addErr : Option Errno
  iceErr : Option Errno

def orFail : Option Errno → SrvM Unit
  | some e => throw (.err e)
  | none => pure ()

def createPc (net : Sdp.Net) (env : MediaEnv) (sess : Session) : SrvM Unit := do
  orFail env.newErr
  modify (·.setPc sess.ptr (some (peerconnectionNew env.sdp)))
  modify fun w => match env.gathered with
    | some ice => mnatEstabHandler net sess ice w
    | none => w
  orFail env.addErr

/-- `create_pc` if there is no `sess->pc`. -/
def ensurePc (net : Sdp.Net) (env : MediaEnv) (sess : Session) : SrvM Unit := fun w =>
  match w.pc sess.ptr with
  | none => createPc net env sess w
  | some _ => .ok () w

/-- The body of a request as `session_description_decode` has it: none, one that is not JSON, one
that it refuses, or a description. -/
inductive Body
  | none
  | unknownType
  | refused (e : Errno)
  | descr (sd : SessionDescription)

/-- `handle_post_sdp`, of a description. `peerconnection_start_ice` comes after an answer was
decoded and so fails only with the update of ICE. -/
def handleDescr (net : Sdp.Net) (env : MediaEnv) (sess : Session) (sd : SessionDescription) :
    SrvM Unit :=
  match sd.type with
  | .SDP_OFFER => do
    ensurePc net env sess
    onPc sess.ptr (setRemoteDescr net sd)
  | .SDP_ANSWER => do
    onPc sess.ptr (setRemoteDescr net sd)
    orFail env.iceErr
    ensurePc net env sess

def handlePostSdp (net : Sdp.Net) (env : MediaEnv) (sess : Session) : Body → SrvM Unit
  | .none => pure ()
  | .unknownType => throw (.err .EPROTO)
  | .refused e => throw (.err e)
  | .descr sd => handleDescr net env sess sd

/-- `POST /connect`, `POST /sdp` and `POST /disconnect`, with the `Session-ID` header. -/
inductive Request
  | connect
  | sdp (sessid : Option Bytes) (body : Body) (env : MediaEnv)
  | disconnect (sessid : Option Bytes)

/-- A request with the `Session-ID` header, for a session that there is. -/
def withSession (conn : Conn) (sessid : Option Bytes) (f : Session → Server → Server) (w : Server) :
    Server :=
  match sessid with
  | none => w.reply (.status conn 500)
  | some val =>
    match sessionLookup w val with
    | none => w.reply (.status conn 404)
    | some sess => f sess w

/-- `POST /sdp` of a session: the connection is the pending one if nothing fails. -/
def postSdp (net : Sdp.Net) (conn : Conn) (body : Body) (env : MediaEnv) (sess : Session)
    (w : Server) : Server :=
  match handlePostSdp net env sess body w with
  | .ok _ w' => { w' with connPending := some conn }
  | .error .nullDeref w' => { w' with crashed := true }
  | .error _ w' => w'.reply (.status conn 500)

/-- `POST /disconnect` of a session. -/
def disconnect (conn : Conn) (sess : Session) (w : Server) : Server :=
  { w with sessl := w.sessl.filter (·.ptr != sess.ptr) }.reply (.status conn 200)

def httpReqHandler (net : Sdp.Net) (conn : Conn) : Request → Server → Server
  | .connect => sessionNew conn
  | .sdp sessid body env => withSession conn sessid (postSdp net conn body env)
  | .disconnect sessid => withSession conn sessid (disconnect conn)

inductive Event
  | request (conn : Conn) (req : Request)
  | gathered (ptr : Nat) (ice : Ice)
  | pcClosed (ptr : Nat)
  | connClosed (conn : Conn)

def onSession (ptr : Nat) (f : Session → Server → Server) (w : Server) : Server :=
  match w.find ptr with
  | some sess => f sess w
  | none => w

def Event.handle (net : Sdp.Net) : Event → Server → Server
  | .request conn req => httpReqHandler net conn req
  | .gathered ptr ice => onSession ptr fun sess => mnatEstabHandler net sess ice
  | .pcClosed ptr => onSession ptr peerconnectionCloseHandler
  | .connClosed conn => fun w => { w with closed := conn :: w.closed }

def Server.step (net : Sdp.Net) (w : Server) (ev : Event) : Server × List Reply :=
  if w.crashed then (w, [])
  else
    let w' := ev.handle net { w with replies := [] }
    (w', w'.replies)

end BareRTC.Peer
