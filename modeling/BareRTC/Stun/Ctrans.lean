import BareRTC.Lib.Run
import BareRTC.Stun.Msg

/-!
# STUN client transactions (`re/src/stun/ctrans.c`, `stun.c`)

A transaction is a record on the heap that is referred to from three places: the list of the STUN
instance, its timer and, if it opened one, its TCP connection. They hold numbers here, and one that
is not on the heap any more is a fault. The response handler is called last in every function that
calls it, so that what it does (start a transaction, destroy one) are further events.
-/

namespace BareRTC.Stun

/-! ## State -/

structure Conf where
  rto : UInt32
  rc : UInt32
  rm : UInt32
  deriving DecidableEq, Repr

def Conf.default : Conf := ⟨500, 7, 16⟩

/-- The transport protocols; `other` stands for all numbers that are not known. -/
inductive Proto
  | udp | tcp | dtls | other
  deriving DecidableEq, Repr

/-- `struct stun_ctrans`; `sock` is whether the socket is one of the caller's, `resph` whether there
is a handler. -/
structure Ctrans where
  id : Nat
  tid : Bytes
  key : Option Bytes
  proto : Proto
  sock : Bool
  txc : UInt32
  ival : UInt32
  met : UInt16
  resph : Bool
  deriving DecidableEq, Repr

/-- A STUN instance (`struct stun`) with the transactions on the heap, the list `ctl`, the timers
that are running and the TCP connections that were opened for transactions. -/
structure Inst where
  conf : Conf
  heap : List Ctrans := []
  ctl : List Nat := []
  tmrs : List Nat := []
  conns : List Nat := []
  next : Nat := 0
  deriving DecidableEq, Repr

inductive Out
  /-- a response handler is called -/
  | resp (ct : Ctrans) (err : Option Errno) (scode : UInt16) (reason : Option Bytes) (msg : Option Msg)
  /-- a request is given to a transport -/
  | sent (ct : Ctrans)
  /-- memory is read after it was freed -/
  | fault
  deriving DecidableEq, Repr

def stunAlloc (conf : Conf) : Inst := { conf }

namespace Inst

def find (st : Inst) (id : Nat) : Option Ctrans := st.heap.find? (·.id = id)

def unlink (st : Inst) (id : Nat) : Inst := { st with ctl := st.ctl.filter (· ≠ id) }

def tmrCancel (st : Inst) (id : Nat) : Inst := { st with tmrs := st.tmrs.filter (· ≠ id) }

def tmrStart (st : Inst) (id : Nat) : Inst := { st with tmrs := st.tmrs.filter (· ≠ id) ++ [id] }

def put (st : Inst) (ct : Ctrans) : Inst := { st with heap := st.heap.map fun c => if c.id = ct.id then ct else c }

/-- `mem_deref(ct)`: the destructor, which closes a connection of its own, and the end of the
record -/
def deref (st : Inst) (id : Nat) : Inst :=
  let st := (st.unlink id).tmrCancel id
  { st with conns := st.conns.filter (· ≠ id), heap := st.heap.filter (·.id ≠ id) }

end Inst

/-! ## Completion -/

def completed (st : Inst) (ct : Ctrans) (err : Option Errno) (scode : UInt16) (reason : Option Bytes)
    (msg : Option Msg) : Inst × List Out :=
  let st := (st.unlink ct.id).tmrCancel ct.id
  -- must be destroyed before calling handler
  let st := st.deref ct.id
  (st, if ct.resph then [.resp ct err scode reason msg] else [])

/-- The timer has run off; `send` is what `stun_send` returns. -/
def timeoutHandler (st : Inst) (id : Nat) (send : Option Errno) : Inst × List Out :=
  let st := st.tmrCancel id
  match st.find id with
  | none => (st, [.fault])
  | some ct =>
    if ct.txc ≥ st.conf.rc then completed st ct (some .ETIMEDOUT) 0 none none
    else
      let ct := { ct with txc := ct.txc + 1 }
      match send with
      | some err =>
        let (st, os) := completed st ct (some err) 0 none none
        (st, .sent ct :: os)
      | none =>
        let ct' := { ct with ival := if ct.txc ≥ st.conf.rc then st.conf.rto * st.conf.rm else ct.ival * 2 }
        ((st.put ct').tmrStart id, [.sent ct])

/-- `send` is what `tcp_send` returns. -/
def tcpEstabHandler (st : Inst) (id : Nat) (send : Option Errno) : Inst × List Out :=
  match st.find id with
  | none => (st, [.fault])
  | some ct =>
    match send with
    | none => (st, [.sent ct])
    | some err =>
      let (st, os) := completed st ct (some err) 0 none none
      (st, .sent ct :: os)

def tcpCloseHandler (st : Inst) (id : Nat) (err : Option Errno) : Inst × List Out :=
  match st.find id with
  | none => (st, [.fault])
  | some ct => completed st ct err 0 none none

/-! ## Responses -/

def matchHandler (msg : Msg) (ct : Ctrans) : Bool := ct.met = stunMsgMethod msg ∧ ct.tid = msg.hdr.tid

/-- `list_apply(&stun->ctl, true, match_handler, msg)`; there is no result if the list has an
element that was freed. -/
def applyMatch (st : Inst) (msg : Msg) : List Nat → Option (Option Ctrans)
  | [] => some none
  | id :: ids =>
    match st.find id with
    | none => none
    | some ct => if matchHandler msg ct then some (some ct) else applyMatch st msg ids

/-- The check of a response that is for a transaction: the message integrity under its key, except
for the errors that ask for other credentials -/
def checkResponse (h : Hash) (ct : Ctrans) (code : UInt16) (msg : Msg) : Option Errno × Msg :=
  if code = 401 ∨ code = 438 then (none, msg)
  else
    match ct.key with
    | none => (none, msg)
    | some key => stunMsgChkMi h key msg

def reasonOk : Bytes := [79, 75]

/-- `stun_ctrans_recv`, from the look-up on; `ua` is whether there are unknown attributes. -/
def ctransMatched (h : Hash) (st : Inst) (msg : Msg) (ua : Bool) (code : UInt16) (reason : Bytes)
    (herr : Option Errno) : Option Errno × Inst × List Out :=
  match applyMatch st msg st.ctl with
  | none => (none, st, [.fault])
  | some none => (some .ENOENT, st, [])
  | some (some ct) =>
    match checkResponse h ct code msg with
    | (some err, _) => (some err, st, [])
    | (none, msg) =>
      let herr := if herr.isNone ∧ ua then some .EPROTO else herr
      (none, completed st ct herr code (some reason) (some msg))

def stunCtransRecv (h : Hash) (st : Inst) (msg : Msg) (ua : Bool) : Option Errno × Inst × List Out :=
  if stunMsgClass msg = 3 then
    match stunMsgAttr msg Attrib.errCode.code with
    | some (.errCode code reason) => ctransMatched h st msg ua code reason none
    | _ => ctransMatched h st msg ua 0 reasonOk (some .EPROTO)
  else if stunMsgClass msg = 2 then ctransMatched h st msg ua 0 reasonOk none
  else (none, st, [])

/-- Indications are for the handler of the instance. -/
def stunRecv (h : Hash) (st : Inst) (mb : Mbuf) : Option Errno × Inst × List Out :=
  match stunMsgDecode mb (some []) with
  | (.error err, _) => (some err, st, [])
  | (.ok msg, ua) => stunCtransRecv h st msg (ua.any (· ≠ []))

def tcpRecvHandler (h : Hash) (st : Inst) (id : Nat) (mb : Mbuf) : Inst × List Out :=
  match st.find id with
  | none => (st, [.fault])
  | some _ => (stunRecv h st mb).2

/-! ## Requests -/

/-- The arguments of `stun_ctrans_request`, and what the functions that it calls return: whether
there is memory for the transaction and its key, and the result of `udp_listen` or `tcp_connect` and
of the first send -/
structure Request where
  proto : Proto
  sock : Bool
  dst : Bool
  tid : Bytes
  met : UInt16
  key : Option Bytes
  resph : Bool
  mem : Bool
  memKey : Bool
  opened : Option Errno
  send : Option Errno
  deriving DecidableEq, Repr

/-- The `switch` of `stun_ctrans_request`: the error, the instance, what was sent. -/
def startTransport (r : Request) (st : Inst) (ct : Ctrans) : Option Errno × Inst × List Out :=
  match r.proto with
  | .udp =>
    if r.dst = false then (some .EINVAL, st, [])
    else
      let ct := { ct with ival := st.conf.rto, txc := 1 }
      let st := (st.put ct).tmrStart ct.id
      if r.sock = false ∧ r.opened.isSome then (r.opened, st, [])
      else (r.send, st, [.sent ct])
  | .tcp =>
    let ct := { ct with txc := st.conf.rc }
    let st := (st.put ct).tmrStart ct.id
    if r.sock then (r.send, st, [.sent ct])
    else
      match r.opened with
      | some err => (some err, st, [])
      | none => (none, { st with conns := st.conns ++ [ct.id] }, [])
  | .dtls =>
    if r.sock = false then (some .EINVAL, st, [])
    else
      let ct := { ct with ival := st.conf.rto, txc := 1 }
      (r.send, (st.put ct).tmrStart ct.id, [.sent ct])
  | .other => (some .EPROTONOSUPPORT, st, [])

def stunCtransRequest (st : Inst) (r : Request) : Option Errno × Inst × List Out :=
  if r.mem = false then (some .ENOMEM, st, [])
  else
    let ct : Ctrans := ⟨st.next, r.tid, r.key, r.proto, r.sock, 0, 0, r.met, r.resph⟩
    let st := { st with heap := st.heap ++ [ct], ctl := st.ctl ++ [ct.id], next := st.next + 1 }
    if r.key.isSome ∧ r.memKey = false then (some .ENOMEM, st.deref ct.id, [])
    else
      match startTransport r st ct with
      | (some err, st, os) => (some err, st.deref ct.id, os)
      | (none, st, os) => (none, st, os)

/-! ## The instance as a machine -/

inductive Event
  /-- a transaction is started -/
  | request (r : Request)
  | recv (mb : Mbuf)
  /-- the timer of a transaction runs off -/
  | timer (id : Nat) (send : Option Errno)
  | tcpEstab (id : Nat) (send : Option Errno)
  | tcpRecv (id : Nat) (mb : Mbuf)
  /-- the connection of a transaction was closed -/
  | tcpClose (id : Nat) (err : Option Errno)
  /-- the owner destroys a transaction -/
  | destroy (id : Nat)

/-- A timer runs off only while it is running, a connection calls back only while it is there, and
an owner has only a transaction that is there. -/
def step (h : Hash) (st : Inst) : Event → Inst × List Out
  | .request r => (stunCtransRequest st r).2
  | .recv mb => (stunRecv h st mb).2
  | .timer id send => if id ∈ st.tmrs then timeoutHandler st id send else (st, [])
  | .tcpEstab id send => if id ∈ st.conns then tcpEstabHandler st id send else (st, [])
  | .tcpRecv id mb => if id ∈ st.conns then tcpRecvHandler h st id mb else (st, [])
  | .tcpClose id err => if id ∈ st.conns then tcpCloseHandler st id err else (st, [])
  | .destroy id => if (st.find id).isSome then (st.deref id, []) else (st, [])

end BareRTC.Stun
