import BareRTC.Dns.Dname
import BareRTC.Stun.Ctrans

/-!
# The DNS client (`re/src/dns/client.c`)

A query is in the client's table from its start to its end. Its handler is called by `query_handler`
in the middle of other functions, and the application does what it likes in there, also with the
client that called it. So the client is a machine with a stack: a frame says where a function goes
on when what it called returns, and the application acts when the frame on top is that of a handler
or when there is none. Events of the network and timers come when the stack is empty.

A query has one reference, which `mem_deref` of the application and of the client both drop, and is
in the table as long as it is there. It is on the list `ql` of a connection exactly if its `tc` is
that connection, for which it has a reference. Queries and connections are known by their addresses,
which are not used again. The use of one that is gone is a fault.
-/

namespace BareRTC.Dns

open Sdp (Sa)
open Stun (Proto)
open Mbuf

def ntxMax : Nat := 20

/-! ## Replies -/

structure Dnshdr where
  id : UInt16
  qr : Bool
  opcode : UInt8
  aa : Bool
  tc : Bool
  rd : Bool
  ra : Bool
  z : UInt8
  rcode : UInt8
  nq : UInt16
  nans : UInt16
  nauth : UInt16
  nadd : UInt16
  deriving DecidableEq, Repr

def dnsHdrDecode : MbufM Dnshdr := do
  if (← get).getLeft < 12 then throw .EINVAL
  let id ← readU16
  let flags ← readU16
  let bit := fun n : UInt16 => decide (flags >>> n &&& 1 = 1)
  let nq ← readU16
  let nans ← readU16
  let nauth ← readU16
  let nadd ← readU16
  return {
    id, qr := bit 15, opcode := (flags >>> 11 &&& 0xf).toUInt8, aa := bit 10, tc := bit 9, rd := bit 8, ra := bit 7,
    z := (flags >>> 4 &&& 0x7).toUInt8, rcode := (flags &&& 0xf).toUInt8, nq, nans, nauth, nadd }

structure Dnsquery where
  hdr : Dnshdr
  name : Bytes
  type : UInt16
  dnsclass : UInt16
  deriving DecidableEq, Repr

def questionDecode : MbufM Dnsquery := fun mb =>
  match dnsHdrDecode mb with
  | .error _ mb => .error .EBADMSG mb
  | .ok hdr mb =>
    if hdr.qr = false then .error .EBADMSG mb
    else
      match dnsDnameDecode 0 mb with
      | .error err mb => .error err mb
      | .ok name mb =>
        if mb.getLeft < 4 then .error .EBADMSG mb
        else (do return { hdr, name, type := ← readU16, dnsclass := ← readU16 } : MbufM Dnsquery) mb

/-! ## Queries and connections -/

inductive Timer
  | udp | tcp
  deriving DecidableEq, Repr

/-- `struct dns_query`; `adr` is its address, `ansl` the types of the records in `rrlv[0]`, `qp`
whether the application has a pointer to it and `qh` whether there is a handler. -/
structure Query where
  adr : Nat
  name : Bytes
  id : UInt16
  opcode : UInt8
  type : UInt16
  dnsclass : UInt16
  ansl : List UInt16
  ntx : Nat
  tmr : Option Timer
  qp : Bool
  qh : Bool
  deriving DecidableEq, Repr

/-- `struct tcpconn`; `conn` is whether it has a connection, `ref` whether the reference is left
that `tcpconn_alloc` made. -/
structure Tcpconn where
  adr : Nat
  srv : Sa
  conn : Bool
  connected : Bool
  ref : Bool
  ql : List Nat
  flen : Nat
  mb : Bytes
  deriving DecidableEq, Repr

/-- Who called `send_tcp`: `tcpconn_fail_handler`, or `query` with or without a pointer for the
application -/
inductive Caller
  | fail
  | query (qp : Bool)
  deriving DecidableEq, Repr

/-- Where a function goes on -/
inductive Frame
  /-- the application runs in the handler of a query; then `query_handler` goes on, and
  `mem_deref(q)` -/
  | handler (q : Nat)
  /-- `hash_apply(dnsc->ht_query, query_close_handler)`: a bucket, and the next element there -/
  | closeWalk (i : Nat) (le : Option Nat)
  /-- `list_apply(&tc->ql, tcpconn_fail_handler)` in `tcpconn_close`: the next element -/
  | failWalk (tc : Nat) (le : Option Nat) (err : Option Errno)
  /-- the loop of `send_tcp` -/
  | sendTcp (q : Nat) (caller : Caller) (err : Option Errno)
  /-- `tcp_recv_handler` after `reply_recv`, with what it returned and the data that is left -/
  | tcpRecv (tc : Nat) (err : Option Errno) (mbrx : Bytes)
  deriving DecidableEq, Repr

/-- `struct dnsc`, and the stack -/
structure Dnsc where
  queries : List Query
  tcs : List Tcpconn
  stack : List Frame
  next : Nat
  dead : Bool
  fault : Bool
  deriving DecidableEq, Repr

def newDnsc : Dnsc := ⟨[], [], [], 0, false, false⟩

inductive Out
  | qh (q : Nat) (err : Option Errno)
  | freed (q : Nat)
  deriving DecidableEq, Repr

/-- `hash_joaat_str_ci`, the size of the table of queries, and `dns_rr_decode`, of whose records
only the types are used -/
structure Conf where
  hash : Bytes → UInt32
  bsize : Nat
  pos : 0 < bsize
  rrDecode : MbufM UInt16

namespace Dnsc

variable (s : Dnsc)

def query? (q : Nat) : Option Query := s.queries.find? (·.adr = q)

def tc? (tc : Nat) : Option Tcpconn := s.tcs.find? (·.adr = tc)

def conn? (tc : Nat) : Option Tcpconn := (s.tc? tc).filter (·.conn)

def setQuery (x : Query) : Dnsc := { s with queries := s.queries.map fun y => if y.adr = x.adr then x else y }

def setTc (t : Tcpconn) : Dnsc := { s with tcs := s.tcs.map fun t' => if t'.adr = t.adr then t else t' }

def sweep : Dnsc := { s with tcs := s.tcs.filter fun t => t.ref ∨ t.ql ≠ [] }

/-- `list_unlink(&q->le_tc); q->tc = mem_deref(q->tc);` -/
def leave (q : Nat) : Dnsc := sweep { s with tcs := s.tcs.map fun t => { t with ql := t.ql.filter (· ≠ q) } }

/-- `query_destructor` -/
def drop (q : Nat) : Dnsc := { s.leave q with queries := s.queries.filter (·.adr ≠ q) }

def push (f : Frame) : Dnsc := { s with stack := f :: s.stack }

def pop : Dnsc := { s with stack := s.stack.tail }

def failed : Dnsc × List Out := ({ s with fault := true }, [])

def appTurn : Bool :=
  match s.stack with
  | [] | .handler _ :: _ => true
  | _ => false

/-- Whether `q->tc` is set -/
def onTc (q : Nat) : Bool := s.tcs.any fun t => q ∈ t.ql

end Dnsc

/-! ## `query_handler` -/

/-- Up to the call, for a query that is there; without a handler it ends and `mem_deref(q)`
follows. -/
def queryHandler (s : Dnsc) (x : Query) (err : Option Errno) : Dnsc × List Out :=
  if x.qh then ((s.setQuery { x with qp := false }).push (.handler x.adr), [.qh x.adr err])
  else (s.drop x.adr, [])

/-- The handler returns: the end of `query_handler`, and `mem_deref(q)`. -/
def handlerReturned (s : Dnsc) (q : Nat) : Dnsc × List Out :=
  match s.query? q with
  | none => s.failed
  | some _ => (s.drop q, [])

variable (cfg : Conf)

def bucket (name : Bytes) : Nat := (cfg.hash name).toNat &&& (cfg.bsize - 1)

def Dnsc.bucketl (s : Dnsc) (i : Nat) : List Nat := (s.queries.filter fun x => bucket cfg x.name = i).map Query.adr

def nextOf (l : List Nat) (q : Nat) : Option Nat := (l.dropWhile (· ≠ q)).tail.head?

/-! ## `reply_recv` -/

def queryCmp (dq : Dnsquery) (x : Query) : Bool :=
  x.id = dq.hdr.id ∧ x.opcode = dq.hdr.opcode ∧ x.type = dq.type ∧ x.dnsclass = dq.dnsclass ∧
    strCaseEq x.name dq.name

def rrsDecode : Nat → MbufM (List UInt16)
  | 0 => return []
  | n + 1 => do
    let rr ← cfg.rrDecode
    let rrs ← rrsDecode n
    return rr :: rrs

def axfrWaits (dq : Dnsquery) (ansl : List UInt16) : Bool :=
  dq.hdr.rcode = 0 ∧ dq.hdr.nans > 0 ∧ (ansl.getLast? ≠ some 0x0006 ∨ ansl.length = 1)

/-- What it returns, and the query whose handler is called before that, with its argument. The
servers are counted at the time. -/
def replyRecv (s : Dnsc) (srvc : Nat) (mb : Mbuf) : Option Errno × Dnsc × Option (Query × Option Errno) :=
  match questionDecode mb with
  | .error err _ => (some err, s, none)
  | .ok dq mb =>
    match s.queries.find? fun x => bucket cfg x.name = bucket cfg dq.name ∧ queryCmp dq x with
    | none => (some .ENOENT, s, none)
    | some x =>
      if dq.hdr.rcode = 2 ∧ x.ntx < srvc then
        (some .EPROTO, if s.onTc x.adr then s else s.setQuery { x with tmr := some .udp }, none)
      else
        match (do
            let ansl ← rrsDecode cfg dq.hdr.nans.toNat
            let _ ← rrsDecode cfg dq.hdr.nauth.toNat
            let _ ← rrsDecode cfg dq.hdr.nadd.toNat
            return ansl : MbufM (List UInt16)) mb with
        | .error err _ => (some err, s, some (x, some err))
        | .ok ansl _ =>
          let x := { x with ansl := x.ansl ++ ansl }
          let s := s.setQuery x
          if x.type = 0x00fc ∧ axfrWaits dq x.ansl then (none, s, none)
          else (none, s, some (x, none))

/-- `query_handler` is called if there is a query. -/
def callHandler (s : Dnsc) : Option (Query × Option Errno) → Dnsc × List Out
  | none => (s, [])
  | some (x, err) => queryHandler s x err

/-! ## TCP connections -/

/-- Up to its first call -/
def tcpconnClose (s : Dnsc) (t : Tcpconn) (err : Option Errno) : Dnsc :=
  (s.setTc { t with conn := false }).push (.failWalk t.adr t.ql.head? err)

/-- What the functions that are called return, and the servers at the time: `tcpconn_alloc`,
`tcp_send`, and `mbuf_write_mem` for the length and the content of a frame -/
structure Env where
  srvv : List Sa
  alloc : Option Errno
  send : Option Errno
  len : Option Errno
  content : Option Errno

/-- One step of the walk in `tcpconn_close`: `tcpconn_fail_handler`, or the end -/
def failStep (s : Dnsc) (env : Env) (tc : Nat) (le : Option Nat) (err : Option Errno) : Dnsc × List Out :=
  match s.tc? tc with
  | none => s.failed
  | some t =>
    match le with
    | none => if t.ref then ((s.setTc { t with ref := false }).sweep, []) else s.failed
    | some q =>
      match s.query? q with
      | none => s.failed
      | some x =>
        let s := (s.leave q).push (.failWalk tc (nextOf t.ql q) err)
        if x.ntx ≥ env.srvv.length then queryHandler s x (some (err.getD .ECONNREFUSED))
        else (s.push (.sendTcp q .fail none), [])

def sendReturned (s : Dnsc) (x : Query) (caller : Caller) (err : Option Errno) : Dnsc × List Out :=
  match caller, err with
  | .fail, none => (s, [])
  | .fail, some err => queryHandler s x (some err)
  | .query _, some _ => (s.drop x.adr, [])
  | .query qp, none => (s.setQuery { x with tmr := some .tcp, qp }, [])

/-- One round of the loop of `send_tcp` -/
def sendStep (s : Dnsc) (env : Env) (q : Nat) (caller : Caller) (err : Option Errno) : Dnsc × List Out :=
  match s.query? q with
  | none => s.failed
  | some x =>
    match env.srvv[x.ntx]? with
    | none => sendReturned s x caller err
    | some srv =>
      let x := { x with ntx := x.ntx + 1 }
      let s := s.setQuery x
      match s.tcs.find? fun t => t.conn ∧ t.srv = srv with
      | some t =>
        if t.connected then
          match env.send with
          | some err => (tcpconnClose (s.push (.sendTcp q caller (some err))) t (some err), [])
          | none => sendReturned (s.setTc { t with ql := t.ql ++ [q] }) x caller none
        else sendReturned (s.setTc { t with ql := t.ql ++ [q] }) x caller err
      | none =>
        match env.alloc with
        | some err => (s.push (.sendTcp q caller (some err)), [])
        | none =>
          let t : Tcpconn := ⟨s.next, srv, true, false, true, [q], 0, []⟩
          sendReturned { s with tcs := s.tcs ++ [t], next := s.next + 1 } x caller none

/-- `tcp_recv_handler` from `next` on; the number of servers is for `reply_recv`. -/
def tcpNext (s : Dnsc) (env : Env) (t : Tcpconn) (mbrx : Bytes) : Dnsc × List Out :=
  -- the length of a frame
  let n := if t.flen = 0 then min (2 - t.mb.length) mbrx.length else 0
  let mb := t.mb ++ mbrx.take n
  let mbrx := mbrx.drop n
  if t.flen = 0 ∧ env.len.isSome then (tcpconnClose s t env.len, [])
  else if t.flen = 0 ∧ mb.length < 2 then (s.setTc { t with mb }, [])
  else
    let t := if t.flen = 0 then { t with flen := beNat mb, mb := [] } else t
    -- its content
    let n := min (t.flen - t.mb.length) mbrx.length
    let mb := t.mb ++ mbrx.take n
    let mbrx := mbrx.drop n
    if env.content.isSome then (tcpconnClose (s.setTc t) t env.content, [])
    else if mb.length < t.flen then (s.setTc { t with mb }, [])
    else
      let r := replyRecv cfg (s.setTc { t with mb }) env.srvv.length ⟨mb, 0, mb.length⟩
      callHandler (r.2.1.push (.tcpRecv t.adr r.1 mbrx)) r.2.2

/-- `tcp_recv_handler` after a reply -/
def recvStep (s : Dnsc) (env : Env) (tc : Nat) (err : Option Errno) (mbrx : Bytes) : Dnsc × List Out :=
  match s.tc? tc with
  | none => s.failed
  | some t =>
    match err with
    | some err => (tcpconnClose s t (some err), [])
    | none =>
      let t := { t with flen := 0, mb := [] }
      if mbrx = [] then (s.setTc t, []) else tcpNext cfg (s.setTc t) env t mbrx

/-! ## The end of a client -/

/-- One step of `dnsc_destructor`: `query_close_handler`, the next bucket, or what follows the
walk -/
def closeStep (s : Dnsc) (i : Nat) (le : Option Nat) : Dnsc × List Out :=
  match le with
  | some q =>
    match s.query? q with
    | none => s.failed
    | some x => queryHandler (s.push (.closeWalk i (nextOf (s.bucketl cfg i) q))) x (some .ECONNABORTED)
  | none =>
    if i + 1 < cfg.bsize then (s.push (.closeWalk (i + 1) (s.bucketl cfg (i + 1)).head?), [])
    else if s.tcs.any (·.ref = false) then s.failed
    else (Dnsc.sweep { s with tcs := s.tcs.map fun t => { t with ref := false }, dead := true }, [])

def goOn (s : Dnsc) (env : Env) : Dnsc × List Out :=
  match s.stack with
  | .closeWalk i le :: _ => closeStep cfg s.pop i le
  | .failWalk tc le err :: _ => failStep s.pop env tc le err
  | .sendTcp q caller err :: _ => sendStep s.pop env q caller err
  | .tcpRecv tc err mbrx :: _ => recvStep cfg s.pop env tc err mbrx
  | _ => (s, [])

/-! ## Starting a query -/

/-- The loop of `send_udp`: the tries that are left, `ntx`, and the last error; `res` is the result
of `udp_send` by `ntx`. -/
def sendUdp (res : Nat → Option Errno) : Nat → Nat → Option Errno → Nat × Option Errno
  | 0, ntx, err => (ntx, err)
  | n + 1, ntx, _ =>
    match res ntx with
    | none => (ntx + 1, none)
    | some err => sendUdp res n (ntx + 1) (some err)

/-- The arguments of `query`, and what it finds: the servers, whether there is memory, the error of
what comes before the request is sent, the id, and the results of `udp_send` -/
structure QueryArgs where
  opcode : UInt8
  name : Bytes
  type : UInt16
  dnsclass : UInt16
  proto : Proto
  qp : Bool
  qh : Bool
  srvc : Nat
  mem : Bool
  setup : Option Errno
  id : UInt16
  udp : Nat → Option Errno

def query (s : Dnsc) (a : QueryArgs) : Dnsc × List Out :=
  if a.srvc = 0 ∨ a.mem = false then (s, [])
  else
    let x : Query := ⟨s.next, a.name, a.id, a.opcode, a.type, a.dnsclass, [], 0, none, false, a.qh⟩
    let gone := { s with next := s.next + 1 }
    let added := fun x => { gone with queries := s.queries ++ [x] }
    if a.setup.isSome then (gone, [])
    else
      match if a.type = 0x00fc then .tcp else a.proto with
      | .tcp => ((added x).push (.sendTcp s.next (.query a.qp) none), [])
      | .udp =>
        match sendUdp a.udp a.srvc 0 (some .ETIMEDOUT) with
        | (_, some _) => (gone, [])
        | (ntx, none) => (added { x with ntx, tmr := some .udp, qp := a.qp }, [])
      | _ => (gone, [])

/-- The timer of a query runs off: `udp_timeout_handler` or `tcp_timeout_handler`. -/
def timeout (s : Dnsc) (x : Query) (tmr : Timer) (srvc : Nat) (udp : Nat → Option Errno) : Dnsc × List Out :=
  let x := { x with tmr := none }
  match tmr with
  | .tcp => queryHandler (s.setQuery x) x (some .ETIMEDOUT)
  | .udp =>
    if x.ntx ≥ ntxMax then queryHandler (s.setQuery x) x (some .ETIMEDOUT)
    else
      match sendUdp udp srvc x.ntx (some .ETIMEDOUT) with
      | (ntx, some err) => queryHandler (s.setQuery { x with ntx }) { x with ntx } (some err)
      | (ntx, none) => (s.setQuery { x with ntx, tmr := some .udp }, [])

/-! ## The client as a machine -/

inductive Event
  /-- the application starts a query, .. -/
  | query (a : QueryArgs)
  /-- .. frees one through its pointer, .. -/
  | free (q : Nat)
  /-- .. destroys the client, .. -/
  | destroy
  /-- .. or returns from a handler. -/
  | ret
  /-- The function on top of the stack goes on. -/
  | go (env : Env)
  | udpRecv (srvc : Nat) (mb : Mbuf)
  | timer (q : Nat) (srvc : Nat) (udp : Nat → Option Errno)
  /-- `tcp_estab_handler` with the result of `tcp_send` for each query -/
  | tcpEstab (tc : Nat) (send : Nat → Option Errno)
  | tcpRecv (tc : Nat) (env : Env) (mbrx : Bytes)
  /-- `tcp_close_handler` -/
  | tcpClose (tc : Nat) (err : Option Errno)
  /-- `tcpconn_timeout_handler` -/
  | tcpTimer (tc : Nat)

/-- What the event loop calls; the sockets and timers of a client that is dead are gone, those of
its queries are not. -/
def loopStep (s : Dnsc) : Event → Dnsc × List Out
  | .udpRecv srvc mb =>
    if s.dead then (s, [])
    else
      let r := replyRecv cfg s srvc mb
      callHandler r.2.1 r.2.2
  | .timer q srvc udp =>
    match s.query? q with
    | none => (s, [])
    | some x =>
      match x.tmr with
      | none => (s, [])
      | some tmr => if s.dead then s.failed else timeout s x tmr srvc udp
  | .tcpEstab tc send =>
    match s.conn? tc with
    | none => (s, [])
    | some t =>
      match t.ql.findSome? send with
      | some err => (tcpconnClose s t (some err), [])
      | none => (s.setTc { t with connected := true }, [])
  | .tcpRecv tc env mbrx =>
    match s.conn? tc with
    | none => (s, [])
    | some t => tcpNext cfg s env t mbrx
  | .tcpClose tc err =>
    match s.conn? tc with
    | none => (s, [])
    | some t => (tcpconnClose s t err, [])
  | .tcpTimer tc =>
    match s.tc? tc with
    | none => (s, [])
    | some t => (tcpconnClose s t (some .ETIMEDOUT), [])
  | _ => (s, [])

def appStep (s : Dnsc) : Event → Dnsc × List Out
  | .query a => if s.dead then (s, []) else query s a
  | .free q =>
    match s.query? q with
    | none => (s, [])
    | some x => if x.qp then (s.drop q, [.freed q]) else (s, [])
  | .destroy => if s.dead then (s, []) else (s.push (.closeWalk 0 (s.bucketl cfg 0).head?), [])
  | .ret =>
    match s.stack with
    | .handler q :: _ => handlerReturned s.pop q
    | _ => (s, [])
  | _ => (s, [])

def dnscStep (s : Dnsc) (ev : Event) : Dnsc × List Out :=
  if s.fault then (s, [])
  else
    match ev with
    | .go env => goOn cfg s env
    | .query _ | .free _ | .destroy | .ret => if s.appTurn then appStep cfg s ev else (s, [])
    | _ => if s.stack = [] then loopStep cfg s ev else (s, [])

end BareRTC.Dns
