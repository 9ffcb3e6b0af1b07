import BareRTC.Turn.Alloc
import BareRTC.Turn.Client

/-!
# TURN clients: packets to peers (`re/src/turn/chan.c`, `re/src/turn/turnc.c`)

`turnc_add_chan` enters a channel in the tables and sends a ChannelBind request; a packet to the
peer of a channel is put into channel data, a packet to another peer into a Send indication.
`udpSendHandler` is the helper on the client's UDP socket, through which everything goes that is
sent on the socket, `turncSend` what a caller uses that has a connection of its own.
-/

namespace BareRTC.Turn

open Sdp (Sa)
open Mbuf
open Stun (Attrib Hash Msg Proto)

/-! ## Packets to send -/

def chanHdrSize : Nat := 4

def stunIndlen (sa : Sa) : Nat :=
  match sa.addr with
  | .inet _ => Stun.headerSize + 4 * 2 + 8
  | .inet6 _ => Stun.headerSize + 4 * 2 + 20

def turncChanHdrEncode (hdr : ChanHdr) (mb : Mbuf) : Mbuf := writeU16 hdr.len.toNat (writeU16 hdr.nr.toNat mb)

/-- What a packet is put into -/
inductive Wrap
  | chanData (nr : UInt16)
  | sendInd (peer : Sa)
  deriving DecidableEq, Repr

structure Outgoing where
  dst : Sa
  mb : Mbuf
  wraps : List Wrap
  deriving DecidableEq, Repr

section
variable (h : Hash) (t : Turnc)

def putChanHdr (chan : Chan) (mb : Mbuf) : Mbuf :=
  turncChanHdrEncode ⟨chan.nr, UInt16.ofNat mb.getLeft⟩ (mb.setPos (mb.pos - chanHdrSize))

/-- The call of `stun_msg_encode` for a Send indication. The packet is the value of `DATA`, in its
place behind the header. -/
def putSendInd (peer : Sa) (mb : Mbuf) : Option Errno × Mbuf :=
  Stun.stunMsgEncode h 0x006 1 (List.replicate 12 0) none none false 0
    [(Attrib.xorPeerAddr.code, some (.xorAddr peer)), (Attrib.data.code, some (.data mb.left))]
    (mb.setPos (mb.pos - stunIndlen peer))

/-- A packet without room for a header goes out as it is. -/
def udpSendHandler (p : Outgoing) : Option Errno × Outgoing :=
  if p.mb.pos < chanHdrSize then (none, p)
  else
    match turncChanFindPeer t.chans p.dst with
    | some chan =>
      let mb := putChanHdr chan p.mb
      (none, ⟨t.srv, mb.setPos (mb.pos - chanHdrSize), p.wraps ++ [.chanData chan.nr]⟩)
    | none =>
      if p.mb.pos < stunIndlen p.dst then (none, p)
      else
        let (err, mb) := putSendInd h p.dst p.mb
        (err, ⟨t.srv, mb.setPos (p.mb.pos - stunIndlen p.dst), p.wraps ++ [.sendInd p.dst]⟩)

/-- The end of `turnc_send`. On a UDP socket there is the helper of the client. -/
def transmit (proto : Proto) (p : Outgoing) : Except Errno Outgoing :=
  match proto with
  | .udp =>
    match udpSendHandler h t p with
    | (some err, _) => .error err
    | (none, p) => .ok p
  | .tcp | .dtls => .ok p
  | .other => .error .EPROTONOSUPPORT

/-- `pad` is whether there is memory for the padding. -/
def turncSend (proto : Proto) (pad : Bool) (dst : Sa) (mb : Mbuf) : Except Errno Outgoing :=
  match turncChanFindPeer t.chans dst with
  | some chan =>
    if mb.pos < chanHdrSize then .error .EINVAL
    else
      let pos := mb.pos - chanHdrSize
      let padding := if proto = .tcp then (4 - mb.getLeft % 4) % 4 else 0
      if padding ≠ 0 ∧ pad = false then .error .ENOMEM
      else
        let mb := putChanHdr chan mb
        let mb := if padding = 0 then mb else write (List.replicate padding 0) (mb.setPos mb.endPos)
        transmit h t proto ⟨t.srv, mb.setPos pos, [.chanData chan.nr]⟩
  | none =>
    if mb.pos < stunIndlen dst then .error .EINVAL
    else
      match putSendInd h dst mb with
      | (some err, _) => .error err
      | (none, mb') => transmit h t proto ⟨t.srv, mb'.setPos (mb.pos - stunIndlen dst), [.sendInd dst]⟩

end

/-! ## Channel bindings -/

/-- `struct chan`: the channel, its loop state, whether it has a transaction, whether its timer is
running, and whether there is a handler to call -/
structure Bind where
  chan : Chan
  ls : LoopState
  ct : Bool
  tmr : Bool
  ch : Bool
  deriving DecidableEq, Repr

/-- `struct turnc`, what channels need of it -/
structure ChanClient where
  t : Turnc
  binds : List Bind
  creds : Creds
  proto : Proto

inductive ChanOut
  | request (chan : Chan) (key : Option Bytes)
  | ch (chan : Chan)
  | th (err : Option Errno) (scode : UInt16)
  | sent (p : Outgoing)
  deriving DecidableEq, Repr

/-- What is around the answer to a ChannelBind request: the result of `md5_printf` and of the next
request -/
structure BindEnv where
  md5err : Option Errno
  req : Option Errno

/-- `completed` has set `chan->ct` to `NULL`. -/
def chanbindRespHandler (md5 : Bytes → Bytes) (env : BindEnv) (b : Bind) (creds : Creds) (err : Option Errno)
    (scode : UInt16) (msg : Option Msg) : Bind × Creds × List ChanOut :=
  let b := { b with ct := false }
  if err.isSome then (b, creds, [.th err scode])
  else
    let (ls, loops) := turncRequestLoops b.ls scode
    let b := { b with ls }
    if loops then (b, creds, [.th none scode])
    else if scode = 0 then ({ b with tmr := true, ch := false }, creds, if b.ch then [.ch b.chan] else [])
    else if scode = 401 ∨ scode = 438 then
      match turncKeygen md5 env.md5err creds msg with
      | (some err, creds) => (b, creds, [.th (some err) scode])
      | (none, creds) =>
        match env.req with
        | some err => (b, creds, [.request b.chan creds.key, .th (some err) scode])
        | none => ({ b with ct := true }, creds, [.request b.chan creds.key])
    else (b, creds, [.th none scode])

inductive ChanEvent
  /-- `turnc_add_chan`; whether there is memory, whether there is a handler, and the result of the
  request -/
  | addChan (peer : Sa) (mem ch : Bool) (req : Option Errno)
  /-- the transaction of a channel completes -/
  | resp (nr : UInt16) (env : BindEnv) (err : Option Errno) (scode : UInt16) (msg : Option Msg)
  /-- the timer of a channel runs off -/
  | timer (nr : UInt16) (req : Option Errno)
  /-- a packet is sent on the UDP socket -/
  | udpSend (dst : Sa) (mb : Mbuf)
  /-- a packet is sent with `turnc_send` -/
  | send (dst : Sa) (mb : Mbuf) (pad : Bool)

def ChanClient.put (c : ChanClient) (b : Bind) : List Bind :=
  c.binds.map fun b' => if b'.chan.nr = b.chan.nr then b else b'

def chanStep (md5 : Bytes → Bytes) (h : Hash) (c : ChanClient) : ChanEvent → ChanClient × List ChanOut
  | .addChan peer mem ch req =>
    let (err, chans) := turncAddChan peer mem req c.t.chans
    let c' := { c with t := { c.t with chans } }
    -- a request is made if there is room and memory for a channel that is not there
    if c.t.chans.nr ≥ chanNumbMax ∨ (turncChanFindPeer c.t.chans peer).isSome ∨ mem = false then (c', [])
    else
      let chan : Chan := ⟨c.t.chans.nr, peer⟩
      if err.isSome then (c', [.request chan c.creds.key])
      else ({ c' with binds := c.binds ++ [⟨chan, {}, true, false, ch⟩] }, [.request chan c.creds.key])
  | .resp nr env err scode msg =>
    match c.binds.find? fun b => b.chan.nr = nr ∧ b.ct with
    | none => (c, [])
    | some b =>
      let r := chanbindRespHandler md5 env b c.creds err scode msg
      ({ c with binds := c.put r.1, creds := r.2.1 }, r.2.2)
  | .timer nr req =>
    match c.binds.find? fun b => b.chan.nr = nr ∧ b.tmr with
    | none => (c, [])
    | some b =>
      let b := { b with tmr := false, ls := turncLoopstateReset }
      match req with
      | some err => ({ c with binds := c.put b }, [.request b.chan c.creds.key, .th (some err) 0])
      | none => ({ c with binds := c.put { b with ct := true } }, [.request b.chan c.creds.key])
  | .udpSend dst mb =>
    match udpSendHandler h c.t ⟨dst, mb, []⟩ with
    | (some _, _) => (c, [])
    | (none, p) => (c, [.sent p])
  | .send dst mb pad =>
    match turncSend h c.t c.proto pad dst mb with
    | .error _ => (c, [])
    | .ok p => (c, [.sent p])

def newChanClient (srv : Sa) (proto : Proto) (creds : Creds) : ChanClient :=
  ⟨⟨srv, srv, turncChanHashAlloc⟩, [], creds, proto⟩

end BareRTC.Turn
