import BareRTC.Lib.Run
import BareRTC.Re.Mbuf
import BareRTC.Re.Regex

/-!
# WebSocket connections (`re/src/websock/websock.c`)

A connection after the handshake: `websock_send` and `websock_close`, and what `recv_handler` does
with a segment that TCP gives it. What the handlers of the application do to the connection is an
input: the application may drop its reference in `recvh`.
-/

namespace BareRTC.Websock

open Mbuf

def bufsizeMax : Nat := 131072

inductive State
  | accepting | connecting | opened | closing | closed
  deriving DecidableEq, Repr

inductive Opcode
  | cont | text | bin | close | ping | pong
  deriving DecidableEq, Repr

def Opcode.code : Opcode → UInt8
  | .cont => 0x0
  | .text => 0x1
  | .bin => 0x2
  | .close => 0x8
  | .ping => 0x9
  | .pong => 0xa

def Opcode.ofCode (v : UInt8) : Option Opcode := [.cont, .text, .bin, .close, .ping, .pong].find? (·.code = v)

/-- `enum websock_scode`, those that the connection itself sends -/
inductive Scode
  | goingAway | protocolError | messageTooBig | internalError
  deriving DecidableEq, Repr

def Scode.code : Scode → UInt16
  | .goingAway => 1001
  | .protocolError => 1002
  | .messageTooBig => 1009
  | .internalError => 1011

def websockErr2scode : Errno → Scode
  | .EOVERFLOW => .messageTooBig
  | .EPROTO => .protocolError
  | .EBADMSG => .protocolError
  | _ => .internalError

/-- `struct websock_hdr`; `mkey` is set if there is a mask. -/
structure Hdr where
  fin : Bool
  rsv1 : Bool
  rsv2 : Bool
  rsv3 : Bool
  opcode : UInt8
  mask : Bool
  len : UInt64
  mkey : Bytes
  deriving DecidableEq, Repr

/-- `p[i] ^ mkey[i%4]` for every byte -/
def xorKey (mkey : Bytes) (d : Bytes) : Bytes := d.mapIdx fun i b => b ^^^ mkey.getD (i % 4) 0

/-! ## Decoding -/

/-- `if (mbuf_get_left(mb) < n) return ENODATA;` -/
def need (n : Nat) : MbufM Unit := fun mb => if mb.getLeft < n then .error .ENODATA mb else .ok () mb

def bit (v : UInt8) (n : UInt8) : Bool := v >>> n &&& 1 = 1

/-- `websock_decode`, up to the length -/
def decodeHead : MbufM Hdr := do
  need 2
  let v ← readU8
  let w ← readU8
  let len ←
    if w &&& 0x7f = 126 then do
      need 2
      let len ← readU16
      pure len.toUInt64
    else if w &&& 0x7f = 127 then do
      need 8
      readU64
    else pure (w &&& 0x7f).toUInt64
  return ⟨bit v 7, bit v 6, bit v 5, bit v 4, v &&& 0x0f, bit w 7, len, []⟩

def readKey : MbufM Bytes := do
  let a ← readU8
  let b ← readU8
  let c ← readU8
  let d ← readU8
  return [a, b, c, d]

/-- What `websock_decode` comes to: `ENODATA` (the caller sets the position back), a frame, or the
loop that takes off the mask leaves the memory of the buffer. -/
inductive Decoded
  | nodata
  | frame (hdr : Hdr) (mb : Mbuf)
  | fault
  deriving DecidableEq

/-- The sum `4 + hdr->len` is a `uint64_t`. -/
def websockDecode (mb : Mbuf) : Decoded :=
  match decodeHead mb with
  | .error _ _ => .nodata
  | .ok hdr mb =>
    if hdr.mask then
      if mb.getLeft < (4 + hdr.len).toNat then .nodata
      else match readKey mb with
        | .error _ _ => .nodata
        | .ok mkey mb =>
          if mb.buf.length < mb.pos + hdr.len.toNat then .fault
          else .frame { hdr with mkey } (mb.poke mb.pos (xorKey mkey (slice mb.buf mb.pos hdr.len.toNat)))
    else if mb.getLeft < hdr.len.toNat then .nodata
    else .frame hdr mb

/-! ## Sending -/

/-- What is around a call of `websock_send`: whether there is memory for the buffer and for the
text, the random key, and the result of `tcp_send` -/
structure SendEnv where
  alloc : Bool
  mem : Bool
  mkey : { k : Bytes // k.length = 4 }
  tcp : Option Errno

/-- The caller has left room for the header, so that no write fails. -/
def websockEncode (fin : Bool) (opcode : Opcode) (mkey : Option Bytes) (len : Nat) (mb : Mbuf) : Mbuf :=
  let maskBit : UInt8 := if mkey.isSome then 0x80 else 0
  let mb := write [(if fin then 0x80 else 0) ||| (opcode.code &&& 0x0f)] mb
  let mb :=
    if len > 0xffff then write (beBytes 8 len) (write [maskBit ||| 127] mb)
    else if len > 125 then write (beBytes 2 len) (write [maskBit ||| 126] mb)
    else write [maskBit ||| UInt8.ofNat len] mb
  match mkey with
  | none => mb
  | some key =>
    let mb := write key mb
    mb.poke mb.pos (xorKey key (slice mb.buf mb.pos len))

/-- The error, or the bytes that are given to `tcp_send`. `text` is what `fmt` prints. -/
def websockVsend (env : SendEnv) (state : State) (active : Bool) (opcode : Opcode) (scode : Option Scode)
    (text : Bytes) : Except Errno Bytes :=
  let hsz := if active then 14 else 10
  if state ≠ .opened then .error .ENOTCONN
  else if !env.alloc then .error .ENOMEM
  else
    let mb : Mbuf := ⟨List.replicate 2048 0, hsz, 0⟩
    let payload := (scode.map fun scode => beBytes 2 scode.code.toNat).getD [] ++ text
    match writeMem env.mem payload mb with
    | .error err _ => .error err
    | .ok _ mb =>
      let len := mb.pos - hsz
      let start := if len > 0xffff then 0 else if len > 125 then 6 else 8
      let mb := websockEncode true opcode (if active then some env.mkey else none) len (mb.setPos start)
      match env.tcp with
      | some err => .error err
      | none => .ok (mb.setPos start).left

def websockSend (env : SendEnv) (state : State) (active : Bool) (opcode : Opcode) (text : Bytes) : Except Errno Bytes :=
  websockVsend env state active opcode none text

/-! ## Receiving -/

/-- `struct websock_conn`. `owned` is whether the application has its reference; without it the
handlers are `dummy_recv_handler` and `internal_close_handler`. -/
structure Conn where
  mb : Option Mbuf
  state : State
  active : Bool
  owned : Bool

/-- A call of `recvh` with the payload, a frame given to `tcp_send`, a call of `closeh`, or an
access outside of the buffer -/
inductive Out
  | recvh (hdr : Hdr) (payload : Bytes)
  | send (frame : Bytes)
  | closeh (err : Option Errno)
  | fault
  deriving DecidableEq

/-- What is around a frame: memory for the bytes behind it, whether `recvh` drops the reference, and
the send that may follow -/
structure FrameEnv where
  mbn : Bool
  drop : Bool
  send : SendEnv

/-- The frame that a send gives to `tcp_send` -/
def sent : Except Errno Bytes → List Out
  | .error _ => []
  | .ok frame => [.send frame]

def websockClose (env : SendEnv) (conn : Conn) (scode : Scode) (text : Bytes) : Conn × List Out :=
  match websockVsend env conn.state conn.active .close (some scode) text with
  | .error _ => (conn, [])
  | .ok frame => ({ conn with state := .closing }, [.send frame])

def connClose (conn : Conn) (err : Option Errno) : Conn × List Out :=
  ({ conn with state := .closed }, if conn.owned then [.closeh err] else [])

/-- The end of `recv_handler` if there is an error. What is in the buffer then is not read again. -/
def recvFail (env : SendEnv) (conn : Conn) (err : Errno) : Conn × List Out :=
  let r := websockClose env conn (websockErr2scode err) []
  let r' := connClose r.1 (some err)
  (r'.1, r.2 ++ r'.2)

/-- `recvh` is called. If that was the last reference, the connection lives on to close, with
handlers of its own. -/
def deliver (env : FrameEnv) (conn : Conn) (hdr : Hdr) (payload : Bytes) : Conn × List Out :=
  if conn.owned then
    if env.drop then
      let r := if conn.state = .opened then websockClose env.send conn .goingAway (ascii "Going Away") else (conn, [])
      ({ r.1 with state := .closing, owned := false }, .recvh hdr payload :: r.2)
    else (conn, [.recvh hdr payload])
  else (conn, [])

/-- The `switch` over the opcode, and whether the loop goes on -/
def dispatch (env : FrameEnv) (conn : Conn) (hdr : Hdr) (payload : Bytes) : (Conn × List Out) × Bool :=
  match Opcode.ofCode hdr.opcode with
  | some .cont | some .text | some .bin => (deliver env conn hdr payload, true)
  | some .close =>
    let out := if conn.state = .opened then sent (websockSend env.send conn.state conn.active .close payload) else []
    let r := connClose conn none
    ((r.1, out ++ r.2), false)
  | some .ping => ((conn, sent (websockSend env.send conn.state conn.active .pong payload)), true)
  | some .pong => ((conn, []), true)
  | none => (recvFail env.send conn .EPROTO, false)

def restBuf (mb : Mbuf) (len : Nat) : Mbuf := ⟨slice mb.buf (mb.pos + len) (mb.getLeft - len), 0, mb.getLeft - len⟩

/-- The loop of `recv_handler`. A frame has two bytes at least, so that as many steps as there are
bytes are enough; `k` counts the frames. -/
def recvLoop (env : Nat → FrameEnv) : Nat → Nat → Conn → Conn × List Out
  | 0, _, conn => (conn, [])
  | n + 1, k, conn =>
    match conn.mb with
    | none => (conn, [])
    | some mb =>
      match websockDecode mb with
      | .nodata => (conn, [])
      | .fault => (conn, [.fault])
      | .frame hdr mb =>
        if conn.active = hdr.mask then recvFail (env k).send conn .EPROTO
        else if hdr.rsv1 ∨ hdr.rsv2 ∨ hdr.rsv3 then recvFail (env k).send conn .EPROTO
        else
          let more := mb.endPos > mb.pos + hdr.len.toNat
          if more ∧ (env k).mbn = false then recvFail (env k).send conn .ENOMEM
          else
            let conn := { conn with mb := if more then some (restBuf mb hdr.len.toNat) else none }
            match dispatch (env k) conn hdr (mb.setEnd (mb.pos + hdr.len.toNat)).left with
            | (r, false) => r
            | (r, true) =>
              let next := recvLoop env n (k + 1) r.1
              (next.1, r.2 ++ next.2)

structure RecvEnv where
  mem : Bool
  frames : Nat → FrameEnv

def recvHandler (env : RecvEnv) (conn : Conn) (mb : Mbuf) : Conn × List Out :=
  match conn.mb with
  | some b =>
    if b.getLeft + mb.getLeft > bufsizeMax then recvFail (env.frames 0).send conn .EOVERFLOW
    else match writeMem env.mem mb.left (b.setPos b.endPos) with
      | .error err _ => recvFail (env.frames 0).send conn err
      | .ok _ b' =>
        let b' := b'.setPos b.pos
        recvLoop env.frames (b'.getLeft + 1) 0 { conn with mb := some b' }
  | none => recvLoop env.frames (mb.getLeft + 1) 0 { conn with mb := some mb }

/-- A segment comes; a connection that is closed has no TCP connection. -/
def step (conn : Conn) (seg : RecvEnv × Mbuf) : Conn × List Out :=
  if conn.state = .closed then (conn, []) else recvHandler seg.1 conn seg.2

end BareRTC.Websock
