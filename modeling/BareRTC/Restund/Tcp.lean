import BareRTC.Stun.Defs

/-!
# Messages on a TCP connection (`restund/src/tcp.c`)

`tcp_recv` puts the segments of a connection together and gives every message to
`restund_process_msg`, which leaves the bytes of the buffer as they were; the position and the end
are set again after it.
-/

namespace BareRTC.Restund

open Mbuf

def tcpMaxLength : Nat := 2048

/-- `struct conn`, the buffer and the number of messages -/
structure Conn where
  mb : Option Mbuf
  rxc : Nat
  deriving DecidableEq, Repr

/-- A call of `restund_process_msg`: the bytes of the message, and how many bytes the buffer had
from its start on, what came after it included. -/
structure Call where
  left : Nat
  msg : Bytes
  deriving DecidableEq, Repr

/-- The length of a message with its header, by the first four bytes; there is none if they are
refused. -/
def msgLen (typ len : UInt16) : Option Nat :=
  if len.toNat > tcpMaxLength then none
  else if typ < 0x4000 then some (len.toNat + Stun.headerSize)
  else if typ < 0x8000 then some (len.toNat + 4)
  else none

def readHead : MbufM (UInt16 × UInt16) := do
  let typ ← readU16
  let len ← readU16
  return (typ, len)

/-- The loop of `tcp_recv`. A message has four bytes at least, so that as many steps as there are
bytes are enough. -/
def tcpLoop : Nat → Mbuf → Nat → Conn × List Call
  | 0, mb, rxc => (⟨some mb, rxc⟩, [])
  | n + 1, mb, rxc =>
    if mb.getLeft < 4 then (⟨some mb, rxc⟩, [])
    else match readHead mb with
      | .error _ _ => (⟨none, rxc⟩, [])
      | .ok (typ, len) mb =>
        match msgLen typ len with
        | none => (⟨none, rxc⟩, [])
        | some len =>
          let mb := mb.setPos (mb.pos - 4)
          if mb.getLeft < len then (⟨some mb, rxc⟩, [])
          else
            let call : Call := ⟨mb.getLeft, (mb.setEnd (mb.pos + len)).left⟩
            -- `while (len & 0x03) ++len`
            let mb := mb.setPos (mb.pos + pad4 len)
            if mb.pos ≥ mb.endPos then (⟨none, rxc + 1⟩, [call])
            else
              let r := tcpLoop n mb (rxc + 1)
              (r.1, call :: r.2)

/-- `mem` is whether there is memory to append the segment. -/
def tcpRecv (conn : Conn) (mem : Bool) (mb : Mbuf) : Conn × List Call :=
  match conn.mb with
  | some b =>
    match writeMem mem mb.left (b.setPos b.endPos) with
    | .error _ _ => (⟨none, conn.rxc⟩, [])
    | .ok _ b' => let b' := b'.setPos b.pos; tcpLoop (b'.getLeft + 1) b' conn.rxc
  | none => tcpLoop (mb.getLeft + 1) mb conn.rxc

/-- The segments of a connection, with the number of bytes received before each: the place of a
message in the stream is that number of bytes and those of the segment less what the buffer had from
the message on. -/
def tcpStep (s : Conn × Nat) (seg : Mbuf) : (Conn × Nat) × List (Nat × Bytes) :=
  let r := tcpRecv s.1 true seg
  ((r.1, s.2 + seg.getLeft), r.2.map fun c => (s.2 + seg.getLeft - c.left, c.msg))

end BareRTC.Restund
