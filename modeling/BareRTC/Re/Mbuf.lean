import BareRTC.Lib.Bytes

/-!
# Memory buffers (`re/src/mbuf/mbuf.c`)

An `mbuf` is a block of `size` bytes with a position and an end; `buf` holds the whole block, so
`size` is its length. Functions that fail keep what they did to the buffer before the failure
(`MbufM`), as the C code does. Numbers are read and written in network order: every caller
modelled here wraps `mbuf_read_u32` in `ntohl` and passes `htonl` values to `mbuf_write_u32`.
-/

namespace BareRTC

/-- The error codes of the modelled functions (`0`, success, is the absence of one). -/
inductive Errno
  | EINVAL | ENOMEM | EBADMSG | EOVERFLOW | EPROTO | ENOTSUP | ENOSR | ETIMEDOUT | EALREADY
  | EAUTH | ENOENT | EPIPE | ENOSYS | ECONNRESET | EBUSY | EINTR | EPROTONOSUPPORT | EAFNOSUPPORT | ERANGE
  | ECONNABORTED | EADDRINUSE | EPERM | ENODATA | ENOTCONN | ECONNREFUSED | ENOSPC
  deriving DecidableEq, Repr

structure Mbuf where
  buf : Bytes
  pos : Nat
  endPos : Nat
  deriving DecidableEq, Repr

abbrev MbufM := EStateM Errno Mbuf

namespace Mbuf

/-- The buffer invariant that `MBUF_CHECK_POS` and `MBUF_CHECK_END` test for. -/
structure Ok (mb : Mbuf) : Prop where
  pos : mb.pos ≤ mb.endPos
  endPos : mb.endPos ≤ mb.buf.length

def getLeft (mb : Mbuf) : Nat := mb.endPos - mb.pos

def left (mb : Mbuf) : Bytes := slice mb.buf mb.pos mb.getLeft

def setPos (mb : Mbuf) (p : Nat) : Mbuf := { mb with pos := p }

def setEnd (mb : Mbuf) (e : Nat) : Mbuf := { mb with endPos := e }

def advance (n : Nat) : MbufM Unit := fun mb => .ok () (mb.setPos (mb.pos + n))

/-- `if (mbuf_get_left(mb) < n) return EBADMSG;` -/
def require (n : Nat) : MbufM Unit := fun mb =>
  if mb.getLeft < n then .error .EBADMSG mb else .ok () mb

def readMem (n : Nat) : MbufM Bytes := fun mb =>
  if n > mb.getLeft then .error .EOVERFLOW mb
  else .ok (slice mb.buf mb.pos n) (mb.setPos (mb.pos + n))

/-- A read of an `n`-byte number: `0` where bytes are missing. -/
def readNat (n : Nat) : MbufM Nat := fun mb =>
  match readMem n mb with
  | .ok b mb => .ok (beNat b) mb
  | .error _ mb => .ok 0 mb

def readU8 : MbufM UInt8 := do return UInt8.ofNat (← readNat 1)

/-- `ntohs(mbuf_read_u16(mb))` -/
def readU16 : MbufM UInt16 := do return UInt16.ofNat (← readNat 2)

/-- `ntohl(mbuf_read_u32(mb))` -/
def readU32 : MbufM UInt32 := do return UInt32.ofNat (← readNat 4)

/-- `sys_ntohll(mbuf_read_u64(mb))` -/
def readU64 : MbufM UInt64 := do return UInt64.ofNat (← readNat 8)

/-- The size `mbuf_write_mem` gives an empty buffer. -/
def defaultSize : Nat := 512

/-- `mbuf_write_mem`: a buffer too small is grown to the larger of what the write needs and twice
its size. `mem` is whether the allocation for it succeeds; what the new memory holds is not read
before it is written and is `0` here. -/
def writeMem (mem : Bool) (d : Bytes) : MbufM Unit := fun mb =>
  let rsize := mb.pos + d.length
  let dsize := if mb.buf.length = 0 then defaultSize else 2 * mb.buf.length
  if rsize > mb.buf.length ∧ mem = false then .error .ENOMEM mb
  else
    let buf := if rsize > mb.buf.length then
        mb.buf ++ List.replicate (max rsize dsize - mb.buf.length) 0 else mb.buf
    .ok () ⟨overwrite buf mb.pos d, rsize, max mb.endPos rsize⟩

/-- `mbuf_write_u32(mb, htonl(v))` -/
def writeU32 (mem : Bool) (v : UInt32) : MbufM Unit := writeMem mem (beBytes 4 v.toNat)

/-- A write with the memory for it. -/
def write (d : Bytes) (mb : Mbuf) : Mbuf :=
  match writeMem true d mb with
  | .ok _ mb => mb
  | .error _ mb => mb

/-- `mbuf_write_u16(mb, htons(v))` -/
def writeU16 (v : Nat) : Mbuf → Mbuf := write (beBytes 2 v)

/-- `while (((mb->pos - start) & 0x03) && mbuf_get_left(mb)) ++mb->pos;`, which ends after three
steps at the latest. -/
def skipPadding (start : Nat) : Nat → Mbuf → Mbuf
  | 0, mb => mb
  | n + 1, mb =>
    if (mb.pos - start) % 4 ≠ 0 ∧ mb.getLeft ≠ 0 then skipPadding start n (mb.setPos (mb.pos + 1)) else mb

/-- A write through a pointer into the buffer (`memcpy(&mb->buf[i], d)`). -/
def poke (mb : Mbuf) (i : Nat) (d : Bytes) : Mbuf := { mb with buf := overwrite mb.buf i d }

end Mbuf
end BareRTC
