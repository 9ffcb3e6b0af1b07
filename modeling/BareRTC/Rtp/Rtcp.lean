import BareRTC.Re.Mbuf

/-!
# RTCP packets (`re/src/rtp/pkt.c`, `rr.c`, `sdes.c`, `fb.c`)

The decoder works on a buffer and fails at the first error. The encoder has memory for what it
writes; the handlers that write the variable part of a packet (`rtcp_encode_h`) are functions on the
buffer.
-/

namespace BareRTC.Rtcp

open Mbuf

/-! ## Messages -/

structure Hdr where
  version : UInt8
  p : Bool
  count : UInt8
  pt : UInt8
  length : UInt16
  deriving DecidableEq, Repr

/-- `struct rtcp_rr`; `lost` is a signed bit-field of 24 bits. -/
structure Rr where
  ssrc : UInt32
  fraction : UInt8
  lost : BitVec 24
  lastSeq : UInt32
  jitter : UInt32
  lsr : UInt32
  dlsr : UInt32
  deriving DecidableEq, Repr

structure SdesItem where
  type : UInt8
  data : Bytes
  deriving DecidableEq, Repr

structure Sdes where
  src : UInt32
  itemv : List SdesItem
  deriving DecidableEq, Repr

structure Gnack where
  pid : UInt16
  blp : UInt16
  deriving DecidableEq, Repr

structure Sli where
  first : UInt16
  number : UInt16
  picid : UInt8
  deriving DecidableEq, Repr

inductive Fci
  | none
  | gnackv (l : List Gnack)
  | sliv (l : List Sli)
  | afb (d : Bytes)
  deriving DecidableEq, Repr

/-- The union of `struct rtcp_msg`. A reason is without the final `0`; application data that is
missing is empty. -/
inductive Body
  | sr (ssrc ntpSec ntpFrac rtpTs psent osent : UInt32) (rrv : List Rr)
  | rr (ssrc : UInt32) (rrv : List Rr)
  | sdes (sdesv : List Sdes)
  | bye (srcv : List UInt32) (reason : Option Bytes)
  | app (src : UInt32) (name data : Bytes)
  | fir (ssrc : UInt32)
  | nack (ssrc : UInt32) (fsn blp : UInt16)
  | fb (ssrcPacket ssrcMedia : UInt32) (n : Nat) (fci : Fci)
  | unknown
  deriving DecidableEq, Repr

structure Msg where
  hdr : Hdr
  r : Body
  deriving DecidableEq, Repr

/-- `enum rtcp_type`, the types that are encoded -/
inductive Pt
  | fir | nack | sr | rr | sdes | bye | app | rtpfb | psfb
  deriving DecidableEq, Repr

def Pt.code : Pt → UInt8
  | .fir => 192 | .nack => 193 | .sr => 200 | .rr => 201 | .sdes => 202 | .bye => 203 | .app => 204
  | .rtpfb => 205 | .psfb => 206

def Pt.all : List Pt := [.fir, .nack, .sr, .rr, .sdes, .bye, .app, .rtpfb, .psfb]

/-- The case of a `switch` over the packet type -/
def Pt.ofCode (pt : UInt8) : Option Pt := Pt.all.find? (·.code = pt)

def hdrSize : Nat := 4

/-! ## Encoding -/

def rtcpHdrEncode (count : UInt8) (type : Pt) (length : UInt16) (mb : Mbuf) : Mbuf :=
  let mb := write [(2 : UInt8) <<< 6 ||| count] mb
  let mb := write [type.code] mb
  writeU16 length.toNat mb

/-- `mbuf_write_u32(mb, htonl(v))` -/
def writeU32 (v : UInt32) : Mbuf → Mbuf := write (beBytes 4 v.toNat)

def rtcpRrEncode (rr : Rr) (mb : Mbuf) : Mbuf :=
  let mb := writeU32 rr.ssrc mb
  let mb := writeU32 (rr.fraction.toUInt32 <<< 24 ||| UInt32.ofNat rr.lost.toNat) mb
  let mb := writeU32 rr.lastSeq mb
  let mb := writeU32 rr.jitter mb
  let mb := writeU32 rr.lsr mb
  writeU32 rr.dlsr mb

/-- One turn of the loop over the items of `rtcp_sdes_encode`; an item without a value is left
out. -/
def itemEncode (item : UInt8 × Option Bytes) (r : Option Errno × Mbuf) : Option Errno × Mbuf :=
  match r, item.2 with
  | (some err, mb), _ => (some err, mb)
  | (none, mb), none => (none, mb)
  | (none, mb), some v =>
    if v.length > 255 then (some .EINVAL, mb)
    else (none, write v (write [UInt8.ofNat v.length] (write [item.1] mb)))

/-- Values are C strings. -/
def rtcpSdesEncode (src : UInt32) (items : List (UInt8 × Option Bytes)) (mb : Mbuf) : Option Errno × Mbuf :=
  if items = [] then (some .EINVAL, mb)
  else
    let start := mb.pos
    match items.foldl (fun r item => itemEncode item r) (none, writeU32 src mb) with
    | (some err, mb) => (some err, mb)
    | (none, mb) =>
      -- END padding
      let mb := write [0] mb
      (none, (write [0])^[(4 - (mb.pos - start) % 4) % 4] mb)

def rtcpRtpfbGnackEncode (g : Gnack) (mb : Mbuf) : Mbuf := writeU16 g.blp.toNat (writeU16 g.pid.toNat mb)

def rtcpPsfbSliEncode (s : Sli) (mb : Mbuf) : Mbuf :=
  writeU32 (s.first.toUInt32 <<< 19 ||| s.number.toUInt32 <<< 6 ||| s.picid.toUInt32) mb

abbrev Ench := Mbuf → Option Errno × Mbuf

/-- The arguments of `rtcp_encode` after the count, by the type -/
inductive Args
  | sr (ssrc ntpSec ntpFrac rtpTs psent osent : UInt32) (ench : Option Ench)
  | rr (ssrc : UInt32) (ench : Option Ench)
  | sdes (ench : Option Ench)
  | bye (srcv : List UInt32) (reason : Option Bytes)
  | app (src : UInt32) (name : Bytes) (data : Option Bytes)
  | fir (ssrc : UInt32)
  | nack (ssrc : UInt32) (fsn blp : UInt16)
  | rtpfb (ssrcPacket ssrcMedia : UInt32) (ench : Option Ench)
  | psfb (ssrcPacket ssrcMedia : UInt32) (ench : Option Ench)

def Args.type : Args → Pt
  | .sr .. => .sr | .rr .. => .rr | .sdes .. => .sdes | .bye .. => .bye | .app .. => .app | .fir .. => .fir
  | .nack .. => .nack | .rtpfb .. => .rtpfb | .psfb .. => .psfb

/-- `if (ench) err |= ench(mb, arg)` -/
def runEnch (ench : Option Ench) (mb : Mbuf) : Option Errno × Mbuf :=
  match ench with
  | some ench => ench mb
  | none => (none, mb)

/-- The `switch` of `rtcp_vencode`. `srcv` has `count` sources, `name` four bytes. -/
def bodyEncode (count : Nat) (args : Args) (mb : Mbuf) : Option Errno × Mbuf :=
  match args with
  | .sr ssrc ntpSec ntpFrac rtpTs psent osent ench =>
    let mb := writeU32 ssrc mb
    let mb := writeU32 ntpSec mb
    let mb := writeU32 ntpFrac mb
    let mb := writeU32 rtpTs mb
    let mb := writeU32 psent mb
    let mb := writeU32 osent mb
    runEnch ench mb
  | .rr ssrc ench => runEnch ench (writeU32 ssrc mb)
  | .sdes ench => runEnch ench mb
  | .bye srcv reason =>
    let mb := (srcv.take count).foldl (fun mb src => writeU32 src mb) mb
    match reason with
    | some reason => (none, write reason (write [UInt8.ofNat reason.length] mb))
    | none => (none, mb)
  | .app src name data =>
    let mb := write name (writeU32 src mb)
    match data with
    | some data => if data.length % 4 ≠ 0 then (some .EBADMSG, mb) else (none, write data mb)
    | none => (none, mb)
  | .fir ssrc => (none, writeU32 ssrc mb)
  | .nack ssrc fsn blp => (none, writeU16 blp.toNat (writeU16 fsn.toNat (writeU32 ssrc mb)))
  | .rtpfb ssrcPacket ssrcMedia ench => runEnch ench (writeU32 ssrcMedia (writeU32 ssrcPacket mb))
  | .psfb ssrcPacket ssrcMedia ench => runEnch ench (writeU32 ssrcMedia (writeU32 ssrcPacket mb))

def rtcpEncode (count : UInt32) (args : Args) (mb : Mbuf) : Option Errno × Mbuf :=
  let pos := mb.pos
  -- Skip header - encoded last
  let mb := (mb.setPos (pos + hdrSize)).setEnd (pos + hdrSize)
  match bodyEncode count.toNat args mb with
  | (some err, mb) => (some err, mb)
  | (none, mb) =>
    -- padding to 32 bits
    let mb := (write [0])^[(4 - (mb.endPos - pos) % 4) % 4] mb
    let len := UInt16.ofNat ((mb.endPos - pos - hdrSize) / 4)
    let mb := rtcpHdrEncode count.toUInt8 args.type len (mb.setPos pos)
    (none, mb.setPos mb.endPos)

/-! ## Decoding -/

def rtcpHdrDecode : MbufM Hdr := do
  require hdrSize
  let b ← readU8
  let pt ← readU8
  let length ← readU16
  return { version := (b >>> 6) &&& 0x3, p := (b >>> 5) &&& 0x1 ≠ 0, count := b &&& 0x1f, pt, length }

def rtcpRrDecode : MbufM Rr := do
  require 24
  let ssrc ← readU32
  let w ← readU32
  let lastSeq ← readU32
  let jitter ← readU32
  let lsr ← readU32
  let dlsr ← readU32
  return ⟨ssrc, (w >>> 24).toUInt8, BitVec.ofNat 24 (w &&& 0x00ffffff).toNat, lastSeq, jitter, lsr, dlsr⟩

def times {α : Type} (f : MbufM α) : Nat → MbufM (List α)
  | 0 => return []
  | n + 1 => do
    let a ← f
    return a :: (← times f n)

/-- The loop over the items of `rtcp_sdes_decode`. An item has two bytes at least, so that as many
steps as there are bytes are enough. -/
def itemsDecode : Nat → MbufM (List SdesItem)
  | 0 => return []
  | n + 1 => do
    if (← get).getLeft < 1 then return []
    let type ← readU8
    if type = 0 then return []
    require 1
    let length ← readU8
    require length.toNat
    let data ← readMem length.toNat
    return ⟨type, data⟩ :: (← itemsDecode n)

def rtcpSdesDecode : MbufM Sdes := do
  require 4
  let start := (← get).pos
  let src ← readU32
  let itemv ← itemsDecode ((← get).getLeft + 1)
  modify (skipPadding start 3)
  return { src, itemv }

def gnackDecode : MbufM Gnack := do
  let pid ← readU16
  let blp ← readU16
  return { pid, blp }

def sliDecode : MbufM Sli := do
  let v ← readU32
  return ⟨((v >>> 19) &&& 0x1fff).toUInt16, ((v >>> 6) &&& 0x1fff).toUInt16, (v &&& 0x3f).toUInt8⟩

def rtcpRtpfbDecode (count : UInt8) (n : Nat) : MbufM Fci :=
  if count = 1 then do
    require (n * 4)
    return .gnackv (← times gnackDecode n)
  else return .none

def rtcpPsfbDecode (count : UInt8) (n : Nat) : MbufM Fci :=
  if count = 1 then return .none
  else if count = 2 then do
    require (n * 4)
    return .sliv (← times sliDecode n)
  else if count = 15 then do
    require (n * 4)
    let mb ← get
    advance (n * 4)
    return .afb (slice mb.buf mb.pos (n * 4))
  else return .none

/-- The cases `RTCP_RTPFB` and `RTCP_PSFB`, up to the control information -/
def fbDecode (length : Nat) (fci : Nat → MbufM Fci) : MbufM Body := do
  require 8
  if length < 2 then throw .EBADMSG
  let ssrcPacket ← readU32
  let ssrcMedia ← readU32
  return .fb ssrcPacket ssrcMedia (length - 2) (← fci (length - 2))

/-- The `switch` of `rtcp_decode`; `rem` is the length of the packet in bytes. -/
def bodyDecode (hdr : Hdr) (rem : Nat) : MbufM Body :=
  let count := hdr.count.toNat
  match Pt.ofCode hdr.pt with
  | some .sr => do
    require 24
    let ssrc ← readU32
    let ntpSec ← readU32
    let ntpFrac ← readU32
    let rtpTs ← readU32
    let psent ← readU32
    let osent ← readU32
    return .sr ssrc ntpSec ntpFrac rtpTs psent osent (← times rtcpRrDecode count)
  | some .rr => do
    require 4
    let ssrc ← readU32
    return .rr ssrc (← times rtcpRrDecode count)
  | some .sdes => return .sdes (← times rtcpSdesDecode count)
  | some .bye => do
    require (count * 4)
    let srcv ← times readU32 count
    -- decode reason (optional)
    if rem > count * 4 then
      let len ← readU8
      require len.toNat
      return .bye srcv (some (← readMem len.toNat))
    else return .bye srcv none
  | some .app => do
    require 8
    let src ← readU32
    let name ← readMem 4
    if rem > 8 then
      require (rem - 8)
      return .app src name (← readMem (rem - 8))
    else return .app src name []
  | some .fir => do
    require 4
    return .fir (← readU32)
  | some .nack => do
    require 8
    let ssrc ← readU32
    let fsn ← readU16
    let blp ← readU16
    return .nack ssrc fsn blp
  | some .rtpfb => fbDecode hdr.length.toNat (rtcpRtpfbDecode hdr.count)
  | some .psfb => fbDecode hdr.length.toNat (rtcpPsfbDecode hdr.count)
  | none => do
    -- unknown message type
    advance rem
    return .unknown

def rtcpDecode : MbufM Msg := do
  let start := (← get).pos
  let hdr ← rtcpHdrDecode
  if hdr.version ≠ 2 then throw .EBADMSG
  -- check length and remaining
  let rem := hdr.length.toNat * 4
  require rem
  let r ← bodyDecode hdr rem
  -- slurp padding
  modify (skipPadding start 3)
  return { hdr, r }

/-! ## Receiving -/

/-- A packet that the loop of `rtcp_recv_handler` gives to the session: where it starts, and where
the next one is looked for -/
structure Handed where
  start : Nat
  msg : Msg
  next : Nat
  deriving DecidableEq, Repr

/-- `rtcp_recv_handler`; a packet has four bytes at least. -/
def recvLoop : Nat → Mbuf → List Handed
  | 0, _ => []
  | n + 1, mb =>
    match rtcpDecode mb with
    | .error _ _ => []
    | .ok msg mb' => ⟨mb.pos, msg, mb'.pos⟩ :: recvLoop n mb'

def rtcpRecvHandler (mb : Mbuf) : List Handed := recvLoop (mb.getLeft + 1) mb

end BareRTC.Rtcp
