import BareRTC.Sdp.Defs

/-!
# STUN headers, addresses and attributes (`re/src/stun/hdr.c`, `addr.c`, `attr.c`)

The decoders work on a buffer and fail at the first error (`MbufM`). The encoders go on after an
error and return whether there was one; memory is there for what they write (without it the padding
loop of `stun_attr_encode` would not come to its end).
-/

namespace BareRTC.Stun

open Sdp (Sa Addr)
open Mbuf

/-! ## Headers -/

def magicCookie : UInt32 := 0x2112a442

def headerSize : Nat := 20

def stunType (method : UInt16) (cls : UInt8) : UInt16 :=
  (method &&& 0x0f80) <<< 2 ||| (method &&& 0x0070) <<< 1 ||| (method &&& 0x000f) <<< 0 |||
    (cls.toUInt16 &&& 0x2) <<< 7 ||| (cls.toUInt16 &&& 0x1) <<< 4

def stunClass (type : UInt16) : UInt16 := (type >>> 7 ||| type >>> 4) &&& 0x3

def stunMethod (type : UInt16) : UInt16 := (type &&& 0x3e00) >>> 2 ||| (type &&& 0x00e0) >>> 1 ||| (type &&& 0x000f)

structure Hdr where
  type : UInt16
  len : UInt16
  cookie : UInt32
  tid : Bytes
  deriving DecidableEq, Repr

def stunHdrDecode : MbufM Hdr := do
  require headerSize
  let type ← readU16
  if type &&& 0xc000 ≠ 0 then throw .EBADMSG
  let len ← readU16
  if len &&& 0x3 ≠ 0 then throw .EBADMSG
  let cookie ← readU32
  let tid ← readMem 12
  require len.toNat
  return { type, len, cookie, tid }

def stunHdrEncode (hdr : Hdr) (mb : Mbuf) : Mbuf :=
  let mb := writeU16 (hdr.type &&& 0x3fff).toNat mb
  let mb := writeU16 hdr.len.toNat mb
  let mb := write (beBytes 4 hdr.cookie.toNat) mb
  write hdr.tid mb

/-! ## Addresses -/

def in6XorTid (in6 tid : Bytes) : Bytes := xorBytes in6 ([0x21, 0x12, 0xa4, 0x42] ++ tid)

def stunAddrEncode (addr : Sa) (tid : Option Bytes) (mb : Mbuf) : Mbuf :=
  let port := if tid.isSome then addr.port ^^^ 0x2112 else addr.port
  match addr.addr with
  | .inet a =>
    let addr4 := if tid.isSome then a ^^^ magicCookie else a
    let mb := write [0] mb
    let mb := write [1] mb
    let mb := writeU16 port.toNat mb
    write (beBytes 4 addr4.toNat) mb
  | .inet6 a =>
    let addr6 := match tid with
      | some tid => in6XorTid a tid
      | none => a
    let mb := write [0] mb
    let mb := write [2] mb
    let mb := writeU16 port.toNat mb
    write addr6 mb

def stunAddrDecode (tid : Option Bytes) : MbufM Sa := do
  require 4
  let _ ← readU8
  let family ← readU8
  let port ← readU16
  let port := if tid.isSome then port ^^^ 0x2112 else port
  if family = 1 then
    require 4
    let addr4 ← readU32
    return ⟨.inet (if tid.isSome then addr4 ^^^ magicCookie else addr4), port⟩
  else if family = 2 then
    require 16
    let addr6 ← readMem 16
    return ⟨.inet6 (match tid with
      | some tid => in6XorTid addr6 tid
      | none => addr6), port⟩
  else throw .EAFNOSUPPORT

/-! ## Attributes -/

inductive Attrib
  | mappedAddr | changeReq | username | msgIntegrity | errCode | unknownAttr | channelNumber | lifetime
  | xorPeerAddr | data | realm | nonce | xorRelayAddr | reqAddrFamily | evenPort | reqTransport | dontFragment
  | xorMappedAddr | rsvToken | priority | useCand | padding | respPort | software | altServer | fingerprint
  | controlled | controlling | respOrigin | otherAddr
  deriving DecidableEq, Repr

def Attrib.code : Attrib → UInt16
  | .mappedAddr => 0x0001 | .changeReq => 0x0003 | .username => 0x0006 | .msgIntegrity => 0x0008
  | .errCode => 0x0009 | .unknownAttr => 0x000a | .channelNumber => 0x000c | .lifetime => 0x000d
  | .xorPeerAddr => 0x0012 | .data => 0x0013 | .realm => 0x0014 | .nonce => 0x0015 | .xorRelayAddr => 0x0016
  | .reqAddrFamily => 0x0017 | .evenPort => 0x0018 | .reqTransport => 0x0019 | .dontFragment => 0x001a
  | .xorMappedAddr => 0x0020 | .rsvToken => 0x0022 | .priority => 0x0024 | .useCand => 0x0025
  | .padding => 0x0026 | .respPort => 0x0027 | .software => 0x8022 | .altServer => 0x8023
  | .fingerprint => 0x8028 | .controlled => 0x8029 | .controlling => 0x802a | .respOrigin => 0x802b
  | .otherAddr => 0x802c

def Attrib.all : List Attrib :=
  [.mappedAddr, .changeReq, .username, .msgIntegrity, .errCode, .unknownAttr, .channelNumber, .lifetime,
   .xorPeerAddr, .data, .realm, .nonce, .xorRelayAddr, .reqAddrFamily, .evenPort, .reqTransport, .dontFragment,
   .xorMappedAddr, .rsvToken, .priority, .useCand, .padding, .respPort, .software, .altServer, .fingerprint,
   .controlled, .controlling, .respOrigin, .otherAddr]

/-- The cases of the `switch` statements over the attribute type; `other` is the default. -/
inductive Kind
  | addr | xorAddr | changeReq | str | integrity | errCode | unknownAttr | num16 | num32 | data | num8 | evenPort
  | flag | num64 | other
  deriving DecidableEq, Repr

def Attrib.kind : Attrib → Kind
  | .mappedAddr | .altServer | .respOrigin | .otherAddr => .addr
  | .xorPeerAddr | .xorRelayAddr | .xorMappedAddr => .xorAddr
  | .changeReq => .changeReq
  | .username | .realm | .nonce | .software => .str
  | .msgIntegrity => .integrity
  | .errCode => .errCode
  | .unknownAttr => .unknownAttr
  | .channelNumber | .respPort => .num16
  | .lifetime | .priority | .fingerprint => .num32
  | .data | .padding => .data
  | .reqAddrFamily | .reqTransport => .num8
  | .evenPort => .evenPort
  | .dontFragment | .useCand => .flag
  | .rsvToken | .controlled | .controlling => .num64

def kind (type : UInt16) : Kind :=
  match Attrib.all.find? (·.code = type) with
  | some a => a.kind
  | none => .other

/-- The value of an attribute: the member of the union that is used for its type. Strings are
without the final `0`, and a memory buffer is what is left in it. -/
inductive AttrVal
  | addr (sa : Sa)
  | xorAddr (sa : Sa)
  | changeReq (ip port : Bool)
  | str (s : Bytes)
  | integrity (mi : Bytes)
  | errCode (code : UInt16) (reason : Bytes)
  | unknownAttr (typev : List UInt16)
  | num16 (v : UInt16)
  | num32 (v : UInt32)
  | data (d : Bytes)
  | num8 (v : UInt8)
  | evenPort (r : Bool)
  | flag
  | num64 (v : UInt64)
  | other
  deriving DecidableEq, Repr

structure Attr where
  type : UInt16
  v : AttrVal
  deriving DecidableEq, Repr

/-- The `switch` of `stun_attr_encode`. The value is the one that the type stands for; the caller
passes a pointer, and there is no way to see another one. -/
def valEncode (k : Kind) (v : AttrVal) (tid : Option Bytes) (mb : Mbuf) : Option Errno × Mbuf :=
  match k, v with
  | .addr, .addr sa => (none, stunAddrEncode sa none mb)
  | .xorAddr, .xorAddr sa => (none, stunAddrEncode sa tid mb)
  | .changeReq, .changeReq ip port =>
    let n : UInt32 := ip.toUInt32 <<< 2 ||| port.toUInt32 <<< 1
    (none, write (beBytes 4 n.toNat) mb)
  | .str, .str s => (none, write s mb)
  | .integrity, .integrity mi => (none, write mi mb)
  | .errCode, .errCode code reason =>
    let mb := writeU16 0 mb
    let mb := write [(code / 100).toUInt8] mb
    let mb := write [(code % 100).toUInt8] mb
    (none, write reason mb)
  | .unknownAttr, .unknownAttr typev => (none, typev.foldl (fun mb type => writeU16 type.toNat mb) mb)
  | .num16, .num16 v => (none, writeU16 0 (writeU16 v.toNat mb))
  | .num32, .num32 v => (none, write (beBytes 4 v.toNat) mb)
  | .data, .data d => (none, write d mb)
  | .num8, .num8 v => (none, writeU16 0 (write [0] (write [v] mb)))
  | .evenPort, .evenPort r => (none, write [r.toUInt8 <<< 7] mb)
  | .flag, .flag => (none, mb)
  | .num64, .num64 v => (none, write (beBytes 8 v.toNat) mb)
  | _, _ => (some .EINVAL, mb)

def stunAttrEncode (type : UInt16) (v : AttrVal) (tid : Option Bytes) (padding : UInt8) (mb : Mbuf) :
    Option Errno × Mbuf :=
  let mb := mb.setPos (mb.pos + 4)
  let start := mb.pos
  let (err, mb) := valEncode (kind type) v tid mb
  -- header
  let len := mb.pos - start
  let mb := mb.setPos (start - 4)
  let mb := writeU16 type.toNat mb
  let mb := writeU16 len mb
  let mb := mb.setPos (mb.pos + len)
  -- padding
  (err, (write [padding])^[(4 - len % 4) % 4] mb)

def strDecode (len : Nat) : MbufM Bytes := do
  require len
  readMem len

def readTypes : Nat → MbufM (List UInt16)
  | 0 => return []
  | n + 1 => do
    let type ← readU16
    return type :: (← readTypes n)

def valDecode (k : Kind) (tid : Bytes) (len : Nat) : MbufM AttrVal :=
  match k with
  | .addr => return .addr (← stunAddrDecode none)
  | .xorAddr => return .xorAddr (← stunAddrDecode (some tid))
  | .changeReq => do
    if len ≠ 4 then throw .EBADMSG
    let n ← readU32
    return .changeReq ((n >>> 2) &&& 1 ≠ 0) ((n >>> 1) &&& 1 ≠ 0)
  | .str => return .str (← strDecode len)
  | .integrity => do
    if len ≠ 20 then throw .EBADMSG
    return .integrity (← readMem 20)
  | .errCode => do
    if len < 4 then throw .EBADMSG
    advance 2
    let hundreds ← readU8
    let code ← readU8
    return .errCode ((hundreds &&& 0x7).toUInt16 * 100 + code.toUInt16) (← strDecode (len - 4))
  | .unknownAttr => return .unknownAttr ((← readTypes (len / 2)).take 8)
  | .num16 => do
    if len < 2 then throw .EBADMSG
    return .num16 (← readU16)
  | .num32 => do
    if len ≠ 4 then throw .EBADMSG
    return .num32 (← readU32)
  | .data => fun mb => .ok (.data (slice mb.buf mb.pos len)) (mb.setPos (mb.pos + len))
  | .num8 => do
    if len < 1 then throw .EBADMSG
    return .num8 (← readU8)
  | .evenPort => do
    if len < 1 then throw .EBADMSG
    return .evenPort (((← readU8) >>> 7) &&& 1 ≠ 0)
  | .flag => do
    if len > 0 then throw .EBADMSG
    return .flag
  | .num64 => do
    if len ≠ 8 then throw .EBADMSG
    return .num64 (← readU64)
  | .other => do
    advance len
    return .other

/-- An attribute, with the place of its value and the length field: the variables `start` and `len`
of `stun_attr_decode`. -/
structure Decoded where
  attr : Attr
  start : Nat
  len : Nat
  deriving DecidableEq, Repr

/-- An unknown attribute that must be understood is noted, if there is room. -/
def noteUnknown (type : UInt16) : Option (List UInt16) → Option (List UInt16)
  | some ua => some (if kind type = .other ∧ type < 0x8000 ∧ ua.length < 8 then ua ++ [type] else ua)
  | none => none

def stunAttrDecode (tid : Bytes) (ua : Option (List UInt16)) : MbufM (Decoded × Option (List UInt16)) := do
  require 4
  let type ← readU16
  let len ← readU16
  require len.toNat
  let start := (← get).pos
  let v ← valDecode (kind type) tid len.toNat
  modify (skipPadding start 3)
  return (⟨⟨type, v⟩, start, len.toNat⟩, noteUnknown type ua)

end BareRTC.Stun
