import BareRTC.Stun.Defs

/-!
# STUN messages (`re/src/stun/msg.c`)

`hmac_sha1` and `crc32` are not part of the repository's logic and are parameters (`Hash`).
-/

namespace BareRTC.Stun

/-- What `hmac_sha1` writes. -/
abbrev Digest := { mi : Bytes // mi.length = 20 }

structure Hash where
  hmac : Bytes → Bytes → Digest
  crc32 : Bytes → UInt32

def noHash : Hash := ⟨fun _ _ => ⟨List.replicate 20 0, rfl⟩, fun _ => 0⟩

def miSize : Nat := 24

def fpSize : Nat := 8

structure Msg where
  hdr : Hdr
  attrl : List Decoded
  mb : Mbuf
  start : Nat
  deriving DecidableEq, Repr

def fingerprint (h : Hash) (d : Bytes) : UInt32 := h.crc32 d ^^^ 0x5354554e

/-! ## Decoding -/

/-- The difference of two `size_t` values -/
def sizeSub (a b : Nat) : Nat := (a + (2 ^ 64 - b)) % 2 ^ 64

/-- The loop of `stun_msg_decode`; every attribute takes four bytes at least, so that as many steps
as there are bytes are enough. -/
def attrLoop (tid : Bytes) (extra : Nat) : Nat → List Decoded → Option (List UInt16) → Mbuf →
    Except Errno (List Decoded) × Option (List UInt16)
  | 0, attrl, ua, _ => (.ok attrl, ua)
  | n + 1, attrl, ua, mb =>
    if 4 ≤ sizeSub mb.getLeft extra then
      match stunAttrDecode tid ua mb with
      | .error err _ => (.error err, ua)
      | .ok (attr, ua) mb => attrLoop tid extra n (attrl ++ [attr]) ua mb
    else (.ok attrl, ua)

/-- The position of the buffer is as before after it. -/
def stunMsgDecode (mb : Mbuf) (ua : Option (List UInt16)) : Except Errno Msg × Option (List UInt16) :=
  match stunHdrDecode mb with
  | .error err _ => (.error err, ua)
  | .ok hdr mb' =>
    let extra := mb'.getLeft - hdr.len.toNat
    let (attrl, ua) := attrLoop hdr.tid extra (mb'.getLeft + 1) [] (ua.map fun _ => []) mb'
    (attrl.map fun attrl => { hdr, attrl, mb, start := mb.pos }, ua)

def stunMsgMethod (msg : Msg) : UInt16 := stunMethod msg.hdr.type

def stunMsgClass (msg : Msg) : UInt16 := stunClass msg.hdr.type

def stunMsgAttr (msg : Msg) (type : UInt16) : Option AttrVal := (msg.attrl.find? (·.attr.type = type)).map (·.attr.v)

/-! ## Encoding -/

/-- `err |= ..` for functions that fail in one way only -/
def orErr (err : Option Errno) (r : Option Errno × Mbuf) : Option Errno × Mbuf := (err.or r.1, r.2)

/-- The loop over the attributes of `stun_msg_vencode`; one without a value is left out. -/
def attrsEncode (tid : Bytes) (padding : UInt8) (attrs : List (UInt16 × Option AttrVal)) (r : Option Errno × Mbuf) :
    Option Errno × Mbuf :=
  attrs.foldl (fun r a =>
    match a.2 with
    | none => r
    | some v => orErr r.1 (stunAttrEncode a.1 v (some tid) padding r.2)) r

/-- `stun_msg_vencode`. A header length is a `uint16_t`. -/
def stunMsgEncode (h : Hash) (method : UInt16) (cls : UInt8) (tid : Bytes) (ec : Option (UInt16 × Bytes))
    (key : Option Bytes) (fp : Bool) (padding : UInt8) (attrs : List (UInt16 × Option AttrVal)) (mb : Mbuf) :
    Option Errno × Mbuf :=
  let start := mb.pos
  let mb := mb.setPos (mb.pos + headerSize)
  let hdr : Hdr := { type := stunType method cls, len := 0, cookie := magicCookie, tid }
  let (err, mb) := match ec with
    | some (code, reason) => stunAttrEncode Attrib.errCode.code (.errCode code reason) none padding mb
    | none => (none, mb)
  let (err, mb) := attrsEncode tid padding attrs (err, mb)
  -- header
  let mi := if key.isSome then miSize else 0
  let hdr := { hdr with len := UInt16.ofNat (mb.pos - start - headerSize + mi) }
  let mb := stunHdrEncode hdr (mb.setPos start)
  let mb := mb.setPos (mb.pos + (hdr.len.toNat - mi))
  let (err, mb) := match key with
    | some key =>
      let mb := mb.setPos start
      let mi := h.hmac key mb.left
      let mb := mb.setPos (mb.pos + (headerSize + hdr.len.toNat - miSize))
      orErr err (stunAttrEncode Attrib.msgIntegrity.code (.integrity mi) none padding mb)
    | none => (err, mb)
  if fp then
    -- header
    let hdr := { hdr with len := UInt16.ofNat (mb.pos - start - headerSize + fpSize) }
    let mb := stunHdrEncode hdr (mb.setPos start)
    let mb := mb.setPos start
    let fprnt := fingerprint h mb.left
    let mb := mb.setPos (mb.pos + (headerSize + hdr.len.toNat - fpSize))
    orErr err (stunAttrEncode Attrib.fingerprint.code (.num32 fprnt) none padding mb)
  else (err, mb)

/-! ## Checking -/

/-- The header is written to the buffer with another length, and the position set back. -/
def Msg.setLen (msg : Msg) (len : UInt16) : Msg :=
  let hdr := { msg.hdr with len }
  let mb := stunHdrEncode hdr msg.mb
  { msg with hdr, mb := mb.setPos (mb.pos - headerSize) }

def stunMsgChkMi (h : Hash) (key : Bytes) (msg : Msg) : Option Errno × Msg :=
  match stunMsgAttr msg Attrib.msgIntegrity.code with
  | none => (some .EPROTO, msg)
  | some mi =>
    let msg := { msg with mb := msg.mb.setPos msg.start }
    let fp := (stunMsgAttr msg Attrib.fingerprint.code).isSome
    let msg := if fp then msg.setLen (msg.hdr.len - 8) else msg
    let hmac := h.hmac key (slice msg.mb.buf msg.mb.pos (headerSize + msg.hdr.len.toNat - miSize))
    let msg := if fp then msg.setLen (msg.hdr.len + 8) else msg
    (if mi = .integrity hmac then none else some .EBADMSG, msg)

def stunMsgChkFingerprint (h : Hash) (msg : Msg) : Option Errno × Msg :=
  match stunMsgAttr msg Attrib.fingerprint.code with
  | none => (some .EPROTO, msg)
  | some fp =>
    let msg := { msg with mb := msg.mb.setPos msg.start }
    let fprnt := fingerprint h (slice msg.mb.buf msg.mb.pos (headerSize + msg.hdr.len.toNat - fpSize))
    (if fp = .num32 fprnt then none else some .EBADMSG, msg)

end BareRTC.Stun
