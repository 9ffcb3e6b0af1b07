import BareRTC.Sdp.Defs

/-!
# Decoding a session description (`re/src/sdp/msg.c`)

`sdp_decode` resets what it knows of the other side, goes through the text character by character
and decodes each line `x=value` at its end. The current media line is a pointer, `NULL` before the
first `m=` line; here it is the position of the media line in `medial`.
-/

namespace BareRTC.Sdp

/-- How a call can end other than with `0`: with an error code, or in a read through `NULL`. -/
inductive Fault
  | err (e : Errno)
  | nullDeref
  deriving DecidableEq, Repr

structure DecSt where
  sess : Session
  m : Option Nat

abbrev DecM := EStateM Fault DecSt

def modSess (f : Session → Session) : DecM Unit := modify fun d => { d with sess := f d.sess }

def modMedia (k : Nat) (f : Media → Media) : DecM Unit :=
  modSess fun s => { s with medial := s.medial.modify k f }

/-- A change of the current media line; of the session, if there is none. -/
def onScope (f : Session → Session) (g : Media → Media) : DecM Unit := do
  match (← get).m with
  | none => modSess f
  | some k => modMedia k g

def whenMedia (g : Media → Media) : DecM Unit := onScope id g

def fail (e : Errno) : DecM Unit := throw (.err e)

/-! ## Expressions -/

def fmtpMatch (pl : Bytes) : Option (Bytes × Bytes) :=
  match reRegex (ascii "[^ ]+ [^]*") pl with
  | .ok [id, params] => some (id, params)
  | _ => none

def rtcpMatch (pl : Bytes) : Option (Bytes × Option Bytes) :=
  match reRegex (ascii "[0-9]+ IN IP[46]1 [^ ]+") pl with
  | .ok [port, _, addr] => some (port, some addr)
  | _ =>
    match reRegex (ascii "[0-9]+") pl with
    | .ok [port] => some (port, none)
    | _ => none

/-- The format of an `rtpmap` attribute, its name, rate and channels. -/
def rtpmapMatch (pl : Bytes) : Option (Bytes × Bytes × Bytes × Bytes) :=
  match reRegex (ascii "[^ ]+ [^/]+/[0-9]+[/]*[^]*") pl with
  | .ok [id, name, srate, _, ch] => some (id, name, srate, ch)
  | _ => none

def candidatePort (pl : Bytes) : Option UInt16 :=
  match reRegex (ascii "[^ ]+ [0-9]+ [^ ]+ [0-9]+ [^ ]+ [0-9]+ typ [a-z]+[^]*") pl with
  | .ok [_, _, _, _, _, port, _, _] => some (plU32 port).toUInt16
  | _ => none

def attrSplit (pl : Bytes) : Bytes × Option Bytes :=
  match reRegex (ascii "[^:]+:[^]+") pl with
  | .ok [name, val] => (name, some val)
  | _ => (pl, none)

def bandwidthMatch (pl : Bytes) : Option (Bytes × Bytes) :=
  match reRegex (ascii "[^:]+:[0-9]+") pl with
  | .ok [type, bw] => some (type, bw)
  | _ => none

def connMatch (pl : Bytes) : Option Bytes :=
  match reRegex (ascii "IN IP[46]1 [^ ]+") pl with
  | .ok [_, v] => some v
  | _ => none

def mediaMatch (pl : Bytes) : Option (Bytes × Bytes × Bytes × Bytes) :=
  match reRegex (ascii "[a-z]+ [^ ]+ [^ ]+[^]*") pl with
  | .ok [name, port, proto, fmtv] => some (name, port, proto, fmtv)
  | _ => none

/-! ## Attributes -/

def attrDecodeFmtp (pl : Bytes) : DecM Unit := do
  if (← get).m.isNone then return ()
  else match fmtpMatch pl with
    | some (id, params) =>
      whenMedia (·.onFormat id fun fmt => { fmt with params := some (cstr params) })
    | none => fail .EBADMSG

def attrDecodeRtcp (net : Net) (pl : Bytes) : DecM Unit := do
  if (← get).m.isNone then return ()
  else match rtcpMatch pl with
    | some (port, some addr) =>
      whenMedia fun m => { m with raddrRtcp := m.raddrRtcp.set net addr (plU32 port).toUInt16 }
    | some (port, none) =>
      whenMedia fun m => { m with raddrRtcp := { m.raddrRtcp with port := (plU32 port).toUInt16 } }
    | none => fail .EBADMSG

def attrDecodeRtpmap (pl : Bytes) : DecM Unit := do
  if (← get).m.isNone then return ()
  else match rtpmapMatch pl with
    | some (id, name, srate, ch) =>
      whenMedia (·.onFormat id fun fmt =>
        { fmt with name := some (cstr name), srate := plU32 srate
                   ch := if ch = [] then 1 else (plU32 ch).toUInt8 })
    | none => fail .EBADMSG

/-- It does not look whether there is a media line; its result is not looked at. -/
def candidateDecode (pl : Bytes) : DecM Unit := do
  match candidatePort pl with
  | none => return ()
  | some port =>
    match (← get).m with
    | none => throw .nullDeref
    | some k => modMedia k fun m =>
        -- if is 9 update the port.
        if m.raddr.port = 9 then
          { m with raddr := { m.raddr with port := if m.uproto.isSome then 0 else port } }
        else m

/-- `*dir = d`, with `dir` the direction of the media line or of the session. -/
def setDir (d : Dir) : DecM Unit :=
  onScope (fun s => { s with rdir := d }) fun m => { m with rdir := d }

/-- `sdp_attr_add(m ? &m->rattrl : &sess->rattrl, name, val)` -/
def attrAdd (name : Bytes) (val : Option Bytes) : DecM Unit :=
  let attr : Attr := ⟨cstr name, val.map cstr⟩
  onScope (fun s => { s with rattrl := s.rattrl ++ [attr] })
    fun m => { m with rattrl := m.rattrl ++ [attr] }

def attrDecodeName (net : Net) (name : Bytes) (val : Option Bytes) : DecM Unit :=
  -- a value that is not set matches no expression
  if name = ascii "fmtp" then attrDecodeFmtp (val.getD [])
  else if name = ascii "inactive" then setDir .inactive
  else if name = ascii "recvonly" then setDir .sendonly
  else if name = ascii "rtcp" then attrDecodeRtcp net (val.getD [])
  else if name = ascii "rtpmap" then attrDecodeRtpmap (val.getD [])
  else if name = ascii "sendonly" then setDir .recvonly
  else if name = ascii "sendrecv" then setDir .sendrecv
  else attrAdd name val

def extractCandidate (name : Bytes) (val : Option Bytes) : DecM Unit :=
  if name = ascii "candidate" then candidateDecode (val.getD []) else return ()

def attrDecode (net : Net) (pl : Bytes) : DecM Unit := do
  let attr := attrSplit pl
  extractCandidate attr.1 attr.2
  attrDecodeName net attr.1 attr.2

/-! ## The other lines -/

/-- `bwv[type] = bw`, for a type that is known. -/
def setBandwidth (type : Bytes) (bw : Int32) (bwv : Bwv) : Bwv :=
  match bandwidths.find? (·.name == type) with
  | none => bwv
  | some b => Function.update bwv b bw

def bandwidthDecode (pl : Bytes) : DecM Unit :=
  match bandwidthMatch pl with
  | some (type, bw) =>
    let set := setBandwidth type (plU32 bw).toInt32
    onScope (fun s => { s with rbwv := set s.rbwv }) fun m => { m with rbwv := set m.rbwv }
  | none => fail .EBADMSG

def connDecode (net : Net) (pl : Bytes) : DecM Unit :=
  match connMatch pl with
  | some v =>
    let set (sa : Sa) := sa.set net v sa.port
    onScope (fun s => { s with raddr := set s.raddr }) fun m => { m with raddr := set m.raddr }
  | none => fail .EBADMSG

/-- The match of `" [^ ]+"`, and what follows it. -/
def nextFormat : Bytes → Option (Bytes × Bytes)
  | [] => none
  | c :: t =>
    if c = chr ' ' ∧ t.takeWhile (· ≠ chr ' ') ≠ [] then
      some (t.takeWhile (· ≠ chr ' '), t.dropWhile (· ≠ chr ' '))
    else nextFormat t

/-- The loop over the formats of a media line; `n` is at least the number of characters left. -/
def formatIds : Nat → Bytes → List Bytes
  | 0, _ => []
  | n + 1, fmtv =>
    match nextFormat fmtv with
    | none => []
    | some (fmt, fmtv) => fmt :: formatIds n fmtv

def Media.decoded (m : Media) (sess : Session) (port fmtv : Bytes) : Media :=
  let m := (formatIds fmtv.length fmtv).foldl Media.formatRadd m
  { m with
    raddr := ⟨sess.raddr.addr, if m.uproto.isSome then 0 else (plU32 port).toUInt16⟩
    rdir := sess.rdir }

/-- `m->uproto`, set to a protocol that the media line does not have. -/
def Media.matchProto (m : Media) (proto : Bytes) (offer : Bool) : Media :=
  match m.protoCmp proto offer with
  | some m => { m with uproto := none }
  | none => { m with uproto := some (cstr proto) }

/-- The media line after the current one, or a new one at the end, becomes the current one. -/
def nextMedia (offer : Bool) (name port proto fmtv : Bytes) (d : DecSt) : Except Errno DecSt :=
  let k := d.m.elim 0 (· + 1)
  match d.sess.medial[k]? with
  | none =>
    if offer = false then .error .EPROTO
    else
      let (m, lmedial) := (mediaFind name proto d.sess.lmedial).getD
        (mediaRadd name proto, d.sess.lmedial)
      let m := { m with uproto := none }
      .ok ⟨{ d.sess with medial := d.sess.medial ++ [m.decoded d.sess port fmtv], lmedial }, some d.sess.medial.length⟩
  | some m =>
    if name ≠ m.name then .error (if offer then .ENOTSUP else .EPROTO)
    else
      let m := (m.matchProto proto offer).decoded d.sess port fmtv
      .ok ⟨{ d.sess with medial := d.sess.medial.set k m }, some k⟩

def mediaDecode (offer : Bool) (pl : Bytes) : DecM Unit :=
  match mediaMatch pl with
  | some (name, port, proto, fmtv) => do
    match nextMedia offer name port proto fmtv (← get) with
    | .ok d => set d
    | .error e => fail e
  | none => fail .EBADMSG

def versionDecode (pl : Bytes) : DecM Unit := if pl = ascii "0" then return () else fail .ENOSYS

def lineDecode (net : Net) (offer : Bool) (type : UInt8) (val : Bytes) : DecM Unit :=
  if type = chr 'a' then attrDecode net val
  else if type = chr 'b' then bandwidthDecode val
  else if type = chr 'c' then connDecode net val
  else if type = chr 'm' then mediaDecode offer val
  else if type = chr 'v' then versionDecode val
  else return ()

/-- The loop over the text; `type` is `0` at the start of a line. The result is the type of a line
without an end. -/
def decodeLoop (net : Net) (offer : Bool) : UInt8 → Bytes → Bytes → DecM UInt8
  | type, _, [] => return type
  | type, val, [c] => do
    if c = 13 ∨ c = 10 then
      if type ≠ 0 then lineDecode net offer type val
      return 0
    else if type ≠ 0 then return type
    else throw (.err .EBADMSG)
  | type, val, c :: e :: t => do
    if c = 13 ∨ c = 10 then
      if type ≠ 0 then lineDecode net offer type val
      decodeLoop net offer 0 [] (e :: t)
    else if type ≠ 0 then decodeLoop net offer type (val ++ [c]) (e :: t)
    else if e ≠ chr '=' then throw (.err .EBADMSG)
    else decodeLoop net offer c [] t

def decodeStart (s : Session) : DecSt := ⟨{ s.rreset with medial := s.medial.map Media.rreset }, none⟩

def sdpDecode (net : Net) (offer : Bool) (text : Bytes) : EStateM Fault Session Unit := fun s =>
  match decodeLoop net offer 0 [] text (decodeStart s) with
  | .error e d => .error e d.sess
  | .ok type d =>
    if type ≠ 0 then .error (.err .EBADMSG) d.sess
    else .ok () { d.sess with medial := d.sess.medial.map (Media.alignFormats offer) }

end BareRTC.Sdp
