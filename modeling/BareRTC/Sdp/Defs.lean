import BareRTC.Signal.Defs

/-!
# SDP sessions (`re/src/sdp`: `sdp.h`, `session.c`, `media.c`, `format.c`, `attr.c`;
`re/src/sa/sa.c`)

A session has its media lines in two lists: `lmedial`, lines that were added locally and have not
been part of an exchange, and `medial`, the lines of the exchange in their order. Media lines and
formats have what is local and what the other side said side by side.

C strings are the bytes before their terminator (`cstr`). Memory is always available. `data`, which
is only handed to the handlers of a format, and the handlers' other arguments are part of the
handlers.
-/

namespace BareRTC.Sdp

def cstr (b : Bytes) : Bytes := b.takeWhile (· ≠ 0)

def atoi (b : Bytes) : Int32 := (Signal.atoll b).toUInt32.toInt32

/-! ## Addresses -/

inductive Addr
  | inet (a : UInt32)
  | inet6 (a : Bytes)
  deriving DecidableEq, Repr

structure Sa where
  addr : Addr
  port : UInt16
  deriving DecidableEq, Repr

/-- `net_inet_pton` and `sa_ntop` -/
structure Net where
  pton : Bytes → Option Addr
  ntop : Addr → Bytes

/-- `sa_init(sa, AF_INET)` -/
def Sa.init : Sa := ⟨.inet 0, 0⟩

/-- `sa_set`; the caller does not look at its result. -/
def Sa.set (net : Net) (addr : Bytes) (port : UInt16) (sa : Sa) : Sa :=
  match net.pton (cstr (addr.take 63)) with
  | some a => ⟨a, port⟩
  | none => sa

/-- `sa_isset(sa, SA_ADDR)` -/
def Sa.addrIsset (sa : Sa) : Bool :=
  match sa.addr with
  | .inet a => a != 0
  | .inet6 a => a.any (· != 0)

/-- `sa_isset(sa, SA_PORT)` -/
def Sa.portIsset (sa : Sa) : Bool := sa.port != 0

/-! ## Directions, bandwidths, attributes -/

inductive Dir
  | inactive | recvonly | sendonly | sendrecv
  deriving DecidableEq, Repr

def Dir.and : Dir → Dir → Dir
  | .sendrecv, d => d
  | d, .sendrecv => d
  | .recvonly, .recvonly => .recvonly
  | .sendonly, .sendonly => .sendonly
  | _, _ => .inactive

def Dir.name : Dir → Bytes
  | .inactive => ascii "inactive"
  | .recvonly => ascii "recvonly"
  | .sendonly => ascii "sendonly"
  | .sendrecv => ascii "sendrecv"

inductive Bandwidth
  | CT | AS | RS | RR | TIAS
  deriving DecidableEq, Repr

def bandwidths : List Bandwidth := [.CT, .AS, .RS, .RR, .TIAS]

def Bandwidth.name : Bandwidth → Bytes
  | .CT => ascii "CT"
  | .AS => ascii "AS"
  | .RS => ascii "RS"
  | .RR => ascii "RR"
  | .TIAS => ascii "TIAS"

/-- `int32_t bwv[SDP_BANDWIDTH_MAX]` -/
abbrev Bwv := Bandwidth → Int32

structure Attr where
  name : Bytes
  val : Option Bytes
  deriving DecidableEq, Repr

/-! ## Formats -/

def RTP_DYNPT_START : Int32 := 96

/-- `struct sdp_format`, what an encode handler is given. -/
structure FormatData where
  id : Bytes
  params : Option Bytes
  rparams : Option Bytes
  name : Option Bytes
  sup : Bool
  srate : UInt32
  ch : UInt8
  deriving DecidableEq, Repr

/-- `struct sdp_format`. A handler returns what it writes, and an error code. -/
structure Format extends FormatData where
  ench : Option (FormatData → Bool → Bytes × UInt32)
  cmph : Option (Option Bytes → Option Bytes → Bool)

/-- `fmt->pt`, which is set whenever `fmt->id` is. -/
def FormatData.pt (f : FormatData) : Int32 := atoi f.id

/-- The format that `sdp_format_radd` adds. -/
def Format.remote (id : Bytes) : Format := ⟨⟨cstr id, none, none, none, false, 0, 0⟩, none, none⟩

/-- `0 == str_casecmp(a, b)`, of strings that may be `NULL`. -/
def nameEq : Option Bytes → Option Bytes → Bool
  | none, none => true
  | some a, some b => strCaseEq a b
  | _, _ => false

/-- `fmt1->cmph && !fmt1->cmph(fmt1->params, fmt2->params, fmt1->data)` does not hold. -/
def Format.accepts (fmt1 fmt2 : Format) : Bool :=
  match fmt1.cmph with
  | none => true
  | some cmph => cmph fmt1.params fmt2.params

def formatCmp (fmt1 fmt2 : Format) : Bool :=
  if fmt1.pt < RTP_DYNPT_START ∧ fmt2.pt < RTP_DYNPT_START then fmt1.id == fmt2.id
  else
    nameEq fmt1.name fmt2.name && fmt1.srate == fmt2.srate && fmt1.ch == fmt2.ch &&
      fmt1.accepts fmt2 && fmt2.accepts fmt1

/-! ## Media lines -/

/-- `struct sdp_media`; `protov` are the alternative protocols that are set. -/
structure Media where
  lfmtl : List Format
  rfmtl : List Format
  lattrl : List Attr
  rattrl : List Attr
  laddr : Sa
  raddr : Sa
  laddrRtcp : Sa
  raddrRtcp : Sa
  lbwv : Bwv
  rbwv : Bwv
  name : Bytes
  proto : Bytes
  protov : List Bytes
  uproto : Option Bytes
  ench : Option (Bool → Bytes × UInt32)
  ldir : Dir
  rdir : Dir
  fmtIgnore : Bool
  disabled : Bool

def mediaAlloc (name proto : Bytes) : Media where
  lfmtl := []
  rfmtl := []
  lattrl := []
  rattrl := []
  laddr := .init
  raddr := .init
  laddrRtcp := .init
  raddrRtcp := .init
  lbwv _ := -1
  rbwv _ := -1
  name
  proto
  protov := []
  uproto := none
  ench := none
  ldir := .sendrecv
  rdir := .sendrecv
  fmtIgnore := false
  disabled := false

def Media.rreset (m : Media) : Media :=
  { m with raddr := .init, raddrRtcp := .init, rfmtl := [], rattrl := [], rdir := .sendrecv
           rbwv := fun _ => -1 }

/-- `sdp_media_proto_cmp`: the media line, if the protocol matches. -/
def Media.protoCmp (m : Media) (proto : Bytes) (update : Bool) : Option Media :=
  if proto = m.proto then some m
  else if proto ∈ m.protov then some (if update then { m with proto } else m)
  else none

def Media.formatRadd (m : Media) (id : Bytes) : Media := { m with rfmtl := m.rfmtl ++ [.remote id] }

/-- `fmt = sdp_format_find(&m->rfmtl, id)`, and what the caller does with it. -/
def Media.onFormat (m : Media) (id : Bytes) (f : Format → Format) : Media :=
  match m.rfmtl.findIdx? (fun fmt => id == fmt.id) with
  | none => m
  | some i => { m with rfmtl := m.rfmtl.modify i f }

/-! ## Alignment of formats -/

/-- What the local format takes over from the remote one that it matches. -/
def Format.align (offer : Bool) (lfmt rfmt : Format) : Format :=
  { lfmt with rparams := rfmt.params, sup := true, id := if offer then rfmt.id else lfmt.id }

/-- A remote format: the first local format that matches it is in use; for an offer it also moves to
the end. -/
def alignFormat (offer : Bool) (lfmtl : List Format) (rfmt : Format) : List Format × Format :=
  match lfmtl.findIdx? (formatCmp · rfmt) with
  | none => (lfmtl, { rfmt with sup := false })
  | some i =>
    (if offer then lfmtl.eraseIdx i ++ (lfmtl[i]?.map (·.align offer rfmt)).toList
      else lfmtl.modify i (·.align offer rfmt),
     { rfmt with sup := true })

def alignLoop (offer : Bool) : List Format → List Format → List Format × List Format
  | lfmtl, [] => (lfmtl, [])
  | lfmtl, rfmt :: rfmtl =>
    let (lfmtl, rfmt) := alignFormat offer lfmtl rfmt
    let (lfmtl, rfmtl) := alignLoop offer lfmtl rfmtl
    (lfmtl, rfmt :: rfmtl)

/-- The loop, from the last format to the first, that moves those not in use to the end. -/
def unsupLast (lfmtl : List Format) : List Format :=
  lfmtl.filter (·.sup) ++ (lfmtl.filter (!·.sup)).reverse

def Media.alignFormats (offer : Bool) (m : Media) : Media :=
  if m.disabled || m.raddr.port == 0 || m.fmtIgnore then m
  else
    let (lfmtl, rfmtl) :=
      alignLoop offer (m.lfmtl.map fun f => { f with rparams := none, sup := false }) m.rfmtl
    { m with lfmtl := if offer then unsupLast lfmtl else lfmtl, rfmtl }

/-! ## Sessions -/

structure Session where
  lmedial : List Media
  medial : List Media
  lattrl : List Attr
  rattrl : List Attr
  laddr : Sa
  raddr : Sa
  lbwv : Bwv
  rbwv : Bwv
  id : UInt32
  ver : UInt32
  rdir : Dir

def sessionAlloc (laddr : Sa) (id ver : UInt32) : Session :=
  ⟨[], [], [], [], laddr, .init, fun _ => -1, fun _ => -1, id, ver &&& 0x7fffffff, .sendrecv⟩

def Session.rreset (s : Session) : Session :=
  { s with raddr := .init, rattrl := [], rdir := .sendrecv, rbwv := fun _ => -1 }

/-- `sdp_media_find(sess, name, proto, true)`: the media line, and the others of the list. -/
def mediaFind (name proto : Bytes) : List Media → Option (Media × List Media)
  | [] => none
  | m :: ms =>
    match if name = m.name then m.protoCmp proto true else none with
    | some m => some (m, ms)
    | none => (mediaFind name proto ms).map fun (m', ms') => (m', m :: ms')

def mediaRadd (name proto : Bytes) : Media :=
  { mediaAlloc (cstr name) (cstr proto) with disabled := true }

end BareRTC.Sdp
