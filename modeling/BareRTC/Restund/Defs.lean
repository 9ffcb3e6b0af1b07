import BareRTC.Stun.Ctrans

/-!
# What the modules of the server share (`restund/include/restund.h`, `restund/src/stun.c`,
`re/src/sa/sa.c`)

Addresses of peers and clients are always of one of the two families; an address that can be
`AF_UNSPEC` is an `Option`. The counters of the statistics are left out.
-/

namespace BareRTC.Restund

open Sdp (Sa Addr)
open Stun (Attrib AttrVal Msg Proto)

/-! ## Addresses -/

inductive Af
  | inet | inet6
  deriving DecidableEq, Repr

def saAf (sa : Sa) : Af :=
  match sa.addr with
  | .inet _ => .inet
  | .inet6 _ => .inet6

/-- A word of an IPv6 address as the host, which is little-endian, reads it -/
def in6Word (a : Bytes) (i : Nat) : UInt32 := UInt32.ofNat (beNat (slice a (4 * i) 4).reverse)

/-- `sa_hash(sa, SA_ADDR)` -/
def saHashAddr (sa : Sa) : UInt32 :=
  match sa.addr with
  | .inet a => a
  | .inet6 a => in6Word a 0 ^^^ in6Word a 1 ^^^ in6Word a 2 ^^^ in6Word a 3

/-- `sa_hash(sa, SA_ALL)` -/
def saHashAll (sa : Sa) : UInt32 := saHashAddr sa + sa.port.toUInt32

def saIsLoopback (sa : Sa) : Bool :=
  match sa.addr with
  | .inet a => a = 0x7f000001
  | .inet6 a => a = List.replicate 15 0 ++ [1]

/-- The place of an IPv4 address is the flow information of an IPv6 one, which is zero. -/
def isBroadcast (sa : Sa) : Bool :=
  match sa.addr with
  | .inet a => a = 0xffffffff
  | .inet6 _ => false

def saIsAny (sa : Sa) : Bool :=
  match sa.addr with
  | .inet a => a = 0
  | .inet6 a => a = List.replicate 16 0

def saIsLinklocal (sa : Sa) : Bool :=
  match sa.addr with
  | .inet a => a &&& 0xffff0000 = 0xa9fe0000
  | .inet6 a => a.headD 0 = 0xfe ∧ a.tail.headD 0 &&& 0xc0 = 0x80

def restundAddrIsBlocked (sa : Sa) : Bool := saIsLoopback sa || isBroadcast sa || saIsAny sa || saIsLinklocal sa

/-- `sa_isset(sa, SA_ADDR)` -/
def saIsset : Option Sa → Bool
  | none => false
  | some sa => !saIsAny sa

def saPort : Option Sa → UInt16
  | none => 0
  | some sa => sa.port

/-- Where a message came from and where to: the arguments `proto`, `sock`, `src` and `dst` of the
handlers -/
structure Via where
  proto : Proto
  sock : Nat
  src : Sa
  dst : Sa
  deriving DecidableEq, Repr

structure Msgctx where
  ua : List UInt16
  key : Option Bytes := none
  fp : Bool := false
  deriving DecidableEq, Repr

/-! The member of the union of an attribute that is read for its type -/

def valStr : AttrVal → Option Bytes
  | .str s => some s
  | _ => none

def valXorAddr : AttrVal → Option Sa
  | .xorAddr sa => some sa
  | _ => none

def valData : AttrVal → Option Bytes
  | .data d => some d
  | _ => none

def valNum8 : AttrVal → Option UInt8
  | .num8 v => some v
  | _ => none

def valNum16 : AttrVal → Option UInt16
  | .num16 v => some v
  | _ => none

def valNum32 : AttrVal → Option UInt32
  | .num32 v => some v
  | _ => none

def valNum64 : AttrVal → Option UInt64
  | .num64 v => some v
  | _ => none

def valEvenPort : AttrVal → Option Bool
  | .evenPort r => some r
  | _ => none

def msgAttr {α : Type} (msg : Msg) (attr : Attrib) (val : AttrVal → Option α) : Option α :=
  (Stun.stunMsgAttr msg attr.code).bind val

structure Reply where
  err : Option (UInt16 × String)
  attrs : List (Attrib × AttrVal)
  key : Option Bytes
  fp : Bool
  deriving DecidableEq, Repr

inductive Out
  /-- `stun_reply` or `stun_ereply` for a request, and what it returned -/
  | reply (via : Via) (req : Stun.Hdr) (rep : Reply) (err : Option Errno)
  /-- `udp_send` on a relay socket -/
  | relay (us : Nat) (dst : Sa) (d : Bytes)
  /-- `stun_send` of channel data to a client -/
  | chanData (proto : Proto) (sock : Nat) (cli : Sa) (d : Bytes)
  /-- `stun_indication` with data to a client -/
  | dataInd (proto : Proto) (sock : Nat) (cli peer : Sa) (d : Bytes)
  /-- memory is read after it was freed -/
  | fault
  deriving DecidableEq, Repr

/-- One try of `relay_listen`: what `udp_listen`, `udp_local_get` and the second `udp_listen`
return -/
structure Try where
  listen : Option Errno := none
  localGet : Except Errno Sa
  reserve : Option Errno := none

structure Env where
  /-- `time(NULL)`, a `time_t` -/
  now : Nat
  now_lt : now < 2 ^ 63
  /-- how long before `now` the clock is read for the first look-up of `chanbind_request` -/
  tick : Nat := 0
  /-- `tmr_jiffies` -/
  jiffies : Nat
  msgMem : Bool
  keyMem : Bool
  mem : Nat → Bool
  /-- `restund_get_ha1` -/
  ha1 : Bytes → Option Bytes
  /-- the result of sending a response -/
  reply : Option Errno
  tries : Nat → Try
  /-- `tcp_conn_txqsz` -/
  txqsz : Nat
  other : Nat → Bool

def cstr (s : Bytes) : Bytes := s.takeWhile (· ≠ 0)

end BareRTC.Restund
