import BareRTC.Stun.Ctrans

/-!
# TURN clients: the allocation (`re/src/turn/turnc.c`)

A client that `turnc_alloc` made sends Allocate requests as transactions of its own STUN instance,
and gives the result to its handler `th`. What is received is given to the instance, whoever sent
it: `udp_recv_handler` looks at the source, but the helper that `stun_ctrans_request` registers on
the socket does not. The phase ends when `th` is called.
-/

namespace BareRTC.Turn

open Sdp (Sa)
open Stun (Attrib AttrVal Ctrans Hash Inst Msg Proto Request stunMsgAttr)

def failcMax : UInt32 := 16

structure LoopState where
  failc : UInt32 := 0
  lastScode : UInt16 := 0
  deriving DecidableEq, Repr

def turncRequestLoops (ls : LoopState) (scode : UInt16) : LoopState × Bool :=
  if scode = 0 then (⟨0, scode⟩, false)
  else (⟨ls.failc + 1, scode⟩, (scode ≠ 300 ∧ ls.lastScode = scode) ∨ ls.failc + 1 ≥ failcMax)

def turncLoopstateReset : LoopState := {}

/-! ## Credentials -/

structure Creds where
  username : Bytes
  password : Bytes
  realm : Option Bytes := none
  nonce : Option Bytes := none
  md5Hash : Bytes := []
  deriving DecidableEq, Repr

def strAttr (msg : Msg) (attr : Attrib) : Option Bytes :=
  match stunMsgAttr msg attr.code with
  | some (.str s) => some s
  | _ => none

/-- The result of `md5_printf` is `md5err` and the digest of the text. -/
def turncKeygen (md5 : Bytes → Bytes) (md5err : Option Errno) (c : Creds) (msg : Option Msg) : Option Errno × Creds :=
  match msg.bind (strAttr · .realm), msg.bind (strAttr · .nonce) with
  | some realm, some nonce =>
    let c := { c with realm := some realm, nonce := some nonce }
    match md5err with
    | some err => (some err, c)
    | none => (none, { c with md5Hash := md5 (c.username ++ ascii ":" ++ realm ++ ascii ":" ++ c.password) })
  | _, _ => (some .EPROTO, c)

/-- `t->realm ? t->md5_hash : NULL` -/
def Creds.key (c : Creds) : Option Bytes := c.realm.map fun _ => c.md5Hash

/-! ## Allocate requests -/

/-- `struct turnc`, what the allocation needs of it -/
structure Client where
  stun : Inst
  ls : LoopState
  ct : Option Nat
  creds : Creds
  proto : Proto
  psrv : Sa
  srv : Sa
  lifetime : UInt32
  allocated : Bool
  -- `stun_software`, which depends on the build
  software : Bytes

/-- What the functions that a request calls return: whether there is memory for the buffer, the
result of `stun_msg_vencode`, the transaction id, whether there is memory for the transaction and
its key, and the result of the first send -/
structure ReqEnv where
  buf : Bool
  encode : Option Errno
  tid : Bytes
  mem : Bool
  memKey : Bool
  send : Option Errno

/-- What the client does: a request is made (with a server, a key and attributes; those without a
value are left out), `th` is called, or what the STUN instance does -/
inductive AllocOut
  | request (srv : Sa) (key : Option Bytes) (attrs : List (Attrib × Option AttrVal))
  | th (err : Option Errno) (scode : UInt16) (reason : Option Bytes) (rel map : Option AttrVal) (msg : Option Msg)
  | stun (o : Stun.Out)

def Client.attrs (t : Client) : List (Attrib × Option AttrVal) :=
  [(.lifetime, some (.num32 t.lifetime)), (.reqTransport, some (.num8 17)),
    (.username, t.creds.realm.map fun _ => .str t.creds.username), (.realm, t.creds.realm.map .str),
    (.nonce, t.creds.nonce.map .str), (.software, some (.str t.software))]

def allocateRequest (env : ReqEnv) (t : Client) : Option Errno × Client × List AllocOut :=
  let out := AllocOut.request t.srv t.creds.key t.attrs
  if env.buf = false then (some .ENOMEM, t, [out])
  else
    match env.encode with
    | some err => (some err, t, [out])
    | none =>
      let r : Request := ⟨t.proto, true, true, env.tid, 0x003, t.creds.key, true, env.mem, env.memKey, none, env.send⟩
      match Stun.stunCtransRequest t.stun r with
      | (some err, st, os) => (some err, { t with stun := st }, out :: os.map .stun)
      | (none, st, os) => (none, { t with stun := st, ct := some t.stun.next }, out :: os.map .stun)

/-- What is around a response: the result of `md5_printf`, and the next request -/
structure RespEnv where
  md5err : Option Errno
  req : ReqEnv

/-- The call of `th` at the end of `allocate_resp_handler` -/
def report (err : Option Errno) (scode : UInt16) (reason : Option Bytes) (rel map : Option AttrVal)
    (msg : Option Msg) : List AllocOut := [.th err scode reason rel map msg]

/-- A request instead of the last one; `th` is called if it fails. -/
def retry (env : ReqEnv) (t : Client) (scode : UInt16) (reason : Option Bytes) (msg : Option Msg) :
    Client × List AllocOut :=
  match allocateRequest env t with
  | (some err, t, os) => (t, os ++ report (some err) scode reason none none msg)
  | (none, t, os) => (t, os)

variable (md5 : Bytes → Bytes)

def allocateRespHandler (env : RespEnv) (t : Client) (err : Option Errno) (scode : UInt16) (reason : Option Bytes)
    (msg : Option Msg) : Client × List AllocOut :=
  if err.isSome then (t, report err scode reason none none msg)
  else
    let (ls, loops) := turncRequestLoops t.ls scode
    let t := { t with ls }
    if loops then (t, report none scode reason none none msg)
    else if scode = 0 then
      let map := msg.bind (stunMsgAttr · Attrib.xorMappedAddr.code)
      let rel := msg.bind (stunMsgAttr · Attrib.xorRelayAddr.code)
      if rel.isNone ∨ map.isNone then (t, report (some .EPROTO) scode reason rel map msg)
      else
        let lifetime := match msg.bind (stunMsgAttr · Attrib.lifetime.code) with
          | some (.num32 v) => v
          | _ => t.lifetime
        ({ t with lifetime, allocated := true }, report none scode reason rel map msg)
    else if scode = 300 then
      if t.proto = .tcp ∨ t.proto = .dtls then (t, report none scode reason none none msg)
      else
        match msg.bind (stunMsgAttr · Attrib.altServer.code) with
        | some (.addr alt) => retry env.req { t with psrv := t.srv, srv := alt } scode reason msg
        | _ => (t, report none scode reason none none msg)
    else if scode = 401 ∨ scode = 438 then
      match turncKeygen md5 env.md5err t.creds msg with
      | (some err, creds) => ({ t with creds }, report (some err) scode reason none none msg)
      | (none, creds) => retry env.req { t with creds } scode reason msg
    else (t, report none scode reason none none msg)

/-! ## The client as a machine -/

/-- `setup` is the result of the functions that it calls before the request. -/
def turncAlloc (software : Bytes) (conf : Stun.Conf) (proto : Proto) (srv : Sa) (username password : Bytes)
    (lifetime : UInt32) (setup : Option Errno) (env : ReqEnv) : Except Errno (Client × List AllocOut) :=
  match setup with
  | some err => .error err
  | none =>
    match allocateRequest env
        ⟨Stun.stunAlloc conf, {}, none, { username, password }, proto, srv, srv, lifetime, false, software⟩ with
    | (some err, _) => .error err
    | (none, t, os) => .ok (t, os)

inductive AllocEvent
  /-- something is received on the socket -/
  | recv (env : RespEnv) (mb : Mbuf)
  /-- the timer of a transaction runs off; `send` is the result of sending again -/
  | timer (env : RespEnv) (id : Nat) (send : Option Errno)

def AllocEvent.stun : AllocEvent → Stun.Event
  | .recv _ mb => .recv mb
  | .timer _ id send => .timer id send

def AllocEvent.env : AllocEvent → RespEnv
  | .recv env _ => env
  | .timer env _ _ => env

/-- The handlers of the transactions that have completed are called; `completed` has set `turnc->ct`
to `NULL`. -/
def react (env : RespEnv) (t : Client) : List Stun.Out → Client × List AllocOut
  | [] => (t, [])
  | .resp ct err scode reason msg :: os =>
    let r := allocateRespHandler md5 env { t with ct := t.ct.filter (· ≠ ct.id) } err scode reason msg
    let r' := react env r.1 os
    (r'.1, .stun (.resp ct err scode reason msg) :: (r.2 ++ r'.2))
  | o :: os =>
    let r := react env t os
    (r.1, .stun o :: r.2)

def allocStep (h : Hash) (t : Client) (ev : AllocEvent) : Client × List AllocOut :=
  let r := Stun.step h t.stun ev.stun
  react md5 ev.env { t with stun := r.1 } r.2

end BareRTC.Turn
