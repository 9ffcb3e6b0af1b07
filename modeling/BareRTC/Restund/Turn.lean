import BareRTC.Lib.Lease
import BareRTC.Restund.Defs
import BareRTC.Restund.Tcp

/-!
# The TURN server (`restund/modules/turn`)

The hash tables are lists: equal keys are in one bucket, in the order in which they were appended,
and a look-up finds the first. Allocations and sockets are known by numbers; the handler of a relay
socket has the allocation that it was opened for as its argument.
-/

namespace BareRTC.Restund

open Sdp (Sa Addr)
open Stun (Attrib AttrVal Msg Proto stunMsgAttr stunMsgMethod)

/-! ## Permissions (`perm.c`) -/

def permLifetime : Nat := 300

structure Perm where
  peer : Sa
  expires : Nat
  deriving DecidableEq, Repr

/-- `hash_cmp_handler`: addresses without ports are compared. -/
def Perm.cmp (peer : Sa) (perm : Perm) : Bool := perm.peer.addr = peer.addr

/-- With the table after it -/
def permFind (now : Nat) (peer : Sa) : List Perm → Option Perm × List Perm := findLive Perm.expires now (·.cmp peer)

def permCreate (now : Nat) (peer : Sa) : Perm := ⟨peer, now + permLifetime⟩

def permRefresh (now : Nat) (perm : Perm) : Perm := { perm with expires := now + permLifetime }

/-! ## Channels (`chan.c`) -/

def chanLifetime : Nat := 600

structure Chan where
  numb : UInt16
  peer : Sa
  expires : Nat
  deriving DecidableEq, Repr

def chanCreate (now : Nat) (numb : UInt16) (peer : Sa) : Chan := ⟨numb, peer, now + chanLifetime⟩

def chanRefresh (now : Nat) (chan : Chan) : Chan := { chan with expires := now + chanLifetime }

def chanNumbValid (numb : UInt16) : Bool := 0x4000 ≤ numb ∧ numb ≤ 0x7fff

/-- `struct chanlist`, its two hash tables; an object is known by its fields. -/
structure Chanlist where
  htNumb : List Chan := []
  htPeer : List Chan := []
  deriving DecidableEq, Repr

namespace Chanlist

def append (cl : Chanlist) (chan : Chan) : Chanlist :=
  ⟨cl.htNumb ++ [chan], cl.htPeer ++ [chan]⟩

/-- `destructor` -/
def unlink (cl : Chanlist) (chan : Chan) : Chanlist :=
  ⟨cl.htNumb.erase chan, cl.htPeer.erase chan⟩

/-- `chan_refresh` of an object, which both tables have -/
def refresh (now : Nat) (cl : Chanlist) (chan : Chan) : Chanlist :=
  ⟨modifyFirst (· = chan) (chanRefresh now) cl.htNumb,
    modifyFirst (· = chan) (chanRefresh now) cl.htPeer⟩

/-- The end of a look-up: a channel that has expired is destroyed. -/
def found (now : Nat) (cl : Chanlist) : Option Chan → Option Chan × Chanlist
  | none => (none, cl)
  | some chan => if chan.expires < now then (none, cl.unlink chan) else (some chan, cl)

end Chanlist

def chanNumbFind (now : Nat) (numb : UInt16) (cl : Chanlist) : Option Chan × Chanlist :=
  cl.found now (cl.htNumb.find? (·.numb = numb))

def chanPeerFind (now : Nat) (peer : Sa) (cl : Chanlist) : Option Chan × Chanlist :=
  cl.found now (cl.htPeer.find? (·.peer = peer))

/-! ## State -/

/-- `struct allocation`; `tmr` is when its timer runs off. -/
structure Allocation where
  id : Nat
  tmr : Nat
  tid : Bytes
  cliAddr : Sa
  srvAddr : Sa
  relAddr : Option Sa := none
  rsvAddr : Option Sa := none
  cliSock : Nat
  relUs : Option Nat := none
  rsvUs : Option Nat := none
  username : Option Bytes
  perms : List Perm := []
  chans : Chanlist := {}
  proto : Proto
  deriving DecidableEq, Repr

/-- `struct turnd`, without the table; `bsize` is the size of the table. -/
structure Turnd where
  relAddr : Option Sa
  relAddr6 : Option Sa
  publicAddr : Option Sa
  lifetimeMax : UInt32
  bsize : UInt32
  software : Bytes
  deriving DecidableEq, Repr

/-- The allocations and `allocc_cur`, and the sockets opened for them with the arguments of their
handlers -/
structure Server where
  allocs : List Allocation := []
  socks : List (Nat × Option Nat) := []
  next : Nat := 0
  alloccCur : UInt32 := 0
  deriving DecidableEq, Repr

namespace Server

def put (s : Server) (al : Allocation) : Server :=
  { s with allocs := s.allocs.map fun a => if a.id = al.id then al else a }

/-- `mem_deref(al)`: the destructor -/
def destroy (s : Server) (al : Allocation) : Server :=
  { s with
    allocs := s.allocs.filter (·.id ≠ al.id)
    socks := s.socks.filter fun p => some p.1 ≠ al.relUs ∧ some p.1 ≠ al.rsvUs
    alloccCur := s.alloccCur - 1 }

end Server

/-- `hash_cmp_handler` of `turn.c` -/
def Allocation.cmp (via : Via) (al : Allocation) : Bool :=
  al.cliAddr = via.src ∧ al.srvAddr = via.dst ∧ al.proto = via.proto

def allocationFind (s : Server) (via : Via) : Option Allocation := s.allocs.find? (·.cmp via)

section
variable (t : Turnd) (env : Env) (ctx : Msgctx) (via : Via) (msg : Msg)

/-- With the attributes before `SOFTWARE` -/
def stunReply (attrs : List (Attrib × AttrVal)) : Out :=
  .reply via msg.hdr ⟨none, attrs ++ [(.software, .str t.software)], ctx.key, ctx.fp⟩ env.reply

def stunEreply (code : UInt16) (reason : String) (attrs : List (Attrib × AttrVal) := []) : Out :=
  .reply via msg.hdr ⟨some (code, reason), attrs ++ [(.software, .str t.software)], ctx.key, ctx.fp⟩ env.reply

/-! ## CreatePermission -/

/-- A permission on the list of a request, with its field `new`, which no permission in the table
has -/
structure Listed where
  perm : Perm
  new : Bool
  deriving DecidableEq, Repr

/-- `struct createperm`, with the table of the allocation -/
structure Createperm where
  perml : List Listed := []
  perms : List Perm
  afMismatch : Bool := false
  deriving DecidableEq, Repr

def xorPeerAddr (attr : Stun.Attr) : Option Sa :=
  if attr.type = Attrib.xorPeerAddr.code then valXorAddr attr.v else none

/-- Whether to stop. A permission that is created is appended to the table and taken out again. -/
def attribHandler (now : Nat) (mem : Bool) (relAddr : Option Sa) (attr : Stun.Attr) (cp : Createperm) :
    Bool × Createperm :=
  match xorPeerAddr attr with
  | none => (false, cp)
  | some peer =>
    if some (saAf peer) ≠ relAddr.map saAf then (true, { cp with afMismatch := true })
    else
      match permFind now peer cp.perms with
      | (some perm, perms) =>
        (false, { cp with perms := perms.eraseP (·.cmp peer), perml := cp.perml ++ [⟨perm, false⟩] })
      | (none, perms) =>
        if mem = false then (true, { cp with perms })
        else (false, { cp with perms, perml := cp.perml ++ [⟨permCreate now peer, true⟩] })

/-- `stun_msg_attr_apply(msg, attrib_handler, &cp)`; the attribute at place `n` asks for memory
number `n`. -/
def attribApply (now : Nat) (mem : Nat → Bool) (relAddr : Option Sa) :
    Nat → List Stun.Attr → Createperm → Bool × Createperm
  | _, [], cp => (false, cp)
  | n, attr :: attrs, cp =>
    match attribHandler now (mem n) relAddr attr cp with
    | (true, cp) => (true, cp)
    | (false, cp) => attribApply now mem relAddr (n + 1) attrs cp

def rollbackHandler (perms : List Perm) (le : Listed) : List Perm := if le.new then perms else perms ++ [le.perm]

def commitHandler (now : Nat) (perms : List Perm) (le : Listed) : List Perm :=
  perms ++ [if le.new then le.perm else permRefresh now le.perm]

/-- The response of `createperm_request`, and its `err`: an error response leaves it `ENOMEM`. -/
def createpermReply (hfail : Bool) (cp : Createperm) : Option Errno × Out :=
  if cp.afMismatch then (some .ENOMEM, stunEreply t env ctx via msg 443 "Peer Address Family Mismatch")
  else if hfail then (some .ENOMEM, stunEreply t env ctx via msg 500 "Server Error")
  else if cp.perml = [] then (some .ENOMEM, stunEreply t env ctx via msg 400 "No Peer Attributes")
  else (env.reply, stunReply t env ctx via msg [])

def createpermRequest (al : Allocation) : Allocation × Out :=
  let (hfail, cp) := attribApply env.now env.mem al.relAddr 0 (msg.attrl.map (·.attr)) { perms := al.perms }
  let (err, out) := createpermReply t env ctx via msg hfail cp
  match err with
  | some _ => ({ al with perms := cp.perml.foldl rollbackHandler cp.perms }, out)
  | none => ({ al with perms := cp.perml.foldl (commitHandler env.now) cp.perms }, out)

/-! ## ChannelBind -/

/-- `chanbind_request` from the look-ups on -/
def chanbindBind (al : Allocation) (numb : UInt16) (peer : Sa) : Allocation × Out :=
  let (chNumb, chans) := chanNumbFind (env.now - env.tick) numb al.chans
  let (chPeer, chans) := chanPeerFind env.now peer chans
  let al := { al with chans }
  if chNumb ≠ chPeer then (al, stunEreply t env ctx via msg 400 "Channel/Peer Already Bound")
  else if chNumb.isNone ∧ env.mem 0 = false then (al, stunEreply t env ctx via msg 500 "Server Error")
  else
    let (permx, perms) := permFind env.now peer al.perms
    let al := { al with perms }
    if permx.isNone ∧ env.mem 1 = false then (al, stunEreply t env ctx via msg 500 "Server Error")
    else
      let out := stunReply t env ctx via msg []
      -- on an error the channel and the permission that were created are destroyed again
      match env.reply with
      | some _ => (al, out)
      | none =>
        let chans := match chNumb with
          | none => al.chans.append (chanCreate env.now numb peer)
          | some chan => al.chans.refresh env.now chan
        let perms := if permx.isNone then al.perms ++ [permCreate env.now peer]
          else modifyFirst (·.cmp peer) (permRefresh env.now) al.perms
        ({ al with chans, perms }, out)

def chanbindRequest (al : Allocation) : Allocation × Out :=
  match msgAttr msg .channelNumber valNum16, msgAttr msg .xorPeerAddr valXorAddr with
  | some numb, some peer =>
    if chanNumbValid numb = false then (al, stunEreply t env ctx via msg 400 "Bad Attributes")
    else if restundAddrIsBlocked peer then (al, stunEreply t env ctx via msg 403 "Forbidden")
    else if some (saAf peer) ≠ al.relAddr.map saAf then
      (al, stunEreply t env ctx via msg 443 "Peer Address Family Mismatch")
    else chanbindBind t env ctx via msg al numb peer
  | _, _ => (al, stunEreply t env ctx via msg 400 "Bad Attributes")

/-! ## Allocate and Refresh (`alloc.c`) -/

def turnDefaultLifetime : UInt32 := 600

def portTryMax : Nat := 32

def saStunaf : Option Sa → UInt8
  | none => 0
  | some sa =>
    match saAf sa with
    | .inet => 1
    | .inet6 => 2

def relayAddr (af : UInt8) : Option Sa :=
  if af = 1 then t.relAddr else if af = 2 then t.relAddr6 else none

/-- `tmr_start(&al->tmr, lifetime * 1000, ..)`; the product is a `uint32_t`. -/
def tmrStart (lifetime : UInt32) : Nat := env.jiffies + (lifetime * 1000).toNat

/-- The loop of `relay_listen`, from try `i` on: the address of the relay socket and that of the
reserved one. `even` is whether to reserve the next port, if an even port is asked for. -/
def relayListen (tries : Nat → Try) (even : Option Bool) : Nat → Nat → Except Errno (Sa × Option Sa)
  | _, 0 => .error .EADDRINUSE
  | i, n + 1 =>
    match (tries i).listen with
    | some err => .error err
    | none =>
      match (tries i).localGet with
      | .error err => .error err
      | .ok relAddr =>
        match even with
        | none => .ok (relAddr, none)
        | some r =>
          if relAddr.port &&& 1 ≠ 0 then relayListen tries even (i + 1) n
          else if r = false then .ok (relAddr, none)
          else if (tries i).reserve.isSome then relayListen tries even (i + 1) n
          else .ok (relAddr, some { relAddr with port := relAddr.port + 1 })

def allocBucket (key : UInt32) : UInt32 := key &&& (t.bsize - 1)

/-- In the bucket of the token -/
def rsvtHandler (rsvt : UInt64) (al : Allocation) : Bool :=
  allocBucket t (saHashAll al.cliAddr) = allocBucket t (rsvt >>> 32).toUInt32 ∧
    saStunaf al.rsvAddr = (rsvt >>> 24).toUInt8 ∧ saPort al.rsvAddr = rsvt.toUInt16

/-- The relay socket of a new allocation, which is not yet in the list here: `rsvt_listen` or
`relay_listen` -/
def relayOpen (s : Server) (al : Allocation) (rsvt : Option UInt64) (even : Option Bool) :
    Except Errno (Server × Allocation) :=
  match rsvt with
  | some rsvt =>
    match (s.allocs ++ [al]).find? (rsvtHandler t rsvt) with
    | none => .error .ENOENT
    | some alr =>
      let al := { al with relUs := alr.rsvUs, relAddr := alr.rsvAddr }
      let s := s.put { alr with rsvUs := none, rsvAddr := none }
      .ok ({ s with
        allocs := s.allocs ++ [al]
        socks := s.socks.map fun p => if some p.1 = al.relUs then (p.1, some al.id) else p }, al)
  | none =>
    match relayListen env.tries even 0 portTryMax with
    | .error err => .error err
    | .ok (relAddr, rsvAddr) =>
      let us := s.next + 1
      let al := { al with relUs := some us, relAddr, rsvAddr, rsvUs := rsvAddr.map fun _ => us + 1 }
      .ok ({ s with
        allocs := s.allocs ++ [al]
        socks := s.socks ++ [(us, some al.id)] ++ (al.rsvUs.map fun us => (us, none)).toList }, al)

def rsvToken (alx : Allocation) : List (Attrib × AttrVal) :=
  match alx.rsvUs with
  | none => []
  | some _ =>
    let rsv := (saHashAll via.src).toUInt64 <<< 32 ||| (saStunaf alx.rsvAddr).toUInt64 <<< 24
    [(.rsvToken, .num64 (rsv + (saPort alx.rsvAddr).toUInt64))]

/-- The response at the label `reply`; an address that is not set cannot be encoded. -/
def allocateReply (alx : Allocation) (lifetime : UInt32) : Option Errno × List Out :=
  match alx.relAddr with
  | none => (some .EAFNOSUPPORT, [])
  | some relAddr =>
    let addr := match saAf relAddr, t.publicAddr with
      | .inet, some pub => if saIsAny pub then relAddr else { pub with port := relAddr.port }
      | _, _ => relAddr
    (env.reply, [stunReply t env ctx via msg ([(.xorRelayAddr, .xorAddr addr), (.lifetime, .num32 lifetime)] ++
      rsvToken via alx ++ [(.xorMappedAddr, .xorAddr via.src)])])

def newAllocation (id : Nat) (lifetime : UInt32) : Allocation where
  id
  tmr := tmrStart env lifetime
  tid := msg.hdr.tid
  cliAddr := via.src
  srvAddr := via.dst
  cliSock := via.sock
  username := msgAttr msg .username valStr
  proto := via.proto

def allocateCreate (s : Server) (lifetime : UInt32) (rsvt : Option UInt64) (even : Option Bool) : Server × List Out :=
  if env.mem 0 = false ∨ env.mem 1 = false ∨ env.mem 2 = false then
    (s, [stunEreply t env ctx via msg 500 "Server Error"])
  else
    match relayOpen t env s (newAllocation env via msg s.next lifetime) rsvt even with
    | .error _ => (s, [stunEreply t env ctx via msg 508 "Insufficient Port Capacity"])
    | .ok (s', al) =>
      let s' := { s' with next := s.next + 3, alloccCur := s.alloccCur + 1 }
      let (err, outs) := allocateReply t env ctx via msg al lifetime
      (if err.isSome then s'.destroy al else s', outs)

def allocateRequest (s : Server) (alx : Option Allocation) : Server × List Out :=
  match alx with
  | some alx =>
    if alx.tid = msg.hdr.tid ∧ via.proto = .udp then
      (s, (allocateReply t env ctx via msg alx (UInt32.ofNat ((alx.tmr - env.jiffies) / 1000))).2)
    else (s, [stunEreply t env ctx via msg 437 "Allocation TID Mismatch"])
  | none =>
    let reqaf := msgAttr msg .reqAddrFamily valNum8
    let even := msgAttr msg .evenPort valEvenPort
    let rsvt := msgAttr msg .rsvToken valNum64
    let lifetime := (msgAttr msg .lifetime valNum32).getD turnDefaultLifetime
    if saIsset (relayAddr t (reqaf.getD 1)) = false then
      (s, [stunEreply t env ctx via msg 440 "Address Family not Supported"])
    else
      match msgAttr msg .reqTransport valNum8 with
      | none => (s, [stunEreply t env ctx via msg 400 "Requested Transport Missing"])
      | some transport =>
        if transport ≠ 17 then (s, [stunEreply t env ctx via msg 442 "Unsupported Transport Protocol"])
        else if (stunMsgAttr msg Attrib.dontFragment.code).isSome then
          (s, [stunEreply t env ctx via msg 420 "Unknown Attribute"
            [(.unknownAttr, .unknownAttr [Attrib.dontFragment.code])]])
        else if (even.isSome ∧ rsvt.isSome) ∨ (reqaf.isSome ∧ rsvt.isSome) then
          (s, [stunEreply t env ctx via msg 400 "Bad Request"])
        else allocateCreate t env ctx via msg s (min (max lifetime turnDefaultLifetime) t.lifetimeMax) rsvt even

/-- The lifetime that a Refresh request asks for; none at all is asked for to delete the
allocation. -/
def refreshLifetime : UInt32 :=
  let lifetime := (msgAttr msg .lifetime valNum32).getD turnDefaultLifetime
  min (if lifetime = 0 then 0 else max lifetime turnDefaultLifetime) t.lifetimeMax

def refreshRequest (al : Allocation) : Allocation × Out :=
  if (msgAttr msg .reqAddrFamily valNum8).any (· ≠ saStunaf al.relAddr) then
    (al, stunEreply t env ctx via msg 443 "Peer Address Family Mismatch")
  else
    let lifetime := refreshLifetime t msg
    ({ al with tmr := tmrStart env lifetime }, stunReply t env ctx via msg [(.lifetime, .num32 lifetime)])

/-! ## Handlers (`turn.c`) -/

/-- The methods, of requests and indications -/
def methodAllocate : UInt16 := 0x003
def methodRefresh : UInt16 := 0x004
def methodSend : UInt16 := 0x006
def methodCreateperm : UInt16 := 0x008
def methodChanbind : UInt16 := 0x009

/-- Whether a request has other credentials than those of the allocation -/
def wrongCredentials (al : Allocation) : Bool :=
  match al.username, ctx.key with
  | some username, some _ => (msgAttr msg .username valStr).all (cstr · ≠ cstr username)
  | _, _ => false

/-- The second `switch` of `request_handler`, for a request on an allocation -/
def allocationRequest (al : Allocation) : Allocation × Out :=
  if stunMsgMethod msg = methodRefresh then refreshRequest t env ctx via msg al
  else if stunMsgMethod msg = methodCreateperm then createpermRequest t env ctx via msg al
  else chanbindRequest t env ctx via msg al

/-- `request_handler`: whether the request is one for it -/
def turnRequestHandler (s : Server) : Bool × Server × List Out :=
  if stunMsgMethod msg ∉ [methodAllocate, methodRefresh, methodCreateperm, methodChanbind] then (false, s, [])
  else if ctx.ua ≠ [] then
    (true, s, [stunEreply t env ctx via msg 420 "Unknown Attribute" [(.unknownAttr, .unknownAttr ctx.ua)]])
  else
    match allocationFind s via with
    | none =>
      if stunMsgMethod msg ≠ methodAllocate then
        (true, s, [stunEreply t env ctx via msg 437 "Allocation Mismatch (no such allocation)"])
      else (true, allocateRequest t env ctx via msg s none)
    | some al =>
      if wrongCredentials ctx msg al then (true, s, [stunEreply t env ctx via msg 441 "Wrong Credentials"])
      else if stunMsgMethod msg = methodAllocate then (true, allocateRequest t env ctx via msg s (some al))
      else
        let (al, out) := allocationRequest t env ctx via msg al
        (true, s.put al, [out])

end

/-- The datagram for a peer of an allocation, with the permissions after the look-up -/
def relaySend (env : Env) (al : Allocation) (peer : Sa) (d : Bytes) : Allocation × List Out :=
  match permFind env.now peer al.perms with
  | (none, perms) => ({ al with perms }, [])
  | (some _, perms) =>
    ({ al with perms }, if restundAddrIsBlocked peer then [] else (al.relUs.map fun us => Out.relay us peer d).toList)

def turnIndicationHandler (env : Env) (ctx : Msgctx) (via : Via) (msg : Msg) (s : Server) :
    Bool × Server × List Out :=
  if stunMsgMethod msg ≠ methodSend then (false, s, [])
  else if ctx.ua ≠ [] then (true, s, [])
  else
    match allocationFind s via with
    | none => (true, s, [])
    | some al =>
      match msgAttr msg .xorPeerAddr valXorAddr, msgAttr msg .data valData with
      | some peer, some d =>
        let (al, outs) := relaySend env al peer d
        (true, s.put al, outs)
      | _, _ => (true, s, [])

def turnRawHandler (env : Env) (via : Via) (mb : Mbuf) (s : Server) : Bool × Server × List Out :=
  match allocationFind s via with
  | none => (false, s, [])
  | some al =>
    if mb.getLeft < 4 then (false, s, [])
    else
      match readHead mb with
      | .error _ _ => (false, s, [])
      | .ok (numb, len) mb =>
        if mb.getLeft < len.toNat then (false, s, [])
        else
          match chanNumbFind env.now numb al.chans with
          | (none, chans) => (false, s.put { al with chans }, [])
          | (some chan, chans) =>
            let mb := mb.setEnd (mb.pos + len.toNat)
            let (al', outs) := relaySend env { al with chans } chan.peer mb.left
            ((permFind env.now chan.peer al.perms).1.isSome, s.put al', outs)

def tcpMaxTxqsz : Nat := 8192

def chanPadding (proto : Proto) (len : Nat) : Nat := if proto = .tcp then (4 - len % 4) % 4 else 0

def chanMessage (proto : Proto) (numb : UInt16) (d : Bytes) : Bytes :=
  beBytes 2 numb.toNat ++ beBytes 2 (UInt16.ofNat d.length).toNat ++ d ++ List.replicate (chanPadding proto d.length) 0

/-- `udp_recv` of `alloc.c`; memory is for the padding. -/
def turnUdpRecv (env : Env) (al : Allocation) (src : Sa) (d : Bytes) : Allocation × List Out :=
  if al.proto = .tcp ∧ env.txqsz > tcpMaxTxqsz then (al, [])
  else
    match permFind env.now src al.perms with
    | (none, perms) => ({ al with perms }, [])
    | (some _, perms) =>
      let (chan, chans) := chanPeerFind env.now src al.chans
      let al := { al with perms, chans }
      match chan with
      | some chan =>
        if chanPadding al.proto d.length ≠ 0 ∧ env.mem 0 = false then (al, [])
        else (al, [.chanData al.proto al.cliSock al.cliAddr (chanMessage al.proto chan.numb d)])
      | none => (al, [.dataInd al.proto al.cliSock al.cliAddr src d])

/-- A datagram comes to a relay socket. One without a handler drops it. -/
def relayRecv (env : Env) (us : Nat) (src : Sa) (d : Bytes) (s : Server) : Server × List Out :=
  match s.socks.lookup us with
  | some (some id) =>
    match s.allocs.find? (·.id = id) with
    | none => (s, [.fault])
    | some al =>
      let (al, outs) := turnUdpRecv env al src d
      (s.put al, outs)
  | _ => (s, [])

/-- `timeout`: the timer of an allocation runs off, at its time or later. -/
def turnTimeout (env : Env) (id : Nat) (s : Server) : Server × List Out :=
  match s.allocs.find? fun al => al.id = id ∧ al.tmr ≤ env.jiffies with
  | none => (s, [])
  | some al => (s.destroy al, [])

end BareRTC.Restund
