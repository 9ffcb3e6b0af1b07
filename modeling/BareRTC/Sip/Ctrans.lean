import BareRTC.Re.Regex

/-!
# SIP client transactions (`re/src/sip/ctrans.c`, `transp.c`)

The transactions of a stack, in the order of the hash table, and what they did. A transaction is
known by its number, which is not used again. Events come in any order: timers that run, responses,
errors of the transport at any time after a message was given to it, and the calls of the owner.
What the layers below answer is part of an event. The response handler is the last thing a function
calls, or it is followed by steps on its own transaction only, so what it does itself comes in the
events after it.
-/

namespace BareRTC.Sip

inductive Transp
  | none | udp | tcp | tls | ws | wss | count
  deriving DecidableEq

def Transp.reliable : Transp → Bool
  | tcp | tls | ws | wss => true
  | none | udp | count => false

namespace Ctrans

inductive State
  | trying | calling | proceeding | completed
  deriving DecidableEq

/-- What a client transaction reads of `struct sip_msg` -/
structure Resp where
  scode : UInt16
  branch : Bytes
  met : Bytes
  deriving DecidableEq

structure Ct where
  id : Nat
  met : Bytes
  branch : Bytes
  tp : Transp
  invite : Bool
  state : State
  resph : Bool
  tmr : Bool := true
  tmre : Bool
  deriving DecidableEq

inductive Out
  | started (id : Nat) (met branch : Bytes)
  | sent (id : Nat)
  | ack (id : Nat)
  /-- `ct->resph` -/
  | call (id : Nat) (err : Option Errno) (msg : Option Resp)
  deriving DecidableEq

structure Table where
  cts : List Ct := []
  next : Nat := 0
  log : List Out := []
  deriving DecidableEq

/-- A call of the response handler; without one it is `dummy_handler`. -/
def Ct.respond (ct : Ct) (err : Option Errno) (msg : Option Resp) : List Out :=
  if ct.resph then [.call ct.id err msg] else []

/-! ## One transaction

A handler leaves the transaction, or nothing if it was released. -/

def terminate (ct : Ct) (err : Errno) : List Out :=
  match ct.state with
  | .trying | .calling | .proceeding => ct.respond (some err) none
  | .completed => []

def transportHandler (err : Errno) (ct : Ct) : Option Ct × List Out := (none, terminate ct err)

def tmrHandler (ct : Ct) : Option Ct × List Out := (none, terminate ct .ETIMEDOUT)

/-- With the result of `sip_transp_send` -/
def retransmitHandler (err : Option Errno) (ct : Ct) : Option Ct × List Out :=
  match ct.state, err with
  | .completed, _ => (some { ct with tmre := false }, [])
  | _, none => (some { ct with tmre := true }, [.sent ct.id])
  | _, some err => (none, terminate ct err)

def inviteResponse (msg : Resp) (ct : Ct) : Option Ct × List Out :=
  let respond := ct.respond none (some msg)
  match ct.state with
  | .calling | .proceeding =>
    let ct := if ct.state = .calling then { ct with tmr := false, tmre := false } else ct
    if msg.scode < 200 then (some { ct with state := .proceeding }, respond)
    else if msg.scode < 300 then (none, respond)
    else if ct.tp.reliable then (none, .ack ct.id :: respond)
    else (some { ct with state := .completed, tmr := true }, .ack ct.id :: respond)
  | .completed => (some ct, if msg.scode < 300 then [] else [.ack ct.id])
  | .trying => (some ct, [])

/-- On the transaction it finds -/
def responseHandler (msg : Resp) (ct : Ct) : Option Ct × List Out :=
  if ct.invite then inviteResponse msg ct
  else
    let respond := ct.respond none (some msg)
    match ct.state with
    | .trying | .proceeding =>
      if msg.scode < 200 then (some { ct with state := .proceeding }, respond)
      else if ct.tp.reliable then (none, respond)
      else (some { ct with state := .completed, tmr := true, tmre := false }, respond)
    | .calling | .completed => (some ct, [])

/-! ## All transactions -/

def Table.update (s : Table) (ct : Ct) (r : Option Ct × List Out) : Table :=
  { s with cts := s.cts.filterMap (fun c => if c.id = ct.id then r.1 else some c), log := s.log ++ r.2 }

def Table.on (s : Table) (p : Ct → Bool) (f : Ct → Option Ct × List Out) : Table :=
  match s.cts.find? p with
  | none => s
  | some ct => s.update ct (f ct)

def cmpHandler (msg : Resp) (ct : Ct) : Bool := msg.branch = ct.branch ∧ msg.met = ct.met

def sipCtransRequest (s : Table) (tp : Transp) (met branch : Bytes) (resph : Bool) (err : Option Errno) : Table :=
  match err with
  | some _ => s
  | none =>
    let invite : Bool := met = ascii "INVITE"
    let ct := {
      id := s.next, met, branch, tp, invite, resph, tmre := !tp.reliable
      state := if invite then .calling else .trying }
    { s with
      cts := s.cts ++ [ct], next := s.next + 1
      log := s.log ++ [.started s.next met branch, .sent s.next] }

/-- With the results of `request_copy` and `sip_transp_send` -/
def sipCtransCancel (s : Table) (ct : Ct) (copy send : Option Errno) : Table :=
  if !ct.invite || ct.state ≠ .proceeding then s
  else
    let s := s.update ct (some { ct with tmr := true }, [])
    if copy.isSome then s else sipCtransRequest s ct.tp (ascii "CANCEL") ct.branch false send

inductive Event
  | request (tp : Transp) (met branch : Bytes) (resph : Bool) (err : Option Errno)
  | cancel (id : Nat) (copy send : Option Errno)
  /-- `mem_deref` of the owner -/
  | release (id : Nat)
  | response (msg : Resp)
  | tmr (id : Nat)
  | tmre (id : Nat) (err : Option Errno)
  | transport (id : Nat) (err : Errno)

def step (s : Table) : Event → Table
  | .request tp met branch resph err => sipCtransRequest s tp met branch resph err
  | .cancel id copy send =>
    match s.cts.find? (·.id = id) with
    | none => s
    | some ct => sipCtransCancel s ct copy send
  | .release id => s.on (·.id = id) fun _ => (none, [])
  | .response msg => s.on (cmpHandler msg) (responseHandler msg)
  | .tmr id => s.on (fun ct => ct.id = id && ct.tmr) tmrHandler
  | .tmre id err => s.on (fun ct => ct.id = id && ct.tmre) (retransmitHandler err)
  | .transport id err => s.on (·.id = id) (transportHandler err)

def run (evs : List Event) : Table := evs.foldl step {}

end Ctrans
end BareRTC.Sip
