import BareRTC.Re.Regex

/-!
# SIP registration clients (`re/src/sipreg/reg.c`)

A client has one REGISTER request at a time. Its destructor keeps the object as long as a request is
under way, or sends another one that removes the binding. Events come in any order, and timers may
expire at any time they run, so how long they run is left out, with the fields that decide only
that. `send` and `auth` in an event are the results of `sip_drequestf` and `sip_auth_authenticate`.
The response handler of the application is called last; if it releases the client, that is the event
after it.
-/

namespace BareRTC.Sipreg

structure Loopstate where
  failc : Nat := 0
  lastScode : UInt16 := 0

/-- `sip_request_loops` (`re/src/sip/request.c`) -/
def sipRequestLoops (ls : Loopstate) (scode : UInt16) : Bool × Loopstate :=
  if scode < 200 then (false, ls)
  else if scode < 300 then (false, ⟨0, scode⟩)
  else
    let again := 400 ≤ scode && ls.lastScode = scode && scode ≠ 401 && scode ≠ 407 && scode ≠ 491
    (again || 16 ≤ ls.failc + 1, ⟨ls.failc + 1, scode⟩)

/-- What is read of a response: `contact` is the `expires` parameter of the first Contact with the
client's own URI, `outbound` says that a keepalive can be started for it. -/
structure Msg where
  scode : UInt16
  expires : Option Bytes := none
  contact : Option (Option Bytes) := none
  minExpires : Option Bytes := none
  outbound : Bool := false

inductive Out
  /-- `sip_drequestf` with a REGISTER, for a new exchange or in answer to a response -/
  | register (expires : UInt32) (new : Bool) (err : Option Errno)
  | success (bound : Bool)
  /-- the application's response handler -/
  | resp
  /-- `mem_deref` by the application -/
  | released
  | freed
  deriving DecidableEq

structure Reg where
  ls : Loopstate := {}
  tmr : Bool := false
  ka : Bool := false
  req : Bool := false
  resph : Bool
  expires : UInt32
  fbregint : UInt32 := 0
  registered : Bool := false
  terminated : Bool := false
  /-- `regid > 0` -/
  regid : Bool
  freed : Bool := false
  log : List Out := []

def request (reg : Reg) (resetLs : Bool) (send : Option Errno) : Reg :=
  let expires := if reg.terminated then 0 else reg.expires
  { reg with
    expires, ls := if resetLs then {} else reg.ls, req := send.isNone
    log := reg.log ++ [.register expires resetLs send] }

/-- The last part of `destructor` -/
def free (reg : Reg) : Reg :=
  { reg with freed := true, tmr := false, ka := false, log := reg.log ++ [.freed] }

/-- `request(reg, true)`, and the object goes if that fails. -/
def requestOrFree (reg : Reg) (send : Option Errno) : Reg :=
  if send.isNone then request reg true send else free (request reg true send)

/-- `destructor` when the application releases the object -/
def release (reg : Reg) (send : Option Errno) : Reg :=
  let reg := { reg with
    tmr := false, resph := false, terminated := true, log := reg.log ++ [.released] }
  if reg.req then reg
  else if reg.registered then requestOrFree reg send
  else free reg

def respond (reg : Reg) : Reg := if reg.resph then { reg with log := reg.log ++ [.resp] } else reg

def tmrHandler (reg : Reg) (send : Option Errno) : Reg :=
  let reg := request { reg with tmr := false } true send
  if send.isSome then respond { reg with tmr := true } else reg

def keepaliveHandler (reg : Reg) : Reg :=
  if reg.req || reg.terminated then reg else respond { reg with tmr := true }

def contactHandler (msg : Msg) : Option UInt32 :=
  msg.contact.map fun expires => ((expires <|> msg.expires).map plU32).getD 3600

/-- `response_handler` from `out` on -/
def out (reg : Reg) (msg : Option Msg) (send : Option Errno) : Reg :=
  let refused := reg.expires = 0 && msg.any fun m => 400 ≤ m.scode && m.scode < 500
  let reg := { reg with fbregint := if refused then 0 else reg.fbregint }
  if reg.terminated then
    if reg.expires ≠ 0 && reg.registered then requestOrFree reg send else free reg
  else if reg.expires = 0 && reg.fbregint = 0 then reg
  else respond { reg with tmr := true }

/-- `request(reg, false)` in `response_handler` -/
def retry (reg : Reg) (msg : Msg) (send : Option Errno) : Reg :=
  if send.isNone then request reg false send else out (request reg false send) msg send

def responseHandler (reg : Reg) (err : Option Errno) (msg : Option Msg) (auth send : Option Errno) :
    Reg :=
  match err, msg with
  | none, some msg =>
    let (loops, ls) := sipRequestLoops reg.ls msg.scode
    let reg := { reg with ls }
    if loops then out reg msg send
    else if msg.scode < 200 then reg
    else if msg.scode < 300 then
      let ka := reg.ka || reg.regid && !reg.terminated && msg.outbound
      let registered := 0 < (contactHandler msg).getD reg.expires
      out { reg with registered, ka, log := reg.log ++ [.success registered] } msg send
    else if reg.terminated && !reg.registered then out reg msg send
    else if msg.scode = 401 ∨ msg.scode = 407 then
      if auth.isNone then retry reg msg send else out reg msg send
    else
      let expires := (msg.minExpires.map plU32).getD 0
      if msg.scode = 423 ∧ expires ≠ 0 ∧ reg.expires ≠ 0 then retry { reg with expires } msg send
      else out reg msg send
  | _, msg => out reg msg send

inductive Event
  | response (err : Option Errno) (msg : Option Msg) (auth send : Option Errno)
  | tmr (send : Option Errno)
  | keepalive
  | setFbregint (fbregint : UInt32)
  | release (send : Option Errno)

def Event.final : Event → Bool
  | .response err msg _ _ => err.isSome || msg.all (200 ≤ ·.scode)
  | _ => false

def step (reg : Reg) (e : Event) : Reg :=
  if reg.freed then reg
  else match e with
    | .response err msg auth send =>
      if reg.req then responseHandler { reg with req := !e.final } err msg auth send else reg
    | .tmr send => if reg.tmr then tmrHandler reg send else reg
    | .keepalive => if reg.ka then keepaliveHandler { reg with ka := false } else reg
    | .setFbregint fbregint => if reg.terminated then reg else { reg with fbregint }
    | .release send => if reg.terminated then reg else release reg send

/-- The client that `sipreg_register` returns; it has sent the first request. -/
def sipregRegister (expires : UInt32) (regid resph : Bool) : Reg :=
  request { expires, regid, resph } true none

def run (expires : UInt32) (regid resph : Bool) (evs : List Event) : Reg :=
  evs.foldl step (sipregRegister expires regid resph)

end BareRTC.Sipreg
