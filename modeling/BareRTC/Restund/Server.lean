import BareRTC.Restund.Auth
import BareRTC.Restund.Turn

/-!
# The server (`restund/src/stun.c`)

`restund_process_msg` offers a message to the handlers of the modules in the order in which they
were registered. The other modules of the server (`binding`, `drain`, `stat`) have handlers for
requests only, and no part in the context.
-/

namespace BareRTC.Restund

open Sdp (Sa)
open Stun (Msg stunMsgDecode stunMsgClass)

inductive Module
  | auth
  | turn
  | other (n : Nat)
  deriving DecidableEq, Repr

/-- A module is loaded once. -/
structure Config where
  turnd : Turnd
  auth : Auth
  mods : List Module
  nodup : mods.Nodup

section
variable (cfg : Config) (env : Env) (via : Via)

def requestLoop (msg : Msg) : List Module → Msgctx → Server → Server × List Out
  | [], _, s => (s, [])
  | .auth :: mods, ctx, s =>
    match authRequestHandler cfg.auth env ctx via msg with
    | (true, _, outs) => (s, outs)
    | (false, ctx, outs) =>
      let (s, outs') := requestLoop msg mods ctx s
      (s, outs ++ outs')
  | .turn :: mods, ctx, s =>
    match turnRequestHandler cfg.turnd env ctx via msg s with
    | (true, s, outs) => (s, outs)
    | (false, s, outs) =>
      let (s, outs') := requestLoop msg mods ctx s
      (s, outs ++ outs')
  | .other n :: mods, ctx, s => if env.other n then (s, []) else requestLoop msg mods ctx s

/-- The loops over the handlers of indications and of what is not a STUN message. Only the turn
module has them. -/
def offer (handler : Server → Bool × Server × List Out) : List Module → Server → Server × List Out
  | [], s => (s, [])
  | .turn :: mods, s =>
    match handler s with
    | (true, s, outs) => (s, outs)
    | (false, s, outs) =>
      let (s, outs') := offer handler mods s
      (s, outs ++ outs')
  | _ :: mods, s => offer handler mods s

/-- `stun_msg_decode`, which fails without memory -/
def decodeMsg (mb : Mbuf) : Option (Msg × List UInt16) :=
  match env.msgMem, stunMsgDecode mb (some []) with
  | true, (.ok msg, some ua) => some (msg, ua)
  | _, _ => none

def restundProcessMsg (mb : Mbuf) (s : Server) : Server × List Out :=
  match decodeMsg env mb with
  | none => offer (turnRawHandler env via mb) cfg.mods s
  | some (msg, ua) =>
    if stunMsgClass msg = 0 then requestLoop cfg env via msg cfg.mods { ua } s
    else if stunMsgClass msg = 1 then offer (turnIndicationHandler env { ua } via msg) cfg.mods s
    else (s, [])

end

inductive Event
  | recv (env : Env) (via : Via) (mb : { mb : Mbuf // mb.Ok })
  /-- a datagram from a peer to a relay socket -/
  | peer (env : Env) (us : Nat) (src : Sa) (d : Bytes)
  /-- the timer of an allocation runs off -/
  | timer (env : Env) (id : Nat)

def Event.env : Event → Env
  | .recv env _ _ => env
  | .peer env _ _ _ => env
  | .timer env _ => env

def step (cfg : Config) (s : Server) : Event → Server × List Out
  | .recv env via mb => restundProcessMsg cfg env via mb s
  | .peer env us src d => relayRecv env us src d s
  | .timer env id => turnTimeout env id s

end BareRTC.Restund
