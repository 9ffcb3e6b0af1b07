import Mathlib.Logic.Function.Basic
import BareRTC.Ice.Check

/-!
# Two agents

Two media objects that have each other's credentials, and the messages between them. A request stays
on its way until it arrives, at any component of the other agent and from any address, and so does
its answer: messages come in any order and none is lost. A transaction that is not answered may send
its request again.
-/

namespace BareRTC.Ice

open Sdp (Sa)

/-- The two agents, the requests of each that are on their way, and the answers on their way back to
it; `processed` is the number of requests that have arrived. -/
structure Net where
  agent : Bool → Icem
  reqs : Bool → List Request
  resps : Bool → List (Nat × Resp)
  processed : Nat

def Net.init (agent : Bool → Icem) : Net := ⟨agent, fun _ => [], fun _ => [], 0⟩

/-- A request as the other agent reads it: its user name, password and fingerprint are right. -/
def Request.bindReq (r : Request) : BindReq :=
  { auth := .ok
    controlled := if r.role = .controlled then some r.tiebrk else none
    controlling := if r.role = .controlling then some r.tiebrk else none
    priority := some r.prio
    useCand := r.useCand }

def Reply.resp : Reply → Option Resp
  | .none => .none
  | .success mapped => some ⟨.none, 0, some mapped⟩
  | .error scode => some ⟨.none, scode, .none⟩

def Net.setReqs (net : Net) (b : Bool) (reqs : List Request) : Net :=
  { net with reqs := Function.update net.reqs b reqs }

def Net.setResps (net : Net) (b : Bool) (resps : List (Nat × Resp)) : Net :=
  { net with resps := Function.update net.resps b resps }

/-- An agent has done something: the requests it sent are on their way. -/
def Net.act (net : Net) (b : Bool) (icem : Icem) : Net :=
  { net.setReqs b (net.reqs b ++ icem.tx.drop (net.agent b).tx.length) with
    agent := Function.update net.agent b icem }

inductive Ev
  | call (b : Bool) (op : Op)
  | request (b : Bool) (i : Nat) (compid : UInt32) (src : Sa)
  | response (b : Bool) (i : Nat)
  | resend (b : Bool) (tid : Nat)

/-- A request arrives at a component of the other agent, which answers it. -/
def Net.request (env : Bool → Env) (net : Net) (b : Bool) (i : Nat) (compid : UInt32) (src : Sa) : Net :=
  match (net.reqs b)[i]? with
  | none => net
  | some r =>
    if (icemCompFind (net.agent !b) compid).isNone then net
    else
      let (icem, reply) := (net.agent !b).step (env !b) (.recv compid src r.bindReq)
      let net := net.setReqs b ((net.reqs b).eraseIdx i)
      let net := net.setResps b (net.resps b ++ (reply.resp.map (r.tid, ·)).toList)
      { net.act (!b) icem with processed := net.processed + 1 }

def Net.response (env : Bool → Env) (net : Net) (b : Bool) (i : Nat) : Net :=
  match (net.resps b)[i]? with
  | none => net
  | some (tid, resp) =>
    let icem := ((net.agent b).step (env b) (.resp tid resp)).1
    (net.setResps b ((net.resps b).eraseIdx i)).act b icem

/-- `timeout` of a transaction: its request is sent again. -/
def Net.resend (net : Net) (b : Bool) (tid : Nat) : Net :=
  if (transaction (net.agent b) tid).isSome then
    net.setReqs b (net.reqs b ++ ((net.agent b).tx.find? (·.tid = tid)).toList)
  else net

/-- What is done. The user adds components and candidates and starts the checks, and the timer
fires; the role was set before. -/
def Net.step (env : Bool → Env) (net : Net) : Ev → Net × Unit
  | .call b op =>
    (match op with
      | .setRole _ | .lite | .resp .. | .recv .. | .stop _ | .update => net
      | op => net.act b ((net.agent b).step (env b) op).1, ())
  | .request b i compid src => (net.request env b i compid src, ())
  | .response b i => (net.response env b i, ())
  | .resend b tid => (net.resend b tid, ())

def Net.Quiescent (net : Net) : Prop := ∀ b, net.reqs b = [] ∧ net.resps b = []

instance (net : Net) : Decidable net.Quiescent := inferInstanceAs (Decidable (∀ _, _))

end BareRTC.Ice
