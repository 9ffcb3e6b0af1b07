import BareRTC.Re.Udp
import BareRTC.Stun.Ctrans

/-!
# STUN requests over a socket of the caller (`re/src/stun/ctrans.c`, `re/src/udp/udp.c`)

`stun_ctrans_request` registers a helper on a UDP socket that it is given, for the STUN instance,
and keeps no pointer to it. Several instances may use the socket, and each has a lifetime of its
own.
-/

namespace BareRTC.Stun

inductive HelperArg
  | stun (i : Nat)
  | other (n : Nat)
  deriving DecidableEq, Repr

structure World where
  insts : List (Nat × Inst) := []
  helpers : UdpSock HelperArg
  next : Nat := 0
  deriving DecidableEq, Repr

namespace World

def inst (w : World) (i : Nat) : Option Inst := w.insts.lookup i

def setInst (w : World) (i : Nat) (st : Inst) : World :=
  { w with insts := w.insts.map fun p => if p.1 = i then (i, st) else p }

def Idle (w : World) : Prop := ∀ p ∈ w.insts, ∀ ct ∈ p.2.heap, ¬ (ct.proto = .udp ∧ ct.sock)

instance (w : World) : Decidable w.Idle := by
  unfold Idle
  infer_instance

end World

/-- Whether `stun_ctrans_request` gets to the call of `udp_register_helper` -/
def Request.registers (r : Request) : Bool := r.mem && (r.key.isNone || r.memKey) && r.proto = .udp && r.dst && r.sock

inductive WorldEvent
  /-- `stun_alloc` -/
  | alloc (conf : Conf)
  /-- something happens to the transactions of an instance; `mem` is whether there is memory for a
  helper -/
  | event (i : Nat) (ev : Event) (mem : Bool)
  | free (i : Nat)

/-- The call of `udp_register_helper`; what it returns is not looked at. -/
def register (w : World) (i : Nat) (mem : Bool) : World :=
  match udpRegisterHelper mem w.helpers 5 (.stun i) with
  | .ok helpers => { w with helpers }
  | .error _ => w

/-- What an event of an instance does to the helpers -/
def registerFor (w : World) (i : Nat) (mem : Bool) : Event → World
  | .request r => if r.registers then register w i mem else w
  | _ => w

def worldStep (h : Hash) (w : World) : WorldEvent → World × List Out
  | .alloc conf => ({ w with insts := w.insts ++ [(w.next, stunAlloc conf)], next := w.next + 1 }, [])
  | .event i ev mem =>
    match w.inst i with
    | none => (w, [])
    | some st => ((registerFor w i mem ev).setInst i (step h st ev).1, (step h st ev).2)
  | .free i => ({ w with insts := w.insts.filter (·.1 ≠ i) }, [])

end BareRTC.Stun
