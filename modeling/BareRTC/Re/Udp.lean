import BareRTC.Re.List
import BareRTC.Re.Mbuf

/-!
# UDP helpers (`re/src/udp/udp.c`)

The helpers of a socket are kept in the order of their layers. A packet to send goes through their
send handlers from the top of the stack down to the socket, a packet received through their receive
handlers upwards, until one of them stops it. `κ` says which module a helper belongs to, `σ` is what
the handlers change, the packet included.
-/

namespace BareRTC

open List

structure UdpHelper (κ : Type) where
  layer : Int
  kind : κ
  deriving DecidableEq, Repr

/-- `struct udp_sock`, its helpers. -/
abbrev UdpSock (κ : Type) := List (UdpHelper κ)

variable {κ σ : Type}

def udpRegisterHelper (mem : Bool) (us : UdpSock κ) (layer : Int) (kind : κ) :
    Except Errno (UdpSock κ) :=
  if mem = false then .error .ENOMEM
  else .ok (listSort (fun uh₁ uh₂ => uh₁.layer ≤ uh₂.layer) (us ++ [⟨layer, kind⟩]))

/-- The loop of `udp_send_internal` over the helpers below: what the handlers did, whether the
packet gets to the socket, and the error if not. A handler returns whether it stops the packet, and
an error. -/
def sendLoop (sendh : κ → σ → σ × Bool × Option Errno) : List κ → σ → σ × Bool × Option Errno
  | [], s => (s, true, none)
  | k :: ks, s =>
    let (s', hdld, err) := sendh k s
    if hdld || err.isSome then (s', false, err) else sendLoop sendh ks s'

/-- Up to the system call. -/
def udpSend (sendh : κ → σ → σ × Bool × Option Errno) (us : UdpSock κ) : σ → σ × Bool × Option Errno :=
  sendLoop sendh (us.map (·.kind)).reverse

/-- The loop of `udp_read`: whether the packet gets past all handlers. -/
def recvLoop (recvh : κ → σ → σ × Bool) : List κ → σ → σ × Bool
  | [], s => (s, true)
  | k :: ks, s =>
    let (s', hdld) := recvh k s
    if hdld then (s', false) else recvLoop recvh ks s'

/-- From the system call on. -/
def udpRead (recvh : κ → σ → σ × Bool) (us : UdpSock κ) : σ → σ × Bool := recvLoop recvh (us.map (·.kind))

section
variable {sendh : κ → σ → σ × Bool × Option Errno} {recvh : κ → σ → σ × Bool} {k : κ} {s s' : σ}

theorem sendLoop_stop {hdld : Bool} {err : Option Errno} (h : sendh k s = (s', hdld, err))
    (hstop : (hdld || err.isSome)) (ks : List κ) :
    sendLoop sendh (k :: ks) s = (s', false, err) := by
  simp only [sendLoop, h, hstop, if_true]

theorem sendLoop_pass (h : sendh k s = (s', false, none)) (ks : List κ) :
    sendLoop sendh (k :: ks) s = sendLoop sendh ks s' := by
  simp [sendLoop, h]

theorem recvLoop_stop (h : recvh k s = (s', true)) (ks : List κ) : recvLoop recvh (k :: ks) s = (s', false) := by
  simp [recvLoop, h]

theorem recvLoop_pass (h : recvh k s = (s', false)) (ks : List κ) :
    recvLoop recvh (k :: ks) s = recvLoop recvh ks s' := by
  simp [recvLoop, h]

variable {P : σ → Prop} {ks : List κ}

/-- What every handler keeps is kept by the loop. -/
theorem recvLoop_inv (hstep : ∀ k ∈ ks, ∀ s, P s → P (recvh k s).1) (h : P s) : P (recvLoop recvh ks s).1 := by
  induction ks generalizing s with
  | nil => exact h
  | cons k ks ih =>
    have hk := hstep k mem_cons_self s h
    simp only [recvLoop]
    split
    · exact hk
    · exact ih (fun k hk => hstep k (mem_cons_of_mem _ hk)) hk

end

theorem udpRegisterHelper_top {us : UdpSock κ} {layer : Int} (h : ∀ uh ∈ us, uh.layer = layer)
    (kind : κ) : udpRegisterHelper true us layer kind = .ok (us ++ [⟨layer, kind⟩]) := by
  have hall : ∀ uh ∈ us ++ [⟨layer, kind⟩], uh.layer = layer := by
    simpa [or_imp, forall_and] using h
  rw [udpRegisterHelper, if_neg (by simp), listSort_of_pairwise]
  exact pairwise_of_forall_mem_list fun a ha b hb => by simp [hall a ha, hall b hb]

end BareRTC
