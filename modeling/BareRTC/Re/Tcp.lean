import BareRTC.Lib.Run
import BareRTC.Re.Mbuf

/-!
# Sending over TCP (`re/src/tcp/tcp.c`)

A connection without helpers. An event says how many bytes `send` takes, or `none` for `EAGAIN`, and
whether `fd_listen` or the memory for an entry of the queue fails.
-/

namespace BareRTC.Tcp

open List

/-- `struct tcp_conn`; an entry of the queue is what is left of it, and `sock` is what the socket
has taken. -/
structure Conn where
  sendq : List Bytes := []
  fdc : Bool := true
  txqsz : Nat := 0
  txqszMax : Nat
  sock : Bytes := []
  deriving DecidableEq

def enqueue (tc : Conn) (mb : Bytes) (fail : Option Errno) : Option Errno × Conn :=
  if tc.txqsz + mb.length > tc.txqszMax then (some .ENOSPC, tc)
  else
    match fail with
    | some err => (some err, tc)
    | none => (none, { tc with sendq := tc.sendq ++ [mb], txqsz := tc.txqsz + mb.length })

def dequeue (tc : Conn) (n : Option Nat) : Conn :=
  match tc.sendq, n with
  | mb :: q, some n =>
    { tc with
      txqsz := tc.txqsz - (mb.take n).length
      sendq := if mb.length ≤ n then q else mb.drop n :: q
      sock := tc.sock ++ mb.take n }
  | _, _ => tc

def tcpSend (tc : Conn) (mb : Bytes) (n : Option Nat) (fail : Option Errno) : Option Errno × Conn :=
  if !tc.fdc then (some .ENOTCONN, tc)
  else if mb = [] then (some .EINVAL, tc)
  else if tc.sendq ≠ [] then enqueue tc mb fail
  else
    match n with
    | none => enqueue tc mb fail
    | some n =>
      let tc := { tc with sock := tc.sock ++ mb.take n }
      if n < mb.length then enqueue tc (mb.drop n) fail else (none, tc)

inductive Event
  | send (mb : Bytes) (n : Option Nat) (fail : Option Errno)
  | writable (n : Option Nat)

/-- With the buffer of a call that returned 0 -/
def step (tc : Conn) : Event → Conn × Bytes
  | .send mb n fail =>
    let (err, tc) := tcpSend tc mb n fail
    (tc, if err = none then mb else [])
  | .writable n => (dequeue tc n, [])

end BareRTC.Tcp
