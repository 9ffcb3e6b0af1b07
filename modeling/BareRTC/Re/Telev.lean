import BareRTC.Lib.Run
import BareRTC.Re.Mbuf

/-!
# Telephony events (`re/src/telev/telev.c`)

The sending side. Presses and `EVENT_END` for a release share one queue of bytes, which `telev_poll`
reads in two states: an event in `IDLE`, and what ends it in `SENDING`. A call says whether there is
memory for what it writes.
-/

namespace BareRTC.Telev

def EVENT_END : UInt8 := 0xff

inductive State
  | IDLE | SENDING | ENDING
  deriving DecidableEq

/-- `struct telev`; `queue` is what is left to read in `mb`, and `endPos` its end. -/
structure Tel where
  queue : Bytes := []
  endPos : Nat := 0
  pdur : UInt16
  state : State := .IDLE
  event : UInt8 := 0
  dur : UInt16 := 0
  txc : UInt32 := 0

def payloadEncode (mem : Bool) (event : UInt8) (done : Bool) (dur : UInt16) : Except Errno Bytes :=
  if mem then .ok (event :: ((if done then 0x80 else 0) ||| 10) :: beBytes 2 dur.toNat) else .error .ENOMEM

def televSend (tel : Tel) (event : UInt8) (done mem : Bool) : Option Errno × Tel :=
  if tel.endPos ≥ 8192 then (some .EOVERFLOW, tel)
  else if mem then
    (none, { tel with queue := tel.queue ++ [if done then EVENT_END else event], endPos := tel.endPos + 1 })
  else (some .ENOMEM, tel)

/-- With the marker bit and the packet -/
def televPoll (tel : Tel) (mem : Bool) : Tel × Bool × Except Errno Bytes :=
  match tel.state, tel.queue with
  | .IDLE, [] => (tel, false, .error .ENOENT)
  | .IDLE, event :: queue =>
    ({ tel with queue, event, dur := tel.pdur, state := .SENDING, txc := 1 }, true,
      payloadEncode mem event false tel.pdur)
  | .SENDING, queue =>
    let tel := { tel with dur := tel.dur + tel.pdur, txc := tel.txc + 1 }
    (if tel.txc < 9 ∨ queue = [] then tel
      else { tel with
        queue := if queue.head? ≠ some EVENT_END then queue else queue.tail
        state := .ENDING
        txc := 0 },
      false, payloadEncode mem tel.event false tel.dur)
  | .ENDING, queue =>
    let tel := { tel with txc := tel.txc + 1 }
    (if tel.txc < 3 then tel else { tel with endPos := if queue = [] then 0 else tel.endPos, state := .IDLE },
      false, payloadEncode mem tel.event true tel.dur)

inductive Event
  | send (event : UInt8) (done mem : Bool)
  | poll (mem : Bool)
  deriving DecidableEq

def step (tel : Tel) : Event → Tel × Option Bytes
  | .send event done mem => ((televSend tel event done mem).2, none)
  | .poll mem => ((televPoll tel mem).1, (televPoll tel mem).2.2.toOption)

end BareRTC.Telev
