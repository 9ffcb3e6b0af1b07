import BareRTC.Lib.Run
import BareRTC.Rtp.Rtcp
import BareRTC.Sdp.Defs

/-!
# RTCP sessions (`re/src/rtp/sess.c`, `member.c`, `source.c`, `ntp.c`)

The members of a session in the order in which they came. The clocks and whether an allocation
succeeds are inputs of a step: `now` is `tmr_jiffies()`, `ntp` what `ntp_time_get` gives.
-/

namespace BareRTC.Rtcp

open Sdp (Sa)

structure NtpTime where
  hi : UInt32
  lo : UInt32
  deriving DecidableEq, Repr

def ntpCompact (ntp : NtpTime) : UInt32 := (ntp.hi &&& 0xffff) <<< 16 ||| ntp.lo >>> 16

def ntpCompact2us (ntpc : UInt32) : UInt64 :=
  let hi := (ntpc >>> 16) &&& 0xffff
  let lo := (ntpc &&& 0xffff) <<< 16
  (1000000 : UInt64) * hi.toUInt64 + ((1000000 : UInt64) * lo.toUInt64) >>> 32

/-! ## Sources -/

structure Source where
  rtpPeer : Sa
  maxSeq : UInt16 := 0
  cycles : UInt32 := 0
  baseSeq : UInt32 := 0
  badSeq : UInt32 := 0
  probation : UInt32 := 0
  received : UInt32 := 0
  expectedPrior : UInt32 := 0
  receivedPrior : UInt32 := 0
  transit : Int32 := 0
  jitter : UInt32 := 0
  rtpRxBytes : UInt64 := 0
  srRecv : UInt64 := 0
  lastSr : NtpTime := ⟨0, 0⟩
  rtpTs : UInt32 := 0
  psent : UInt32 := 0
  osent : UInt32 := 0
  deriving DecidableEq, Repr

def sourceInitSeq (s : Source) (seq : UInt16) : Source :=
  { s with
    baseSeq := seq.toUInt32, maxSeq := seq, badSeq := 65537, cycles := 0, received := 0, receivedPrior := 0,
    expectedPrior := 0 }

/-- The returned flag is only reported. -/
def sourceUpdateSeq (s : Source) (seq : UInt16) : Source :=
  let udelta := seq - s.maxSeq
  if s.probation ≠ 0 then
    -- packet is in sequence
    if seq.toNat = s.maxSeq.toNat + 1 then
      let s := { s with probation := s.probation - 1, maxSeq := seq }
      if s.probation = 0 then
        let s := sourceInitSeq s seq
        { s with received := s.received + 1 }
      else s
    else { s with probation := 1, maxSeq := seq }
  else if udelta.toNat < 3000 then
    -- in order, with permissible gap; a smaller number has wrapped
    { s with
      cycles := if seq < s.maxSeq then s.cycles + 65536 else s.cycles, maxSeq := seq, received := s.received + 1 }
  else if udelta.toNat ≤ 65536 - 100 then
    -- the sequence number made a very large jump
    if seq.toUInt32 = s.badSeq then
      let s := sourceInitSeq s seq
      { s with received := s.received + 1 }
    else { s with badSeq := (seq.toUInt32 + 1) &&& 65535 }
  else
    -- duplicate or reordered packet
    { s with received := s.received + 1 }

def sourceCalcJitter (s : Source) (rtpTs arrival : UInt32) : Source :=
  let transit := (arrival - rtpTs).toInt32
  let d := transit - s.transit
  if s.transit = 0 then { s with transit }
  else
    let d := if d < 0 then -d else d
    { s with transit, jitter := s.jitter + (d.toUInt32 - (s.jitter + 8) >>> 4) }

/-- The packets that were expected, `extended_max - base_seq + 1`. -/
def expected (s : Source) : UInt32 := s.cycles + s.maxSeq.toUInt32 - s.baseSeq + 1

def sourceCalcLost (s : Source) : Int32 :=
  let lost := (expected s - s.received).toInt32
  if lost > 0x7fffff then 0x7fffff else if lost < -0x7fffff then -0x7fffff else lost

def sourceCalcFractionLost (s : Source) : UInt8 × Source :=
  let expectedInterval := (expected s - s.expectedPrior).toInt32
  let receivedInterval := (s.received - s.receivedPrior).toInt32
  let lostInterval := expectedInterval - receivedInterval
  let fraction : UInt8 :=
    if expectedInterval = 0 ∨ lostInterval ≤ 0 then 0 else ((lostInterval <<< 8) / expectedInterval).toUInt32.toUInt8
  (fraction, { s with expectedPrior := expected s, receivedPrior := s.received })

/-! ## Sessions -/

structure Member where
  src : UInt32
  s : Option Source := none
  cumLost : Int32 := 0
  jit : UInt32 := 0
  rtt : UInt32 := 0
  deriving DecidableEq, Repr

structure TxStat where
  psent : UInt32 := 0
  osent : UInt32 := 0
  jfsRef : UInt64 := 0
  tsRef : UInt32 := 0
  tsSynced : Bool := false
  deriving DecidableEq, Repr

/-- `struct rtcp_sess`, with the SSRC of its RTP socket -/
structure Sess where
  ssrc : UInt32
  members : List Member := []
  memberc : UInt32 := 0
  senderc : UInt32 := 0
  srateTx : UInt32 := 0
  srateRx : UInt32 := 0
  txstat : TxStat := {}
  deriving DecidableEq, Repr

/-- Also the number of buckets of the member table -/
def maxMembers : Nat := 8

def rtcpSessAlloc (ssrc : UInt32) : Sess := { ssrc }

def memberFind (members : List Member) (src : UInt32) : Option Member := members.find? (·.src = src)

def updateMember (sess : Sess) (src : UInt32) (f : Member → Member) : Sess :=
  { sess with members := sess.members.map fun m => if m.src = src then f m else m }

/-- The member is then in the table. `mem` is whether there is memory for a new one. -/
def getMember (sess : Sess) (src : UInt32) (mem : Bool) : Option Sess :=
  if (memberFind sess.members src).isSome then some sess
  else if sess.memberc.toNat ≥ maxMembers then none
  else if mem then some { sess with members := sess.members ++ [{ src }], memberc := sess.memberc + 1 }
  else none

def calcRtt (rtt : UInt32) (ntp : Option NtpTime) (lsr dlsr : UInt32) : UInt32 :=
  match ntp with
  | none => rtt
  | some ntp =>
    let diff := (ntpCompact2us (ntpCompact ntp) - ntpCompact2us lsr - 1000000 * dlsr.toUInt64 / 65536).toUInt32.toInt32
    if diff > 0 then diff.toUInt32 else 0

def handleRrBlock (srateTx : UInt32) (ntp : Option NtpTime) (mbr : Member) (rr : Rr) : Member :=
  { mbr with
    cumLost := Int32.ofInt rr.lost.toInt
    jit := if srateTx ≠ 0 then 1000000 * rr.jitter / srateTx else mbr.jit
    rtt := if rr.lsr ≠ 0 ∧ rr.dlsr ≠ 0 then calcRtt mbr.rtt ntp rr.lsr rr.dlsr else mbr.rtt }

def handleIncomingRr (sess : Sess) (count : Nat) (ssrc : UInt32) (rrv : List Rr) (ntp : Option NtpTime) (mem : Bool) :
    Sess :=
  match getMember sess ssrc mem with
  | none => sess
  | some sess => updateMember sess ssrc fun mbr => (rrv.take count).foldl (handleRrBlock sess.srateTx ntp) mbr

def handleIncomingSr (sess : Sess) (count : Nat) (ssrc ntpSec ntpFrac rtpTs psent osent : UInt32) (rrv : List Rr)
    (now : UInt64) (ntp : Option NtpTime) (mem : Bool) : Sess :=
  match getMember sess ssrc mem with
  | none => sess
  | some sess =>
    updateMember sess ssrc fun mbr =>
      -- Save time when SR was received, and what it says about the source
      let s := mbr.s.map fun s => { s with srRecv := now, lastSr := ⟨ntpSec, ntpFrac⟩, rtpTs, psent, osent }
      (rrv.take count).foldl (handleRrBlock sess.srateTx ntp) { mbr with s }

/-- One turn of the loop of `handle_incoming_bye` -/
def byeSource (sess : Sess) (src : UInt32) : Sess :=
  match memberFind sess.members src with
  | none => sess
  | some mbr =>
    { sess with
      senderc := if mbr.s.isSome then sess.senderc - 1 else sess.senderc
      memberc := sess.memberc - 1
      members := sess.members.eraseP (·.src = src) }

def handleIncomingBye (sess : Sess) (count : Nat) (srcv : List UInt32) : Sess := (srcv.take count).foldl byeSource sess

def rtcpHandler (sess : Sess) (msg : Msg) (now : UInt64) (ntp : Option NtpTime) (mem : Bool) : Sess :=
  let count := msg.hdr.count.toNat
  match msg.r with
  | .sr ssrc ntpSec ntpFrac rtpTs psent osent rrv =>
    handleIncomingSr sess count ssrc ntpSec ntpFrac rtpTs psent osent rrv now ntp mem
  | .rr ssrc rrv => handleIncomingRr sess count ssrc rrv ntp mem
  | .bye srcv _ => handleIncomingBye sess count srcv
  | _ => sess

def rtcpSessTxRtp (sess : Sess) (ts : UInt32) (payloadSize : UInt64) (now : UInt64) : Sess :=
  let tx := sess.txstat
  let tx := { tx with osent := tx.osent + payloadSize.toUInt32, psent := tx.psent + 1 }
  { sess with txstat := if tx.tsSynced then tx else { tx with jfsRef := now, tsRef := ts, tsSynced := true } }

/-- The end of `rtcp_sess_rx_rtp`, for a member that has a source -/
def receiveSeq (srateRx : UInt32) (seq : UInt16) (ts : UInt32) (payloadSize now : UInt64) (s : Source) : Source :=
  let s := sourceUpdateSeq s seq
  let s := if srateRx ≠ 0 then
      -- Convert from wall-clock time to timestamp units
      sourceCalcJitter s ts (now * srateRx.toUInt64 / 1000).toUInt32
    else s
  { s with rtpRxBytes := s.rtpRxBytes + payloadSize }

/-- `mem` and `memSource` are whether there is memory for a new member and a new source. -/
def rtcpSessRxRtp (sess : Sess) (seq : UInt16) (ts ssrc : UInt32) (payloadSize : UInt64) (peer : Sa) (now : UInt64)
    (mem memSource : Bool) : Sess :=
  match getMember sess ssrc mem with
  | none => sess
  | some sess =>
    match (memberFind sess.members ssrc).bind (·.s) with
    | some s =>
      updateMember sess ssrc fun mbr => { mbr with s := some (receiveSeq sess.srateRx seq ts payloadSize now s) }
    | none =>
      if memSource then
        -- first packet - init sequence number
        let s := sourceInitSeq { rtpPeer := peer } seq
        let sess := { sess with senderc := sess.senderc + 1 }
        updateMember sess ssrc fun mbr => { mbr with s := some (receiveSeq sess.srateRx seq ts payloadSize now s) }
      else sess

/-! ## Sender reports -/

def calcLsr (lastSr : NtpTime) : UInt32 := if lastSr.hi ≠ 0 then ntpCompact lastSr else 0

def calcDlsr (srRecv now : UInt64) : UInt32 := if srRecv ≠ 0 then (65536 * (now - srRecv) / 1000).toUInt32 else 0

def reportBlock (now : UInt64) (src : UInt32) (s : Source) : Rr where
  ssrc := src
  fraction := (sourceCalcFractionLost s).1
  lost := BitVec.ofInt 24 (sourceCalcLost s).toInt
  lastSeq := s.cycles ||| s.maxSeq.toUInt32
  jitter := s.jitter >>> 4
  lsr := calcLsr s.lastSr
  dlsr := calcDlsr s.srRecv now

/-- The buckets of the member table one after the other, each in the order in which its members
came -/
def hashApply (members : List Member) : List Member :=
  (List.range maxMembers).flatMap fun i => members.filter fun mbr => mbr.src.toNat % maxMembers = i

def encodeHandler (now : UInt64) (members : List Member) (mb : Mbuf) : Option Errno × Mbuf :=
  (none, (hashApply members).foldl (fun mb mbr =>
    match mbr.s with
    | none => mb
    | some s => rtcpRrEncode (reportBlock now mbr.src s) mb) mb)

/-- The encode handler also moves the intervals of the sources on. -/
def mkSr (sess : Sess) (ntp : Except Errno NtpTime) (now : UInt64) (mb : Mbuf) : (Option Errno × Mbuf) × Sess :=
  match ntp with
  | .error err => ((some err, mb), sess)
  | .ok ntp =>
    let tx := sess.txstat
    let rtpTs :=
      if tx.jfsRef ≠ 0 then tx.tsRef + (now - tx.jfsRef).toUInt32 * sess.srateTx / 1000 else 0
    (rtcpEncode sess.senderc
        (.sr sess.ssrc ntp.hi ntp.lo rtpTs tx.psent tx.osent (some (encodeHandler now sess.members))) mb,
      { sess with
        txstat := { tx with tsSynced := false }
        members := sess.members.map fun mbr => { mbr with s := mbr.s.map fun s => (sourceCalcFractionLost s).2 } })

/-! ## The session as a machine -/

inductive Event
  /-- an RTP packet was received -/
  | rxRtp (seq : UInt16) (ts ssrc : UInt32) (payloadSize : UInt64) (peer : Sa) (now : UInt64) (mem memSource : Bool)
  /-- an RTCP packet was received -/
  | rtcp (msg : Msg) (now : UInt64) (ntp : Option NtpTime) (mem : Bool)
  /-- an RTP packet was sent -/
  | txRtp (ts : UInt32) (payloadSize now : UInt64)
  /-- `rtcp_set_srate` -/
  | setSrate (srateTx srateRx : UInt32)
  /-- a sender report is written to a buffer -/
  | report (ntp : Except Errno NtpTime) (now : UInt64) (mb : Mbuf)

structure Report where
  start : Nat
  mb : Mbuf

def step (sess : Sess) : Event → Sess × Option Report
  | .rxRtp seq ts ssrc payloadSize peer now mem memSource =>
    (rtcpSessRxRtp sess seq ts ssrc payloadSize peer now mem memSource, none)
  | .rtcp msg now ntp mem => (rtcpHandler sess msg now ntp mem, none)
  | .txRtp ts payloadSize now => (rtcpSessTxRtp sess ts payloadSize now, none)
  | .setSrate srateTx srateRx => ({ sess with srateTx, srateRx }, none)
  | .report ntp now mb =>
    match mkSr sess ntp now mb with
    | ((none, mb'), sess) => (sess, some ⟨mb.pos, mb'⟩)
    | ((some _, _), sess) => (sess, none)

end BareRTC.Rtcp
