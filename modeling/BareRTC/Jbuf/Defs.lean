import BareRTC.Re.RtpHdr

/-!
# The jitter buffer (`re/src/jbuf/jbuf.c`)

Frames are allocated once, with the buffer, and are then moved between the pool and the list of
buffered frames, which is sorted by sequence number. A frame has an address, `id`, that stays with
it.

`void *mem` is of any type; `NULL` is `none`. The statistics are compiled in (`JBUF_STAT`). Signed
arithmetic of the jitter computation wraps. `tmr_jiffies()` is an argument. A call returns what it
returns in C and the buffer after it, or nothing where it reads through `NULL`.
-/

namespace BareRTC.Jbuf

def seqLess (x y : UInt16) : Bool := (x - y).toInt16 < 0

structure Frame (μ : Type) where
  id : Nat
  hdr : RtpHeader
  mem : Option μ

def Frame.seq {μ : Type} (f : Frame μ) : UInt16 := f.hdr.seq

inductive JbState
  | GOOD | EMPTY | LOW | HIGH
  deriving DecidableEq, Repr

structure JitterStat where
  jitter : Int32
  ts0 : UInt32
  tr0 : UInt64
  st : JbState
  avbuftime : Int32
  jtime : Int32
  mintime : Int32
  deriving DecidableEq, Repr

structure Stat where
  nPut : UInt32
  nGet : UInt32
  nOos : UInt32
  nDups : UInt32
  nLate : UInt32
  nLost : UInt32
  nOverflow : UInt32
  nUnderflow : UInt32
  nFlush : UInt32
  deriving DecidableEq, Repr

inductive JbufType
  | OFF | FIXED | ADAPTIVE
  deriving DecidableEq, Repr

end Jbuf

open Jbuf in
structure Jbuf (μ : Type) where
  pooll : List (Frame μ)
  framel : List (Frame μ)
  n : UInt32
  min : UInt32
  max : UInt32
  wish : UInt32
  ptime : UInt32
  seqPut : UInt16
  seqGet : UInt16
  ssrc : UInt32
  started : Bool
  running : Bool
  silence : Bool
  jitst : JitterStat
  jbtype : JbufType
  stat : Stat

namespace Jbuf

variable {μ : Type}

def JITTER_PERIOD : Int32 := 512
def JITTER_UP_SPEED : Int32 := 64
def BUFTIME_PERIOD : Int32 := 128
def LO_BOUND : Int32 := 125
def HI_BOUND : Int32 := 200

def Stat.zero : Stat := ⟨0, 0, 0, 0, 0, 0, 0, 0, 0⟩

def JitterStat.zero : JitterStat := ⟨0, 0, 0, .GOOD, 0, 0, 0⟩

/-- `STAT_INC` and `STAT_ADD` -/
def onStat (f : Stat → Stat) (jb : Jbuf μ) : Jbuf μ := { jb with stat := f jb.stat }

/-- A frame from the pool, or else an old frame. -/
def frameAlloc (jb : Jbuf μ) : Option (Frame μ × Jbuf μ) :=
  match jb.pooll, jb.framel with
  | f :: pooll, _ => some (f, { jb with pooll, n := jb.n + 1 })
  | [], f0 :: framel =>
    some ({ f0 with mem := none }, onStat (fun s => { s with nOverflow := s.nOverflow + 1 }) { jb with framel })
  | [], [] => none

def frameDeref (f : Frame μ) (jb : Jbuf μ) : Jbuf μ :=
  { jb with pooll := jb.pooll ++ [{ f with mem := none }], n := jb.n - 1 }

def calcPtime (jb : Jbuf μ) : UInt32 :=
  match jb.framel.reverse with
  | ft :: ftt :: _ =>
    -- the difference is an `int`
    if ftt.seq < ft.seq then (ft.hdr.ts - ftt.hdr.ts) / (8 * (ft.seq - ftt.seq).toUInt32) else jb.ptime
  | _ => jb.ptime

def initJitst (jb : Jbuf μ) : Jbuf μ :=
  let ptime := calcPtime jb
  let jtime := ptime.toInt32 * JITTER_PERIOD
  let avbuftime := (jb.wish * jtime.toUInt32).toInt32
  { jb with
    ptime
    jitst := { JitterStat.zero with
      jtime, avbuftime
      jitter := avbuftime * 100 * 2 / (LO_BOUND + HI_BOUND)
      mintime := (jb.min * jtime.toUInt32 - (jtime / 3).toUInt32).toInt32 } }

def Frame.zero (id : Nat) : Frame μ := ⟨id, ⟨0, false, false, 0, false, 0, 0, 0, 0, [], 0, 0⟩, none⟩

def jbufAlloc (min max : UInt32) : Except Errno (Jbuf μ) :=
  if min > max then .error .EINVAL
  else .ok {
    pooll := (List.range max.toNat).map Frame.zero
    framel := []
    n := 0, min, max, wish := 0, ptime := 20
    seqPut := 0, seqGet := 0, ssrc := 0
    started := false, running := false, silence := true
    jitst := .zero, jbtype := .FIXED, stat := .zero }

def jbufSetType (jbtype : JbufType) (jb : Jbuf μ) : Jbuf μ :=
  if jbtype = .ADAPTIVE then
    let min := Max.max jb.min 1
    let max := Max.max (Max.max jb.max (min + 3)) (min * HI_BOUND.toUInt32 / LO_BOUND.toUInt32)
    { jb with jbtype, min, max, wish := Max.max min (Min.min (max - 1) jb.wish) }
  else { jb with jbtype }

def jbufSetWish (wish : UInt32) (jb : Jbuf μ) : Jbuf μ := { jb with wish := Max.max jb.min (Min.min (jb.max - 1) wish) }

/-- It also sets `ptime`. -/
def calcBufftime (jb : Jbuf μ) : UInt32 × Jbuf μ :=
  let jb := { jb with ptime := calcPtime jb }
  match jb.framel.head?, jb.framel.getLast? with
  | some fh, some ft => (if jb.n ≠ 0 then (ft.hdr.ts - fh.hdr.ts) / 8 + jb.ptime else jb.ptime, jb)
  | _, _ => (jb.ptime, jb)

def JitterStat.update (st : JitterStat) (buftime : Int32) (ts : UInt32) (tr : UInt64)
    (n min max : UInt32) : JitterStat :=
  let d := (tr.toInt64 - st.tr0.toInt64 - (ts.toUInt64.toInt64 - st.ts0.toUInt64.toInt64) / 8).toInt32
  let da := d.abs * JITTER_PERIOD
  let s := if da > st.jitter then JITTER_UP_SPEED else 1
  let jitter := Max.max (st.jitter + (da - st.jitter) * s / JITTER_PERIOD) 0
  let avbuftime := if st.avbuftime ≠ 0 then st.avbuftime + (buftime - st.avbuftime) / BUFTIME_PERIOD
    else buftime
  let bufmin := Max.max (jitter * LO_BOUND / 100) st.mintime
  let bufmax := Max.max (jitter * HI_BOUND / 100) (bufmin + 4 * st.jtime / 3)
  let st := { st with jitter, avbuftime }
  if n < max ∧ avbuftime < bufmin then
    -- early adjustment
    { st with avbuftime := avbuftime + st.jtime, st := .LOW }
  else if n > min ∧ avbuftime > bufmax then { st with st := .HIGH }
  else { st with st := .GOOD }

def jitterCalc (ts : UInt32) (tr : UInt64) (jb : Jbuf μ) : Jbuf μ :=
  let jb :=
    if jb.jitst.ts0 = 0 then jb
    else
      let (buftime, jb) := calcBufftime jb
      { jb with jitst := jb.jitst.update (buftime * JITTER_PERIOD.toUInt32).toInt32 ts tr jb.n jb.min jb.max }
  { jb with jitst := { jb.jitst with ts0 := ts, tr0 := tr } }

def jbufFlush (jb : Jbuf μ) : Jbuf μ :=
  let jb' := jb.framel.foldl (fun jb f => frameDeref f jb) jb
  { initJitst { jb' with framel := [], n := 0, running := false, seqGet := 0
                         stat := { Stat.zero with nFlush := jb.stat.nFlush + 1 } }
    with started := false }

/-- The loop for a frame that is out of sequence, over the frames from the last to the first; `none`
for a duplicate. -/
def insertRev (f : Frame μ) : List (Frame μ) → Option (List (Frame μ))
  -- no earlier timestamps found, put in head
  | [] => some [f]
  | g :: gs =>
    if seqLess g.seq f.seq then some (f :: g :: gs)
    else if f.seq = g.seq then none
    else (insertRev f gs).map (g :: ·)

def late (seq : UInt16) (jb : Jbuf μ) : Bool := jb.running && jb.seqGet != 0 && seqLess seq (jb.seqGet + 1)

def success (hdr : RtpHeader) (now : UInt64) (jb : Jbuf μ) : Jbuf μ :=
  let jb := { jb with running := true, seqPut := hdr.seq }
  if jb.jbtype = .ADAPTIVE ∧ jb.started then jitterCalc hdr.ts now jb else jb

/-- The frame `f`, which is allocated, gets its place. -/
def place (hdr : RtpHeader) (mem : Option μ) (now : UInt64) (f : Frame μ) (jb : Jbuf μ) :
    Except Errno Unit × Jbuf μ :=
  let f' : Frame μ := { f with hdr, mem }
  match jb.framel.getLast? with
  | none => (.ok (), success hdr now { jb with framel := [f'] })
  | some tail =>
    if seqLess tail.seq hdr.seq then (.ok (), success hdr now { jb with framel := jb.framel ++ [f'] })
    else match insertRev f' jb.framel.reverse with
      -- Detect duplicates
      | none => (.error .EALREADY, frameDeref f (onStat (fun s => { s with nDups := s.nDups + 1 }) jb))
      | some l => (.ok (), success hdr now
          (onStat (fun s => { s with nOos := s.nOos + 1 }) { jb with framel := l.reverse }))

def ssrcChanged (hdr : RtpHeader) (jb : Jbuf μ) : Bool := jb.ssrc != 0 && jb.ssrc != hdr.ssrc

def jbufPut (hdr : RtpHeader) (mem : Option μ) (now : UInt64) (jb : Jbuf μ) :
    Option (Except Errno Unit × Jbuf μ) :=
  let jb := { (if ssrcChanged hdr jb then jbufFlush jb else jb) with ssrc := hdr.ssrc }
  if late hdr.seq jb then
    some (.error .ETIMEDOUT, onStat (fun s => { s with nLate := s.nLate + 1 }) jb)
  else
    (frameAlloc (onStat (fun s => { s with nPut := s.nPut + 1 }) jb)).map fun (f, jb) =>
      place hdr mem now f jb

def jbufSilence (on : Bool) (jb : Jbuf μ) : Jbuf μ := { jb with silence := on }

/-- Whether `jbuf_get` goes on to take a frame, and the buffer then. -/
def ready (jb : Jbuf μ) : Bool × Jbuf μ :=
  match jb.jbtype with
  | .ADAPTIVE =>
    let raised (jb : Jbuf μ) := jb.silence && jb.n < jb.max - 1 && jb.jitst.st == .LOW
    if !jb.started then
      if jb.n < jb.wish then (false, jb)
      else
        let jb := initJitst { jb with started := true }
        (!raised jb, jb)
    else if jb.framel.isEmpty then
      (false, onStat (fun s => { s with nUnderflow := s.nUnderflow + 1 })
        { jb with jitst := { jb.jitst with st := .EMPTY } })
    else (!raised jb, jb)
  | _ =>
    if jb.n ≤ jb.min ∨ jb.framel.isEmpty then
      (false, onStat (fun s => { s with nUnderflow := s.nUnderflow + 1 }) jb)
    else (true, jb)

/-- `n_lost`, from the frame played before. -/
def countLost (f : Frame μ) (jb : Jbuf μ) : Jbuf μ :=
  if jb.seqGet ≠ 0 ∧ ¬ seqLess f.seq jb.seqGet ∧ (f.seq - jb.seqGet).toInt16 > 1 then
    onStat (fun s => { s with nLost := s.nLost + 1 }) jb
  else jb

/-- The buffer is reduced, and `jbuf_get` returns `EAGAIN`. -/
def reduces (jb : Jbuf μ) : Bool := jb.jbtype = .ADAPTIVE ∧ (jb.n > jb.min ∧ jb.jitst.st = .HIGH ∨ jb.n = jb.max)

structure Got (μ : Type) where
  hdr : RtpHeader
  mem : Option μ
  again : Bool

def jbufGet (jb : Jbuf μ) : Option (Except Errno (Got μ) × Jbuf μ) :=
  match ready (onStat (fun s => { s with nGet := s.nGet + 1 }) jb) with
  | (false, jb) => some (.error .ENOENT, jb)
  | (true, jb) =>
    match jb.framel with
    | [] => none
    | f :: framel =>
      let jb := frameDeref f { countLost f jb with seqGet := f.seq, framel }
      if reduces jb then
        some (.ok ⟨f.hdr, f.mem, true⟩, { jb with jitst := { jb.jitst with
          -- early adjustment
          avbuftime := jb.jitst.avbuftime - jb.jitst.jtime, st := .GOOD } })
      else some (.ok ⟨f.hdr, f.mem, false⟩, jb)

end Jbuf

end BareRTC
