import BareRTC.Re.Mbuf

/-!
# The audio buffer (`rem/src/aubuf/aubuf.c`)

A frame is an `mbuf` that nobody else reads or writes once it is appended: its bytes from there on,
and how many of them are read. Sizes are natural numbers, `mem` is whether there is memory. Besides
what it returns, a call says which unread bytes of whole frames it drops.
-/

namespace BareRTC.Rem

structure Auframe where
  mb : Bytes
  pos : Nat
  deriving DecidableEq, Repr

def Auframe.left (af : Auframe) : Bytes := af.mb.drop af.pos

structure Aubuf where
  afl : List Auframe
  wishSz : Nat
  curSz : Nat
  maxSz : Nat
  filling : Bool
  deriving DecidableEq, Repr

/-- With the error of `mem_zalloc` or `lock_alloc` -/
def aubufAlloc (err : Option Errno) (minSz maxSz : Nat) : Except Errno Aubuf :=
  if minSz = 0 then .error .EINVAL
  else match err with
    | some err => .error err
    | none => .ok ⟨[], minSz, 0, maxSz, true⟩

def aubufAppend (mem : Bool) (mb : Bytes) (ab : Aubuf) : Option Errno × Aubuf × List Bytes :=
  if mem = false then (some .ENOMEM, ab, [])
  else
    let ab := { ab with afl := ab.afl ++ [⟨mb, 0⟩], curSz := ab.curSz + mb.length }
    if ab.maxSz ≠ 0 ∧ ab.curSz > ab.maxSz then
      match ab.afl with
      | [] => (none, ab, [])
      | af :: afl => (none, { ab with afl, curSz := ab.curSz - af.left.length }, [af.left])
    else (none, ab, [])

def aubufWrite (memMb mem : Bool) (p : Bytes) (ab : Aubuf) : Option Errno × Aubuf × List Bytes :=
  if memMb = false then (some .ENOMEM, ab, []) else aubufAppend mem p ab

/-- The loop of `aubuf_read`: the frames that stay and the bytes that are read -/
def readLoop : List Auframe → Nat → List Auframe × Bytes
  | [], _ => ([], [])
  | af :: afl, sz =>
    let n := min af.left.length sz
    let af' := { af with pos := af.pos + n }
    let kept := if af'.left.length = 0 then [] else [af']
    if n = sz then (kept ++ afl, af.left.take n)
    else
      let (afl', d) := readLoop afl (sz - n)
      (kept ++ afl', af.left.take n ++ d)

def readFrames (p : Bytes) (ab : Aubuf) : Aubuf × Bytes × Bytes :=
  let (afl, d) := readLoop ab.afl p.length
  ({ ab with afl, curSz := ab.curSz - d.length }, d, overwrite p 0 d)

/-- The buffer, the audio bytes that are read, and the destination `p` after the call -/
def aubufRead (p : Bytes) (ab : Aubuf) : Aubuf × Bytes × Bytes :=
  if p.length = 0 then (ab, [], p)
  else if ab.curSz < (if ab.filling then ab.wishSz else p.length) then
    let silence := List.replicate p.length 0
    if ab.filling then (ab, [], silence) else readFrames silence { ab with filling := true }
  else readFrames p { ab with filling := false }

def aubufFlush (ab : Aubuf) : Aubuf × List Bytes :=
  ({ ab with afl := [], filling := true, curSz := 0 }, ab.afl.map Auframe.left)

inductive Event
  | append (mem : Bool) (mb : Bytes)
  | write (memMb mem : Bool) (p : Bytes)
  | read (p : Bytes)
  | flush

inductive Out
  | audio (d dest : Bytes)
  | dropped (d : Bytes)

def step (ab : Aubuf) : Event → Aubuf × List Out
  | .append mem mb => let (_, ab, ds) := aubufAppend mem mb ab; (ab, ds.map .dropped)
  | .write memMb mem p => let (_, ab, ds) := aubufWrite memMb mem p ab; (ab, ds.map .dropped)
  | .read p => let (ab, d, dest) := aubufRead p ab; (ab, [.audio d dest])
  | .flush => let (ab, ds) := aubufFlush ab; (ab, ds.map .dropped)

end BareRTC.Rem
