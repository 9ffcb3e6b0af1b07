import BareRTC.Lib.Loss
import BareRTC.Re.Mbuf

/-!
# VP8 over RTP (`baresip/modules/vp8/encode.c`, `decode.c`)

The encoder's output is a list of frames, the decoder's codec an event's flag: whether
`vpx_codec_decode` fails. What `vpx_codec_get_frame` returns changes neither the state nor the
buffers passed.
-/

namespace BareRTC.Video

def seqDiff (x y : UInt16) : Int16 := (y - x).toInt16

def decodeMaxsz : Nat := 524288

structure Packet where
  marker : Bool
  data : Bytes

end BareRTC.Video

namespace BareRTC.Vp8

open Video

def hdr0 (noref start : Bool) (partid : UInt8) : UInt8 :=
  (0x80 : UInt8) ||| noref.toUInt8 <<< 5 ||| start.toUInt8 <<< 4 ||| partid &&& 0x7

def hdrEncode (noref start : Bool) (partid : UInt8) (picid : UInt16) : Bytes :=
  [hdr0 noref start partid, 0x80, (0x80 : UInt8) ||| (picid >>> 8 &&& 0x7f).toUInt8, (picid &&& 0xff).toUInt8]

/-- The loop is entered with `maxlen` past the header, so that it ends. -/
def packetize (marker : Bool) (buf : Bytes) (maxlen : Nat) (h : 4 < maxlen) (noref : Bool) (partid : UInt8)
    (picid : UInt16) : List Packet :=
  cut (maxlen - 4) (by omega) (fun start b => ⟨false, hdrEncode noref start partid picid ++ b⟩)
    (fun start b => ⟨marker, hdrEncode noref start partid picid ++ b⟩) true buf

structure Frame where
  keyframe : Bool
  picid : UInt16
  first : Bytes
  rest : List (UInt8 × Bytes)
  rest_ids : ∀ p ∈ rest, p.1 ≠ 0 ∧ p.1 < 8

def Frame.bytes (f : Frame) : Bytes := f.first ++ f.rest.flatMap (·.2)

/-- The loop of `vp8_encode` over the partitions: all but the last have `VPX_FRAME_IS_FRAGMENT`. -/
def sendParts (pktsize : Nat) (h : 4 < pktsize) (noref : Bool) (picid : UInt16) : List (UInt8 × Bytes) → List Packet
  | [] => []
  | (partid, buf) :: ps =>
    packetize ps.isEmpty buf pktsize h noref partid picid ++ sendParts pktsize h noref picid ps

def Frame.packets (pktsize : Nat) (h : 4 < pktsize) (f : Frame) : List Packet :=
  sendParts pktsize h (!f.keyframe) f.picid ((0, f.first) :: f.rest)

/-- A byte of the header if a flag announces it -/
def readIf : Bool → Bytes → Except Errno (UInt8 × Bytes)
  | false, mb => .ok (0, mb)
  | true, [] => .error .EBADMSG
  | true, v :: mb => .ok (v, mb)

/-- The fields `start` and `partid`, and what is left. -/
def hdrDecode (mb : Bytes) : Except Errno (Bool × UInt8 × Bytes) := do
  let (v, mb) ← readIf true mb
  let (ext, mb) ← readIf (v.toNat.testBit 7) mb
  let (picid, mb) ← readIf (ext.toNat.testBit 7) mb
  let (_, mb) ← readIf (picid.toNat.testBit 7) mb
  let (_, mb) ← readIf (ext.toNat.testBit 6) mb
  let (_, mb) ← readIf (ext.toNat.testBit 5 || ext.toNat.testBit 4) mb
  return (v.toNat.testBit 4, v &&& 0x07, mb)

structure Viddec where
  mb : Bytes := []
  started : Bool := false
  seq : UInt16 := 0

/-- With the buffer passed to the codec. -/
def vp8Decode (vds : Viddec) : UInt16 × Packet × Bool → Viddec × Option Errno × Option Bytes
  | (seq, p, fails) =>
    match hdrDecode p.data with
    | .error err => (vds, some err, none)
    | .ok (start, partid, mb) =>
      let first := start && partid == 0
      if !first && !vds.started then (vds, none, none)
      else if !first && seqDiff vds.seq seq != 1 then ({ vds with mb := [], started := false }, none, none)
      else
        let buf := (if first then [] else vds.mb) ++ mb
        if p.marker then (⟨[], false, seq⟩, if fails then some .EPROTO else none, some buf)
        else if buf.length > decodeMaxsz then (⟨[], false, seq⟩, some .ENOMEM, none)
        else (⟨buf, true, seq⟩, none, none)

end BareRTC.Vp8
