import BareRTC.Video.Vp8

/-!
# H.264 over RTP (`baresip/src/h264.c`, `baresip/modules/avcodec/decode.c`)

The position of the decoder's buffer is its end at all times, so that a rewind drops the end of a
list. Memory is there. Of the codec an event has the result of `ffdecode`: an error, or whether the
picture is a key frame.
-/

namespace BareRTC.H264

open Video

/-- `fu_hdr` and a piece of the payload -/
def fragment (hdr : UInt8) (s e : Bool) (buf : Bytes) : Bytes :=
  (hdr &&& 0x60 ||| 28) :: (s.toUInt8 <<< 7 ||| e.toUInt8 <<< 6 ||| hdr &&& 0x1f) :: buf

/-- With `maxsz = 2` fragments are empty and the loop does not end; the difference is a `size_t`. -/
def h264NalSend (first last marker : Bool) (hdr : UInt8) (buf : Bytes) (maxsz : UInt64)
    (h : maxsz = 2 → first ∧ last ∧ buf.length ≤ maxsz.toNat) : List Packet :=
  if hsz : first ∧ last ∧ buf.length ≤ maxsz.toNat then [⟨marker, hdr :: buf⟩]
  else
    have hpos : 0 < (maxsz - 2).toNat := Nat.pos_of_ne_zero fun h0 =>
      hsz (h (UInt64.sub_eq_iff_eq_add (c := 0) |>.1 (UInt64.toNat_inj.1 h0)))
    cut (maxsz - 2).toNat hpos (fun s b => ⟨false, fragment hdr s false b⟩)
      (fun s b => ⟨marker && last, fragment hdr s last b⟩) first buf

/-- A NAL unit, and how it is sent -/
structure Nal where
  hdr : UInt8
  buf : Bytes
  marker : Bool
  maxsz : UInt64
  forbidden : hdr < 0x80
  type : 1 ≤ hdr &&& 0x1f ∧ hdr &&& 0x1f ≤ 23
  returns : maxsz = 2 → buf.length ≤ maxsz.toNat

def Nal.bytes (nal : Nal) : Bytes := nal.hdr :: nal.buf

def Nal.packets (nal : Nal) : List Packet :=
  h264NalSend true true nal.marker nal.hdr nal.buf nal.maxsz fun h => ⟨rfl, rfl, nal.returns h⟩

structure Viddec where
  mb : Bytes := []
  fragStart : Nat := 0
  frag : Bool := false
  fragSeq : UInt16 := 0
  gotKeyframe : Bool := false

def nalSeq : Bytes := [0, 0, 1]

/-- `fragment_rewind`, for a NAL unit whose end is lost. -/
def dropFragment (st : Viddec) : Viddec :=
  if st.frag then { st with mb := st.mb.take st.fragStart, frag := false } else st

/-- The loop over the NAL units of a `STAP_A` packet; it leaves what was written before an error. -/
def stapA (mb : Bytes) : Bytes → Bytes × Option Errno
  | b1 :: b0 :: src =>
    let len := b1.toNat * 256 + b0.toNat
    if src.length < len ∨ src = [] then (mb, some .EBADMSG)
    else stapA (mb ++ (nalSeq ++ src.take len)) (src.drop len)
  | _ => (mb, none)
termination_by src => src.length

/-- `avcodec_decode_h264` up to the check of the marker: the state, and what is returned there if
anything is. -/
def handleNal (st : Viddec) (seq : UInt16) : Bytes → Viddec × Option (Option Errno)
  | [] => (st, some (some .EBADMSG))
  | hdr :: src =>
    let type := hdr &&& 0x1f
    if type = 1 ∧ !st.gotKeyframe then (st, some (some .EPROTO))
    else if 0x80 ≤ hdr then (st, some (some .EBADMSG))
    else if type = 28 then
      match src with
      | [] => (st, some (some .ENOENT))
      | fu :: src =>
        let (s, e) := (fu.toNat.testBit 7, fu.toNat.testBit 6)
        if s then
          let mb := (dropFragment st).mb
          (⟨mb ++ (nalSeq ++ (hdr &&& 0x60 ||| fu &&& 0x1f) :: src), mb.length, !e, seq, st.gotKeyframe⟩, none)
        else if !st.frag then (st, some none)
        else if seqDiff st.fragSeq seq ≠ 1 then (dropFragment st, some none)
        else ({ st with mb := st.mb ++ src, frag := !e, fragSeq := seq }, none)
    else
      let st := dropFragment st
      if 1 ≤ type ∧ type ≤ 23 then ({ st with mb := st.mb ++ (nalSeq ++ hdr :: src) }, none)
      else if type = 24 then
        let (mb, err) := stapA st.mb src
        ({ st with mb }, err.map some)
      else (st, some (some .EBADMSG))

/-- With the buffer that `ffdecode` is given. -/
def avcodecDecodeH264 (st : Viddec) :
    UInt16 × Packet × Except Errno Bool → Viddec × Option Errno × Option Bytes
  | (seq, p, codec) =>
    match handleNal st seq p.data with
    | (st, some err) => (st, err, none)
    | (st, none) =>
      let out := { st with mb := [], frag := false }
      if !p.marker then if st.mb.length > decodeMaxsz then (out, some .ENOMEM, none) else (st, none, none)
      else if st.frag then (out, some .EPROTO, none)
      else
        match codec with
        | .error err => (out, some err, some st.mb)
        | .ok key => ({ out with gotKeyframe := st.gotKeyframe || key }, none, some st.mb)

end BareRTC.H264
