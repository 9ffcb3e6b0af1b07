import BareRTC.Re.Reader

/-!
# The RTP header (`re/src/rtp/rtp.c`, `rtp_hdr_decode`)

`rtpHdrDecode_reads`: the header's contract as a parser. SRTP rests on it: encryption changes what
follows the header, and the receiver has to find the same header again.
-/

namespace BareRTC

def rtpHeaderSize : Nat := 12

structure RtpHeader where
  ver : UInt8
  pad : Bool
  ext : Bool
  cc : Nat
  m : Bool
  pt : UInt8
  seq : UInt16
  ts : UInt32
  ssrc : UInt32
  csrc : List UInt32
  xType : UInt16
  xLen : UInt16
  deriving DecidableEq, Repr

def readCsrc : Nat → MbufM (List UInt32)
  | 0 => pure []
  | n + 1 => do
    let c ← Mbuf.readU32
    let cs ← readCsrc n
    return c :: cs

/-- The extension header, where the header's bit announces one: its type and its length in words,
the words skipped. -/
def readExt : Bool → MbufM (UInt16 × UInt16)
  | false => pure (0, 0)
  | true => do
    Mbuf.require 4
    let type ← Mbuf.readU16
    let len ← Mbuf.readU16
    Mbuf.require (len.toNat * 4)
    Mbuf.advance (len.toNat * 4)
    return (type, len)

def rtpHdrDecode : MbufM RtpHeader := do
  Mbuf.require rtpHeaderSize
  let buf ← Mbuf.readMem 2
  let b0 := buf.getD 0 0
  let b1 := buf.getD 1 0
  let seq ← Mbuf.readU16
  let ts ← Mbuf.readU32
  let ssrc ← Mbuf.readU32
  let cc := (b0 &&& 0x0f).toNat
  Mbuf.require (cc * 4)
  let csrc ← readCsrc cc
  let ext := (b0 >>> 4) &&& 1 == 1
  let x ← readExt ext
  return {
    ver := (b0 >>> 6) &&& 3, pad := (b0 >>> 5) &&& 1 == 1, ext, cc
    m := (b1 >>> 7) &&& 1 == 1, pt := b1 &&& 0x7f
    seq, ts, ssrc, csrc, xType := x.1, xLen := x.2 }

theorem readCsrc_reads : ∀ n : Nat, Reads (n * 4) (readCsrc n) fun _ => 0
  | 0 => Reads.pure
  | n + 1 => by
    refine Reads.bind (Reads.readU32 (by omega)) fun _ => ?_
    rw [show (n + 1) * 4 - 4 = n * 4 by omega]
    exact Reads.bind (readCsrc_reads n) fun _ => Reads.pure

theorem readExt_reads : ∀ ext : Bool, Reads 0 (readExt ext) fun _ => 0
  | false => Reads.pure
  | true => by
    refine Reads.bind (Reads.require) fun _ => ?_
    refine Reads.bind (Reads.readU16 (by omega)) fun _ => ?_
    refine Reads.bind (Reads.readU16 (by omega)) fun len => ?_
    refine Reads.bind (Reads.require) fun _ => ?_
    refine Reads.bind (Reads.advance (Nat.le_refl _)) fun _ => ?_
    exact (Reads.pure).weaken fun _ => Nat.zero_le _

/-- **The header is determined by its own bytes.** -/
theorem rtpHdrDecode_reads : Reads 0 rtpHdrDecode fun _ => 0 := by
  refine Reads.bind (Reads.require) fun _ => ?_
  refine Reads.bind (Reads.readMem) fun buf => ?_
  refine Reads.bind (Reads.readU16 (by decide)) fun _ => ?_
  refine Reads.bind (Reads.readU32 (by decide)) fun _ => ?_
  refine Reads.bind (Reads.readU32 (by decide)) fun _ => ?_
  refine Reads.bind (Reads.require) fun _ => ?_
  refine Reads.bind (readCsrc_reads _) fun _ => ?_
  exact Reads.bind (readExt_reads _) fun _ => Reads.pure

theorem rtpHdrDecode_plain {mb : Mbuf} (hlen : 12 ≤ mb.getLeft) (hb : slice mb.buf mb.pos 2 = [128, 0]) :
    rtpHdrDecode mb = .ok ⟨2, false, false, 0, false, 0, UInt16.ofNat (beNat (slice mb.buf (mb.pos + 2) 2)),
        UInt32.ofNat (beNat (slice mb.buf (mb.pos + 4) 4)),
        UInt32.ofNat (beNat (slice mb.buf (mb.pos + 8) 4)), [], 0, 0⟩ (mb.setPos (mb.pos + 12)) := by
  obtain ⟨buf, pos, e⟩ := mb
  simp only [Mbuf.getLeft] at hlen hb ⊢
  unfold rtpHdrDecode
  rw [bind_of_ok (Mbuf.require_of_le hlen), bind_of_ok (Mbuf.readMem_of_le (by simp only [Mbuf.getLeft]; omega))]
  dsimp only [Mbuf.setPos]
  rw [hb, bind_of_ok (Mbuf.readU16_of_le (by simp only [Mbuf.getLeft]; omega))]
  dsimp only [Mbuf.setPos]
  rw [bind_of_ok (Mbuf.readU32_of_le (by simp only [Mbuf.getLeft]; omega))]
  dsimp only [Mbuf.setPos]
  rw [bind_of_ok (Mbuf.readU32_of_le (by simp only [Mbuf.getLeft]; omega))]
  rfl

end BareRTC
