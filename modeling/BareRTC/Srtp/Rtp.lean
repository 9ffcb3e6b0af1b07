import BareRTC.Re.RtpHdr
import BareRTC.Srtp.Defs

/-!
# `srtp_encrypt` and `srtp_decrypt` (`re/src/srtp/srtp.c`)

Both functions are cut where the C code's blocks end: the packet index with the roll-over counter
(`encryptIndex`, `decryptIndex`), the cipher (`encryptCipher`, `decryptCipher`) and the HMAC
(`encryptHmac`, `decryptHmac`). `strm` is the stream as the C code sees it through its pointer at
that point; the changes themselves go to the session (`modStream`).
-/

namespace BareRTC.Srtp

/-- `strm->roc++; strm->s_l = 0;` -/
def SrtpStream.rollOver (s : SrtpStream) : SrtpStream := { s with roc := s.roc + 1, sL := 0 }

def rocUpdate (ssrc : UInt32) (strm : SrtpStream) (diff : Int) : CallM SrtpStream :=
  if diff ≤ -32768 then do
    modStream ssrc SrtpStream.rollOver
    return strm.rollOver
  else return strm

/-- `if (hdr.seq > strm->s_l) strm->s_l = hdr.seq;` -/
def seqUpdate (ssrc : UInt32) (strm : SrtpStream) (seq : UInt16) : CallM Unit :=
  if seq > strm.sL then modStream ssrc fun s => { s with sL := seq } else return ()

/-! ## Encryption -/

def encryptIndex (E : Env) (hdr : RtpHeader) : CallM (SrtpStream × UInt64) := do
  let strm ← onSrtp (streamGetSeq E hdr.ssrc hdr.seq)
  let strm ← rocUpdate hdr.ssrc strm (seqDiff strm.sL hdr.seq)
  let ix : UInt64 := 65536 * strm.roc.toUInt64 + hdr.seq.toUInt64
  emit (.index hdr.ssrc strm.roc ix)
  return (strm, ix)

def encryptCipher (E : Env) (comp : Comp) (start : Nat) (ssrc : UInt32) (ix : UInt64) :
    CallM Unit :=
  match comp.aes, comp.mode with
  | none, _ => return ()
  | some key, .CTR => do
    let mb := (← get).mb
    let _ ← aesEncr E ⟨.CTR, key, srtpIvCalc comp.kS ssrc ix, [], []⟩ mb.pos mb.getLeft
  | some key, .GCM => do
    let mb := (← get).mb
    -- The RTP Header is Associated Data
    let op ← aesAad E ⟨.GCM, key, srtpIvCalcGcm comp.kS ssrc ix, [], []⟩ (slice mb.buf start (mb.pos - start))
    let op ← aesEncr E op mb.pos mb.getLeft
    let tag ← aesGetAuthtag E op
    modMb fun mb => mb.setPos mb.endPos
    onMb (Mbuf.writeMem E.mem tag)

def encryptHmac (E : Env) (comp : Comp) (start : Nat) (roc : UInt32) : CallM Unit :=
  match comp.hmac with
  | none => return ()
  | some key => do
    let tagStart := (← get).mb.endPos
    modMb (·.setPos tagStart)
    onMb (Mbuf.writeU32 E.mem roc)
    modMb (·.setPos start)
    let tag ← hmacDigest E key (← get).mb.left
    modMb fun mb => (mb.setPos tagStart).setEnd tagStart
    onMb (Mbuf.writeMem E.mem (tag.take comp.tagLen))

def srtpEncrypt (E : Env) : CallM Unit := do
  let c ← get
  let comp := c.srtp.rtp
  let start := c.mb.pos
  let hdr ← onMb rtpHdrDecode
  let (strm, ix) ← encryptIndex E hdr
  encryptCipher E comp start hdr.ssrc ix
  encryptHmac E comp start strm.roc
  seqUpdate hdr.ssrc strm hdr.seq
  modMb (·.setPos start)

/-! ## Decryption -/

def decryptIndex (E : Env) (hdr : RtpHeader) : CallM (SrtpStream × UInt64) := do
  let strm ← onSrtp (streamGetSeq E hdr.ssrc hdr.seq)
  let diff := seqDiff strm.sL hdr.seq
  if diff > 32768 then throw .ETIMEDOUT
  else
    let strm ← rocUpdate hdr.ssrc strm diff
    let ix := srtpGetIndex strm.roc strm.sL hdr.seq
    emit (.index hdr.ssrc strm.roc ix)
    return (strm, ix)

def replayRtp (ssrc : UInt32) (strm : SrtpStream) (ix : UInt64) : CallM Unit :=
  replayCheck ssrc strm.replayRtp (fun r s => { s with replayRtp := r }) ix

def decryptHmac (E : Env) (comp : Comp) (start : Nat) (ssrc : UInt32) (strm : SrtpStream)
    (ix : UInt64) : CallM Unit :=
  match comp.hmac with
  | none => return ()
  | some key => do
    onMb (Mbuf.require comp.tagLen)
    let mb := (← get).mb
    let pldStart := mb.pos
    let tagStart := mb.endPos - comp.tagLen
    modMb (·.setPos tagStart)
    let tagPkt ← onMb (Mbuf.readMem comp.tagLen)
    modMb fun mb => (mb.setPos tagStart).setEnd tagStart
    onMb (Mbuf.writeU32 E.mem strm.roc)
    modMb (·.setPos start)
    let data := (← get).mb.left
    let tagCalc ← hmacDigest E key data
    modMb fun mb => (mb.setPos pldStart).setEnd tagStart
    checkTag key data tagCalc tagPkt comp.tagLen
    replayRtp ssrc strm ix

def decryptCipher (E : Env) (comp : Comp) (start : Nat) (ssrc : UInt32) (strm : SrtpStream)
    (ix : UInt64) : CallM Unit :=
  match comp.aes, comp.mode with
  | none, _ => return ()
  | some key, .CTR => do
    let mb := (← get).mb
    let _ ← aesDecr E ⟨.CTR, key, srtpIvCalc comp.kS ssrc ix, [], []⟩ mb.pos mb.getLeft
  | some key, .GCM => do
    let mb := (← get).mb
    -- The RTP Header is Associated Data
    let op ← aesAad E ⟨.GCM, key, srtpIvCalcGcm comp.kS ssrc ix, [], []⟩ (slice mb.buf start (mb.pos - start))
    onMb (Mbuf.require GCM_TAGLEN)
    let tagStart := mb.endPos - GCM_TAGLEN
    let op ← aesDecr E op mb.pos (tagStart - mb.pos)
    aesAuthenticate E op (slice (← get).mb.buf tagStart GCM_TAGLEN)
    modMb (·.setEnd tagStart)
    replayRtp ssrc strm ix

def srtpDecrypt (E : Env) : CallM Unit := do
  let c ← get
  let comp := c.srtp.rtp
  let start := c.mb.pos
  let hdr ← onMb rtpHdrDecode
  let (strm, ix) ← decryptIndex E hdr
  decryptHmac E comp start hdr.ssrc strm ix
  decryptCipher E comp start hdr.ssrc strm ix
  seqUpdate hdr.ssrc strm hdr.seq
  modMb (·.setPos start)

end BareRTC.Srtp
