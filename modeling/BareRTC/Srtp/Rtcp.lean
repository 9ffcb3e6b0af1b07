import BareRTC.Srtp.Defs

/-!
# `srtcp_encrypt` and `srtcp_decrypt` (`re/src/srtp/srtcp.c`)

An SRTCP packet ends in a word with the E bit ("encrypted") and the 31-bit index, followed for the
HMAC suites by the tag.
-/

namespace BareRTC.Srtp

def getRtcpSsrc : MbufM UInt32 := do
  Mbuf.require 8
  Mbuf.advance 4
  Mbuf.readU32

/-! ## Encryption -/

/-- The cipher; the result is the E bit. -/
def srtcpEncryptCipher (E : Env) (rtcp : Comp) (start : Nat) (ssrc index : UInt32) : CallM UInt32 :=
  match rtcp.aes, rtcp.mode with
  | none, _ => return 0
  | some key, .CTR => do
    let mb := (← get).mb
    let _ ← aesEncr E ⟨.CTR, key, srtpIvCalc rtcp.kS ssrc index.toUInt64, [], []⟩ mb.pos mb.getLeft
    return 1
  | some key, .GCM => do
    let mb := (← get).mb
    let ixBe := beBytes 4 ((1 : UInt32) <<< 31 ||| index).toNat
    -- The RTCP Header and Index is Associated Data
    let op ← aesAad E ⟨.GCM, key, srtpIvCalcGcm rtcp.kS ssrc index.toUInt64, [], []⟩
      (slice mb.buf start (mb.pos - start))
    let op ← aesAad E op ixBe
    let op ← aesEncr E op mb.pos mb.getLeft
    let tag ← aesGetAuthtag E op
    modMb fun mb => mb.setPos mb.endPos
    onMb (Mbuf.writeMem E.mem tag)
    return 1

def srtcpEncryptHmac (E : Env) (rtcp : Comp) (start : Nat) : CallM Unit :=
  match rtcp.hmac with
  | none => return ()
  | some key => do
    modMb (·.setPos start)
    let tag ← hmacDigest E key (← get).mb.left
    modMb fun mb => mb.setPos mb.endPos
    onMb (Mbuf.writeMem E.mem (tag.take rtcp.tagLen))

def srtcpEncrypt (E : Env) : CallM Unit := do
  let c ← get
  let rtcp := c.srtp.rtcp
  let start := c.mb.pos
  let ssrc ← onMb getRtcpSsrc
  let strm ← onSrtp (streamGet E ssrc)
  let index := (strm.rtcpIndex + 1) &&& 0x7fffffff
  modStream ssrc fun s => { s with rtcpIndex := index }
  let ep ← srtcpEncryptCipher E rtcp start ssrc index
  -- append E-bit and SRTCP-index
  modMb fun mb => mb.setPos mb.endPos
  onMb (Mbuf.writeU32 E.mem (ep <<< 31 ||| index))
  srtcpEncryptHmac E rtcp start
  modMb (·.setPos start)

/-! ## Decryption -/

/-- SRTCP replay protection uses the SRTCP index and a list of its own. -/
def replayRtcp (ssrc : UInt32) (strm : SrtpStream) (ix : UInt32) : CallM Unit :=
  replayCheck ssrc strm.replayRtcp (fun r s => { s with replayRtcp := r }) ix.toUInt64

def srtcpDecryptHmac (E : Env) (rtcp : Comp) (start : Nat) (ssrc : UInt32) (strm : SrtpStream)
    (ix : UInt32) : CallM Unit :=
  match rtcp.hmac with
  | none => return ()
  | some key => do
    let tagStart := (← get).mb.pos
    let tagPkt ← onMb (Mbuf.readMem rtcp.tagLen)
    modMb fun mb => (mb.setPos start).setEnd tagStart
    let data := (← get).mb.left
    let tag ← hmacDigest E key data
    checkTag key data tag tagPkt rtcp.tagLen
    replayRtcp ssrc strm ix

def srtcpDecryptCipher (E : Env) (rtcp : Comp) (start pldStart eixStart : Nat) (ssrc ix : UInt32)
    (ep : Bool) : CallM Unit :=
  match rtcp.aes, ep, rtcp.mode with
  | none, _, _ => return ()
  | some _, false, _ => return ()
  | some key, true, .CTR => do
    modMb (·.setPos pldStart)
    let mb := (← get).mb
    let _ ← aesDecr E ⟨.CTR, key, srtpIvCalc rtcp.kS ssrc ix.toUInt64, [], []⟩ mb.pos mb.getLeft
  | some key, true, .GCM => do
    let mb := (← get).mb
    let op ← aesAad E ⟨.GCM, key, srtpIvCalcGcm rtcp.kS ssrc ix.toUInt64, [], []⟩
      (slice mb.buf start (pldStart - start))
    let op ← aesAad E op (slice mb.buf eixStart 4)
    modMb (·.setPos pldStart)
    onMb (Mbuf.require GCM_TAGLEN)
    let tagStart := mb.endPos - GCM_TAGLEN
    let op ← aesDecr E op pldStart (tagStart - pldStart)
    aesAuthenticate E op (slice (← get).mb.buf tagStart GCM_TAGLEN)
    modMb (·.setEnd tagStart)

/-- What `srtcp_decrypt` reads before it authenticates. -/
structure SrtcpTrailer where
  ssrc : UInt32
  strm : SrtpStream
  pldStart : Nat
  eixStart : Nat
  ep : Bool
  ix : UInt32

def srtcpDecryptRead (E : Env) (rtcp : Comp) : CallM SrtcpTrailer := do
  let ssrc ← onMb getRtcpSsrc
  let strm ← onSrtp (streamGet E ssrc)
  let pldStart := (← get).mb.pos
  onMb (Mbuf.require (4 + rtcp.tagLen))
  -- Read out E-Bit, SRTCP-index and Authentication Tag
  let eixStart := (← get).mb.endPos - (4 + rtcp.tagLen)
  modMb (·.setPos eixStart)
  let v ← onMb Mbuf.readU32
  return ⟨ssrc, strm, pldStart, eixStart, (v >>> 31) &&& 1 == 1, v &&& 0x7fffffff⟩

def srtcpDecrypt (E : Env) : CallM Unit := do
  let c ← get
  let rtcp := c.srtp.rtcp
  let start := c.mb.pos
  let t ← srtcpDecryptRead E rtcp
  srtcpDecryptHmac E rtcp start t.ssrc t.strm t.ix
  modMb (·.setEnd t.eixStart)
  srtcpDecryptCipher E rtcp start t.pldStart t.eixStart t.ssrc t.ix t.ep
  modMb (·.setPos start)

end BareRTC.Srtp
