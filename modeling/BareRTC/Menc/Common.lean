import BareRTC.Srtp.Rtcp
import BareRTC.Srtp.Rtp

/-!
# What the media encryption modules share

`baresip/modules/srtp/srtp.c` and `baresip/modules/dtls_srtp` have the same functions to tell RTP
and RTCP from the other packets of a socket and for the length of a master key, and call the same
SRTP function for a packet.
-/

namespace BareRTC.Menc

/-- `none` is a suite that it does not know. -/
def getMasterKeylen : Option Srtp.Suite → Nat
  | some .AES_CM_128_HMAC_SHA1_32 => 16 + 14
  | some .AES_CM_128_HMAC_SHA1_80 => 16 + 14
  | some .AES_128_GCM => 16 + 12
  | some .AES_256_GCM => 32 + 12
  | _ => 0

/-- RFC 5764 figure 3 -/
def isRtpOrRtcp (mb : Mbuf) : Bool :=
  match mb.left with
  | b :: _ => 127 < b && b < 192
  | [] => false

def isRtcpPacket (mb : Mbuf) : Bool :=
  match mb.left with
  | _ :: b :: _ => 64 ≤ b &&& 0x7f && b &&& 0x7f ≤ 95
  | _ => false

inductive SrtpFn
  | srtpEncrypt | srtcpEncrypt | srtpDecrypt | srtcpDecrypt
  deriving DecidableEq, Repr

def encryptFn (mb : Mbuf) : SrtpFn := if isRtcpPacket mb then .srtcpEncrypt else .srtpEncrypt

def decryptFn (mb : Mbuf) : SrtpFn := if isRtcpPacket mb then .srtcpDecrypt else .srtpDecrypt

def SrtpFn.run (E : Srtp.Env) : SrtpFn → Srtp.CallM Unit
  | .srtpEncrypt => Srtp.srtpEncrypt E
  | .srtcpEncrypt => Srtp.srtcpEncrypt E
  | .srtpDecrypt => Srtp.srtpDecrypt E
  | .srtcpDecrypt => Srtp.srtcpDecrypt E

/-- The packet and the context after a call, and its error; all four functions return `EINVAL`
without a context. -/
def SrtpFn.call (E : Srtp.Env) (fn : SrtpFn) (srtp : Option Srtp.Session) (mb : Mbuf) :
    Option Srtp.Session × Mbuf × Option Errno :=
  match srtp with
  | none => (none, mb, some .EINVAL)
  | some srtp =>
    match fn.run E ⟨srtp, mb, []⟩ with
    | .ok _ c => (some c.srtp, c.mb, none)
    | .error e c => (some c.srtp, c.mb, some e)

structure Transformed where
  fn : SrtpFn
  srtp : Srtp.Session
  deriving DecidableEq, Repr

end BareRTC.Menc
