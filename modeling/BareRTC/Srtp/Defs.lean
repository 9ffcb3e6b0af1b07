import BareRTC.Lib.Prog
import BareRTC.Re.Mbuf

/-!
# SRTP contexts (`re/src/srtp`: `srtp.h`, `srtp.c`, `stream.c`, `misc.c`, `replay.c`)

The data of an SRTP context, its allocation and key derivation, the streams, the packet index, the
initialisation vectors and the replay list.

AES and HMAC are OpenSSL's and stay a parameter, `Crypto`. An AES context works on one message
from `aes_set_iv` on; `AesOp` is that message so far (the associated data and the ciphertext), and
each primitive is a function of it. Every call may fail (`none`, `false`), as the C wrappers
in `re/src/aes/openssl/aes.c` and `re/src/hmac/openssl/hmac.c` may. `Env` adds whether an
allocation succeeds.
-/

namespace BareRTC.Srtp

inductive Suite
  | AES_CM_128_HMAC_SHA1_32 | AES_CM_128_HMAC_SHA1_80 | AES_256_CM_HMAC_SHA1_32
  | AES_256_CM_HMAC_SHA1_80 | AES_128_GCM | AES_256_GCM
  deriving DecidableEq, Repr

inductive AesMode
  | CTR | GCM
  deriving DecidableEq, Repr

/-- A message under an AES key: what has been passed to the cipher since `aes_set_iv`. -/
structure AesOp where
  mode : AesMode
  key : Bytes
  iv : Bytes
  aad : Bytes
  text : Bytes
  deriving DecidableEq, Repr

structure Crypto where
  /-- `EVP_EncryptUpdate` with an output buffer. -/
  encr : AesOp → Bytes → Option Bytes
  /-- `EVP_DecryptUpdate` with an output buffer. -/
  decr : AesOp → Bytes → Option Bytes
  aad : AesOp → Bytes → Bool
  /-- `EVP_EncryptFinal_ex` and `EVP_CTRL_GCM_GET_TAG`. -/
  tag : AesOp → Option Bytes
  /-- `EVP_CTRL_GCM_SET_TAG` and `EVP_DecryptFinal_ex`. -/
  verify : AesOp → Bytes → Bool
  /-- HMAC-SHA1 of the data under the key. -/
  hmac : Bytes → Bytes → Option Bytes
  -- Both modes are stream ciphers, the tag has the 16 bytes asked for, the digest SHA-1's 20.
  length_encr : ∀ op d c, encr op d = some c → c.length = d.length
  length_decr : ∀ op d c, decr op d = some c → c.length = d.length
  length_tag : ∀ op t, tag op = some t → t.length = 16
  length_hmac : ∀ k d md, hmac k d = some md → md.length = 20

structure Env extends Crypto where
  mem : Bool

structure Comp where
  aes : Option Bytes
  mode : AesMode
  hmac : Option Bytes
  kS : Bytes
  tagLen : Nat
  deriving DecidableEq, Repr

structure Replay where
  bitmap : BitVec 64
  lix : UInt64
  deriving DecidableEq, Repr

structure SrtpStream where
  replayRtp : Replay
  replayRtcp : Replay
  ssrc : UInt32
  roc : UInt32
  sL : UInt16
  sLSet : Bool
  rtcpIndex : UInt32
  deriving DecidableEq, Repr

structure Session where
  rtp : Comp
  rtcp : Comp
  streaml : List SrtpStream
  deriving DecidableEq, Repr

def GCM_TAGLEN : Nat := 16
def SHA_DIGEST_LENGTH : Nat := 20
def SRTP_MAX_STREAMS : Nat := 8
def SRTP_WINDOW_SIZE : UInt64 := 64
def MAX_KEYLEN : Nat := 32

/-! ## Allocation -/

def srtpDerive (E : Env) (outLen : Nat) (label : UInt8) (masterKey masterSalt : Bytes) :
    Except Errno Bytes :=
  if outLen > 32 ∨ masterSalt.length > 16 then .error .EINVAL
  else
    let x := masterSalt ++ List.replicate (16 - masterSalt.length) 0
    let x := x.set 7 (x.getD 7 0 ^^^ label)
    -- `aes_alloc`: no cipher for other key sizes
    if masterKey.length ≠ 16 ∧ masterKey.length ≠ 24 ∧ masterKey.length ≠ 32 then .error .ENOTSUP
    else if E.mem = false then .error .ENOMEM
    else match E.encr ⟨.CTR, masterKey, x, [], []⟩ (List.replicate outLen 0) with
      | some out => .ok out
      | none => .error .EPROTO

def compInit (E : Env) (offs : UInt8) (key s : Bytes) (tagLen : Nat) (encrypted hash : Bool)
    (mode : AesMode) : Except Errno Comp := do
  if key.length > MAX_KEYLEN then throw .EINVAL
  if tagLen > SHA_DIGEST_LENGTH then throw .EINVAL
  let kE ← srtpDerive E key.length (0x00 + offs) key s
  let kA ← srtpDerive E SHA_DIGEST_LENGTH (0x01 + offs) key s
  let kS ← srtpDerive E 14 (0x02 + offs) key s
  -- `aes_alloc` and `hmac_create`
  if E.mem = false then throw .ENOMEM
  return {
    aes := if encrypted then some kE else none
    mode
    hmac := if hash then some kA else none
    kS := kS ++ [0, 0]
    tagLen }

structure SuiteParams where
  mode : AesMode
  cipherBytes : Nat
  saltBytes : Nat
  authBytes : Nat
  hash : Bool

def Suite.params : Suite → SuiteParams
  | .AES_CM_128_HMAC_SHA1_80 => ⟨.CTR, 16, 14, 10, true⟩
  | .AES_CM_128_HMAC_SHA1_32 => ⟨.CTR, 16, 14, 4, true⟩
  | .AES_256_CM_HMAC_SHA1_80 => ⟨.CTR, 32, 14, 10, true⟩
  | .AES_256_CM_HMAC_SHA1_32 => ⟨.CTR, 32, 14, 4, true⟩
  | .AES_128_GCM => ⟨.GCM, 16, 12, 0, false⟩
  | .AES_256_GCM => ⟨.GCM, 32, 12, 0, false⟩

/-- `unencryptedSrtcp` is the flag `SRTP_UNENCRYPTED_SRTCP`. -/
def srtpAlloc (E : Env) (suite : Suite) (key : Bytes) (unencryptedSrtcp : Bool := false) :
    Except Errno Session := do
  let p := suite.params
  if p.cipherBytes + p.saltBytes ≠ key.length then throw .EINVAL
  let k := key.take p.cipherBytes
  let salt := key.drop p.cipherBytes
  if E.mem = false then throw .ENOMEM
  let rtp ← compInit E 0 k salt p.authBytes true p.hash p.mode
  let rtcp ← compInit E 3 k salt p.authBytes (!unencryptedSrtcp) p.hash p.mode
  return ⟨rtp, rtcp, []⟩

/-! ## The packet index -/

/-- `seq_diff`, in C `int` -/
def seqDiff (x y : UInt16) : Int := (y.toNat : Int) - (x.toNat : Int)

/-- The value of a C `int` expression: 32 bits, two's complement. -/
def int32 (n : Int) : Int := n.bmod (2 ^ 32)

/-- `v` is an `int`, so is `seq + v*65536`, and the result is that `int` converted to `uint64_t`. -/
def srtpGetIndex (roc : UInt32) (sL seq : UInt16) : UInt64 :=
  let v : Int := int32 <|
    if sL.toNat < 32768 then
      if (seq.toNat : Int) - sL.toNat > 32768 then ((roc - 1).toNat : Int) else roc.toNat
    else
      if (sL.toNat : Int) - 32768 > seq.toNat then ((roc + 1).toNat : Int) else roc.toNat
  UInt64.ofInt (int32 (seq.toNat + int32 (v * 65536)))

/-- The salt with the SSRC and the index added, 16 bytes. -/
def srtpIvCalc (kS : Bytes) (ssrc : UInt32) (ix : UInt64) : Bytes :=
  kS.take 4 ++ xorBytes (slice kS 4 4) (beBytes 4 ssrc.toNat) ++
    xorBytes (slice kS 8 4) (beBytes 4 (ix.toNat / 2 ^ 16)) ++
    xorBytes (slice kS 12 2) (beBytes 2 ix.toNat) ++ [0, 0]

/-- The 12 bytes GCM uses. -/
def srtpIvCalcGcm (kS : Bytes) (ssrc : UInt32) (ix : UInt64) : Bytes :=
  kS.take 2 ++ xorBytes (slice kS 2 2) (beBytes 2 (ssrc.toNat / 2 ^ 16)) ++
    xorBytes (slice kS 4 2) (beBytes 2 ssrc.toNat) ++
    xorBytes (slice kS 6 2) (beBytes 2 (ix.toNat / 2 ^ 32)) ++
    xorBytes (slice kS 8 2) (beBytes 2 (ix.toNat / 2 ^ 16)) ++
    xorBytes (slice kS 10 2) (beBytes 2 ix.toNat)

/-! ## The replay list -/

def srtpReplayInit : Replay := ⟨0, 0⟩

def srtpReplayCheck (r : Replay) (ix : UInt64) : Bool × Replay :=
  if ix > r.lix then
    let diff := ix - r.lix
    if diff < SRTP_WINDOW_SIZE then (true, ⟨r.bitmap <<< diff.toNat ||| 1#64, ix⟩)
    else (true, ⟨1#64, ix⟩)
  else
    let diff := r.lix - ix
    if diff ≥ SRTP_WINDOW_SIZE then (false, r)
    else if r.bitmap &&& 1#64 <<< diff.toNat ≠ 0 then (false, r)
    else (true, { r with bitmap := r.bitmap ||| 1#64 <<< diff.toNat })

/-! ## A call on a context

`srtp_encrypt` and its three siblings change the context and the buffer and return an error code.
`evs` records what a call did that neither shows: the packet index it worked with and the
integrity checks that succeeded, with all they covered. -/

inductive Ev
  | index (ssrc : UInt32) (roc : UInt32) (ix : UInt64)
  /-- The tag of the packet is the HMAC of `data`. -/
  | hmacOk (key data tag : Bytes)
  /-- `aes_authenticate` accepted the tag for the message. -/
  | gcmOk (op : AesOp) (tag : Bytes)
  deriving DecidableEq, Repr

structure Call where
  srtp : Session
  mb : Mbuf
  evs : List Ev
  deriving DecidableEq, Repr

abbrev CallM := EStateM Errno Call

def onMb {α : Type} (f : MbufM α) : CallM α := fun c =>
  match f c.mb with
  | .ok a mb => .ok a { c with mb }
  | .error e mb => .error e { c with mb }

/-- A lookup in the session, in a call: a failed one changes nothing. -/
def onSrtp {α : Type} (f : Session → Except Errno (α × Session)) : CallM α := fun c =>
  match f c.srtp with
  | .ok (a, srtp) => .ok a { c with srtp }
  | .error e => .error e c

def modMb (f : Mbuf → Mbuf) : CallM Unit := modify fun c => { c with mb := f c.mb }

def emit (e : Ev) : CallM Unit := modify fun c => { c with evs := c.evs ++ [e] }

/-! ## Streams -/

def Session.streamFind (srtp : Session) (ssrc : UInt32) : Option SrtpStream := srtp.streaml.find? (·.ssrc == ssrc)

/-- A change made through the pointer `stream_find` returned: to the first stream with the SSRC. -/
def modFirst (ssrc : UInt32) (f : SrtpStream → SrtpStream) : List SrtpStream → List SrtpStream
  | [] => []
  | s :: l => if s.ssrc == ssrc then f s :: l else s :: modFirst ssrc f l

def Session.modStream (srtp : Session) (ssrc : UInt32) (f : SrtpStream → SrtpStream) : Session :=
  { srtp with streaml := modFirst ssrc f srtp.streaml }

def modStream (ssrc : UInt32) (f : SrtpStream → SrtpStream) : CallM Unit :=
  modify fun c => { c with srtp := c.srtp.modStream ssrc f }

def SrtpStream.setSeq (seq : UInt16) (s : SrtpStream) : SrtpStream := { s with sL := seq, sLSet := true }

def newStream (ssrc : UInt32) : SrtpStream := ⟨srtpReplayInit, srtpReplayInit, ssrc, 0, 0, false, 0⟩

def streamNew (E : Env) (ssrc : UInt32) (srtp : Session) : Except Errno (SrtpStream × Session) :=
  if srtp.streaml.length ≥ SRTP_MAX_STREAMS then .error .ENOSR
  else if E.mem = false then .error .ENOMEM
  else .ok (newStream ssrc, { srtp with streaml := srtp.streaml ++ [newStream ssrc] })

def streamGet (E : Env) (ssrc : UInt32) (srtp : Session) : Except Errno (SrtpStream × Session) :=
  match srtp.streamFind ssrc with
  | some strm => .ok (strm, srtp)
  | none => streamNew E ssrc srtp

def streamGetSeq (E : Env) (ssrc : UInt32) (seq : UInt16) (srtp : Session) :
    Except Errno (SrtpStream × Session) :=
  match streamGet E ssrc srtp with
  | .error e => .error e
  | .ok (strm, srtp) =>
    -- Set the initial sequence number once only
    if strm.sLSet then .ok (strm, srtp)
    else .ok (strm.setSeq seq, srtp.modStream ssrc (·.setSeq seq))

/-! ## The calls to the library -/

def hmacDigest (E : Env) (key data : Bytes) : CallM Bytes := fun c =>
  if data.length = 0 then .error .EINVAL c
  else match E.hmac key data with
    | some md => .ok md c
    | none => .error .EPROTO c

/-- `aes_encr(aes, NULL, d)` or `aes_decr(aes, NULL, d)` -/
def aesAad (E : Env) (op : AesOp) (d : Bytes) : CallM AesOp := fun c =>
  if E.aad op d then .ok { op with aad := op.aad ++ d } c else .error .EPROTO c

/-- `aes_encr(aes, p, p, n)`, `p` at offset `i` of the buffer. -/
def aesEncr (E : Env) (op : AesOp) (i n : Nat) : CallM AesOp := fun c =>
  match E.encr op (slice c.mb.buf i n) with
  | some ct => .ok { op with text := op.text ++ ct } { c with mb := c.mb.poke i ct }
  | none => .error .EPROTO c

/-- `aes_decr(aes, p, p, n)`, `p` at offset `i` of the buffer. -/
def aesDecr (E : Env) (op : AesOp) (i n : Nat) : CallM AesOp := fun c =>
  match E.decr op (slice c.mb.buf i n) with
  | some pt => .ok { op with text := op.text ++ slice c.mb.buf i n } { c with mb := c.mb.poke i pt }
  | none => .error .EPROTO c

def aesGetAuthtag (E : Env) (op : AesOp) : CallM Bytes := fun c =>
  match E.tag op with
  | some tag => .ok tag c
  | none => .error .EPROTO c

def aesAuthenticate (E : Env) (op : AesOp) (tag : Bytes) : CallM Unit :=
  if E.verify op tag then emit (.gcmOk op tag) else throw .EAUTH

/-- `if (0 != memcmp(tag_calc, tag_pkt, tag_len)) return EAUTH;` -/
def checkTag (key data tagCalc tagPkt : Bytes) (tagLen : Nat) : CallM Unit :=
  if tagCalc.take tagLen = tagPkt then emit (.hmacOk key data tagPkt) else throw .EAUTH

/-- `if (!srtp_replay_check(&replay, ix)) return EALREADY;`, `replay` a list of the stream and `put`
the assignment to it. -/
def replayCheck (ssrc : UInt32) (replay : Replay) (put : Replay → SrtpStream → SrtpStream)
    (ix : UInt64) : CallM Unit := do
  modStream ssrc (put (srtpReplayCheck replay ix).2)
  if (srtpReplayCheck replay ix).1 then return () else throw .EALREADY

end BareRTC.Srtp
