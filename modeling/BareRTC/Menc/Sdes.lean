import BareRTC.Menc.Common
import BareRTC.Re.Base64

/-!
# The `srtp` module (`baresip/modules/srtp`: `srtp.c`, `sdes.c`)

SRTP with keys exchanged in SDP (SDES). A media line has one `menc_st`; `media_alloc` creates it,
and is called again for every new SDP. The remote `a=crypto` attributes are tried in order until
`sdp_attr_handler` accepts one.
-/

namespace BareRTC.Sdes

open Menc

/-! ## `sdes.c` -/

structure Crypto where
  tag : UInt32
  suite : Bytes
  keyMethod : Bytes
  keyInfo : Bytes
  lifetime : Bytes
  mki : Bytes
  sessPrms : Bytes
  deriving DecidableEq, Repr

def sdesDecodeCrypto (val : Bytes) : Except Errno Crypto := do
  match ← reRegex (ascii "[0-9]+ [^ ]+ [^ ]+[]*[^]*") val with
  | [tag, suite, keyPrms, _, sessPrms] =>
    match ← reRegex (ascii "[^:]+:[^|]+[|]*[^|]*[|]*[^|]*") keyPrms with
    | [keyMethod, keyInfo, _, lifetime, _, mki] =>
      return ⟨plU32 tag, suite, keyMethod, keyInfo, lifetime, mki, sessPrms⟩
    | _ => throw .EINVAL
  | _ => throw .EINVAL

def sdesEncodeCrypto (tag : UInt32) (suite key : Bytes) : Bytes :=
  ascii (toString tag.toNat) ++ ascii " " ++ suite ++ ascii " inline:" ++ key

/-! ## `srtp.c` -/

def aes_cm_128_hmac_sha1_32 : Bytes := ascii "AES_CM_128_HMAC_SHA1_32"
def aes_cm_128_hmac_sha1_80 : Bytes := ascii "AES_CM_128_HMAC_SHA1_80"
def aes_128_gcm : Bytes := ascii "AEAD_AES_128_GCM"
def aes_256_gcm : Bytes := ascii "AEAD_AES_256_GCM"

def preferredSuite : Bytes := aes_cm_128_hmac_sha1_80

def cryptosuiteIssupported (suite : Bytes) : Bool :=
  strCaseEq suite aes_cm_128_hmac_sha1_32 || strCaseEq suite aes_cm_128_hmac_sha1_80 ||
    strCaseEq suite aes_128_gcm || strCaseEq suite aes_256_gcm

/-- `none` is the value `-1`. -/
def resolveSuite : Option Bytes → Option Srtp.Suite
  | none => none
  | some suite =>
    if strCaseEq suite aes_cm_128_hmac_sha1_32 then some .AES_CM_128_HMAC_SHA1_32
    else if strCaseEq suite aes_cm_128_hmac_sha1_80 then some .AES_CM_128_HMAC_SHA1_80
    else if strCaseEq suite aes_128_gcm then some .AES_128_GCM
    else if strCaseEq suite aes_256_gcm then some .AES_256_GCM
    else none

/-- `struct menc_st`; the local `a=crypto` attribute of its media line is added. -/
structure MencSt where
  /-- Whether the session has an event handler. -/
  eventh : Bool
  keyTx : Bytes
  keyRx : Bytes
  srtpTx : Option Srtp.Session
  srtpRx : Option Srtp.Session
  useSrtp : Bool
  gotSdp : Bool
  cryptoSuite : Option Bytes
  lattr : Option Bytes
  deriving DecidableEq, Repr

def keyRxSize : Nat := 46

inductive MencEvent
  | MENC_EVENT_SECURE (prm : Option Bytes)
  deriving DecidableEq, Repr

/-- A call on the state; `evs` are the events it reported. -/
structure Call where
  st : MencSt
  evs : List MencEvent
  deriving DecidableEq, Repr

abbrev CallM := EStateM Errno Call

def modSt (f : MencSt → MencSt) : CallM Unit := modify fun c => { c with st := f c.st }

/-- What can fail while a `a=crypto` attribute is handled: the libraries for the two contexts,
`pl_strdup`, and the memory for the local attribute. -/
structure AttrEnv where
  tx : Srtp.Env
  rx : Srtp.Env
  dup : Bool
  lattr : Bool

def srtpAlloc (E : Srtp.Env) (suite : Option Srtp.Suite) (key : Bytes) :
    Except Errno Srtp.Session :=
  match suite with
  | none => .error .ENOTSUP
  | some suite => Srtp.srtpAlloc E suite key

/-- `re_snprintf(buf, ..)` never returns `0` here, so the event is reported if there is a
handler. -/
def eventSecure : CallM Unit := do
  if (← get).st.eventh then
    modify fun c => { c with evs := c.evs ++ [.MENC_EVENT_SECURE c.st.cryptoSuite] }

/-- `if (!st->srtp_tx) srtp_alloc(&st->srtp_tx, ..)`, and the same for `srtp_rx`. -/
def allocOnce (E : Srtp.Env) (suite : Option Srtp.Suite) (key : Bytes)
    (cur : Option Srtp.Session) (put : Srtp.Session → MencSt → MencSt) : CallM Unit :=
  match cur with
  | some _ => return ()
  | none =>
    match srtpAlloc E suite key with
    | .ok srtp => modSt (put srtp)
    | .error e => throw e

def startSrtp (env : AttrEnv) (suiteName : Option Bytes) : CallM Unit := do
  let suite := resolveSuite suiteName
  let len := getMasterKeylen suite
  let st := (← get).st
  allocOnce env.tx suite (st.keyTx.take len) st.srtpTx fun s st => { st with srtpTx := some s }
  allocOnce env.rx suite (st.keyRx.take len) st.srtpRx fun s st => { st with srtpRx := some s }
  -- use SRTP for this stream/session
  modSt fun st => { st with useSrtp := false }
  eventSecure

/-- Its result is not looked at. -/
def sdpEnc (env : AttrEnv) (tag : UInt32) (suite : Option Bytes) : CallM Unit :=
  modSt fun st =>
    match base64Encode (st.keyTx.take (getMasterKeylen (resolveSuite suite))) 128 with
    | .error _ => st
    | .ok key =>
      { st with lattr := if env.lattr then some (sdesEncodeCrypto tag (suite.getD []) key) else none }

def startCrypto (env : AttrEnv) (keyInfo : Bytes) : CallM Unit := do
  match base64Decode keyInfo keyRxSize with
  | .error e => throw e
  | .ok key =>
    modSt fun st => { st with keyRx := overwrite st.keyRx 0 key }
    -- a key of the wrong length only makes for a warning
    startSrtp env (← get).st.cryptoSuite
    eventSecure

/-- On a failure with what it did before. -/
def sdpAttrHandler (env : AttrEnv) (value : Bytes) : CallM Unit := do
  match sdesDecodeCrypto value with
  | .error e => throw e
  | .ok c =>
    if c.keyMethod ≠ ascii "inline" then throw .EINVAL
    else if cryptosuiteIssupported c.suite = false then throw .EINVAL
    else
      modSt fun st => { st with cryptoSuite := if env.dup then some c.suite else none }
      startCrypto env c.keyInfo
      sdpEnc env c.tag (← get).st.cryptoSuite

/-- `sdp_media_rattr_apply(st->sdpm, "crypto", sdp_attr_handler, st)` -/
def applyCrypto : List (AttrEnv × Bytes) → Call → Call
  | [], c => c
  | (env, value) :: attrs, c =>
    match sdpAttrHandler env value c with
    | .ok _ c => c
    | .error _ c => applyCrypto attrs c

/-- What a call of `media_alloc` finds: what the calls for a new state return, the random key, and
the remote SDP of the media line. -/
structure Sdp where
  zalloc : Bool
  altProtos : Option Errno
  helpers : Option Errno
  dup : Bool
  randKey : Bytes
  rport : UInt16
  crypto : List (AttrEnv × Bytes)

/-- The first part of `media_alloc`: the state, created if there is none. -/
def mediaNew (eventh : Bool) (sdp : Sdp) : Except Errno MencSt :=
  if sdp.zalloc = false then .error .ENOMEM
  else if let some e := sdp.altProtos then .error e
  else if let some e := sdp.helpers then .error e
  else if sdp.dup = false then .error .ENOMEM
  else .ok ⟨eventh, sdp.randKey, List.replicate keyRxSize 0, none, none, false, false, some preferredSuite, none⟩

def mediaAlloc (eventh : Bool) (sdp : Sdp) (st : Option MencSt) : Except Errno Call := do
  let st ← match st with
    | some st => pure st
    | none => mediaNew eventh sdp
  let st := if sdp.rport ≠ 0 then { st with gotSdp := true } else st
  return applyCrypto sdp.crypto ⟨st, []⟩

/-- It never stops a packet: the state and the packet after it, the error, and whether it
transformed the packet. -/
def sendHandler (E : Srtp.Env) (st : MencSt) (mb : Mbuf) :
    MencSt × Mbuf × Option Errno × Option Transformed :=
  if st.useSrtp = false ∨ isRtpOrRtcp mb = false then (st, mb, none, none)
  else
    let (tx, mb', err) := (encryptFn mb).call E st.srtpTx mb
    ({ st with srtpTx := tx }, mb', err, if err = none then st.srtpTx.map (⟨encryptFn mb, ·⟩) else none)

/-- Whether the packet is dropped. What follows its third `return` is not reached. -/
def recvHandler (st : MencSt) (mb : Mbuf) : Bool × Mbuf × Option Transformed :=
  if st.gotSdp = false then (true, mb, none)
  else if isRtpOrRtcp mb = false then (false, mb, none)
  else (false, mb, none)

end BareRTC.Sdes
