import BareRTC.Menc.Common
import BareRTC.Menc.Fingerprint
import BareRTC.Re.Udp

/-!
# The `dtls_srtp` module (`baresip/modules/dtls_srtp`, with `re/src/tls/openssl/tls_udp.c`)

SRTP with keys from a DTLS handshake on the media socket. A media line has a component for RTP and,
without multiplexing, one for RTCP, each on a socket of its own. The TLS library is abstract: `Tls`
is what its calls return while one packet is handled.
-/

namespace BareRTC.Dtls

open Menc

/-! ## State -/

abbrev Sa := Nat

structure TlsConn where
  active : Bool
  up : Bool
  peer : Sa
  deriving DecidableEq, Repr

inductive Kind
  | dtls | srtp
  deriving DecidableEq, Repr

def LAYER_SRTP : Int := 20
def LAYER_DTLS : Int := 20

/-- `struct comp`. The hash table of `dtls_sock` holds the connection `tls_conn` and no other. -/
structure Comp where
  appSock : Option (UdpSock Kind)
  dtlsSock : Bool
  tlsConn : Option TlsConn
  tx : Option Srtp.Session
  rx : Option Srtp.Session
  negotiated : Bool
  deriving DecidableEq, Repr

inductive CompId
  | rtp | rtcp
  deriving DecidableEq, Repr

structure Media where
  rtp : Comp
  rtcp : Comp
  started : Bool
  active : Bool
  mux : Bool
  deriving DecidableEq, Repr

def Media.comp (st : Media) : CompId → Comp
  | .rtp => st.rtp
  | .rtcp => st.rtcp

def Media.setComp (st : Media) (c : Comp) : CompId → Media
  | .rtp => { st with rtp := c }
  | .rtcp => { st with rtcp := c }

/-- `struct menc_sess`, with the remote `fingerprint` attribute of the media line. -/
structure Sess where
  eventh : Bool
  errorh : Bool
  fingerprint : Option Bytes
  deriving DecidableEq, Repr

inductive Notice
  | MENC_EVENT_SECURE (comp : CompId)
  | error (err : Errno)
  deriving DecidableEq, Repr

def Sess.error (sess : Sess) (err : Errno) : List Notice := if sess.errorh then [.error err] else []

/-! ## The TLS library -/

inductive SrtpProfile
  | AES128_CM_SHA1_80 | AES128_CM_SHA1_32 | AEAD_AES_128_GCM | AEAD_AES_256_GCM | other
  deriving DecidableEq, Repr

/-- How the loop over `SSL_read` ends. -/
inductive SslRead
  | WANT_READ | ZERO_RETURN | error | noMem
  deriving DecidableEq, Repr

structure Tls where
  /-- `dtls_accept`, for a packet of a new connection. -/
  accept : Option Errno
  /-- `BIO_write` takes the packet. -/
  bioWrite : Bool
  /-- `SSL_state(tc->ssl) == SSL_ST_OK` before the packet .. -/
  wasOk : Bool
  /-- `SSL_connect` or `SSL_accept` is done, or waits for more. -/
  shake : Bool
  /-- .. and after it. -/
  isOk : Bool
  peerDigest : Option Bytes
  profile : Option SrtpProfile
  /-- `SSL_export_keying_material` -/
  keymat : Nat → Option Bytes
  txMem : Bool
  tx : Srtp.Env
  rxMem : Bool
  rx : Srtp.Env
  /-- .. and the memory for the helper. -/
  helperMem : Bool
  read : SslRead

def tlsPeerFingerprint (tls : Tls) : Except Errno Bytes :=
  match tls.peerDigest with
  | none => .error .ENOENT
  | some md => .ok md

/-- The suite of a profile, with the sizes of its key and salt. -/
def SrtpProfile.sizes : SrtpProfile → Option (Srtp.Suite × Nat × Nat)
  | .AES128_CM_SHA1_80 => some (.AES_CM_128_HMAC_SHA1_80, 16, 14)
  | .AES128_CM_SHA1_32 => some (.AES_CM_128_HMAC_SHA1_32, 16, 14)
  | .AEAD_AES_128_GCM => some (.AES_128_GCM, 16, 12)
  | .AEAD_AES_256_GCM => some (.AES_256_GCM, 32, 12)
  | .other => none

/-- The suite and the keys of the client and the server. -/
def tlsSrtpKeyinfo (tls : Tls) : Except Errno (Srtp.Suite × Bytes × Bytes) :=
  match tls.profile with
  | none => .error .ENOENT
  | some sel =>
    match sel.sizes with
    | none => .error .ENOSYS
    | some (suite, keySize, saltSize) =>
      match tls.keymat (2 * (keySize + saltSize)) with
      | none => .error .ENOENT
      | some p => .ok (suite, slice p 0 keySize ++ slice p (2 * keySize) saltSize,
          slice p keySize keySize ++ slice p (2 * keySize + saltSize) saltSize)

/-! ## `srtp.c` -/

def srtpStreamAdd (mem : Bool) (E : Srtp.Env) (suite : Srtp.Suite) (key : Bytes) :
    Except Errno Srtp.Session :=
  if mem = false then .error .ENOMEM else Srtp.srtpAlloc E suite key

def srtpInstall (mem : Bool) (comp : Comp) : Except Errno Comp :=
  match comp.appSock with
  | none => .error .EINVAL
  | some us => do
    let us ← udpRegisterHelper mem us LAYER_SRTP .srtp
    return { comp with appSock := some us }

structure Pkt where
  comp : Comp
  mb : Mbuf
  trs : List Transformed
  notices : List Notice
  deriving DecidableEq, Repr

/-- The send handlers of the helpers; `dtls` has none of its own. -/
def sendHandler (E : Srtp.Env) : Kind → Pkt → Pkt × Bool × Option Errno
  | .dtls, p => (p, false, none)
  | .srtp, p =>
    if isRtpOrRtcp p.mb = false then (p, false, none)
    else
      let fn := encryptFn p.mb
      let (tx, mb, err) := fn.call E p.comp.tx p.mb
      let trs := if err = none then (p.comp.tx.map (⟨fn, ·⟩)).toList else []
      ({ p with comp := { p.comp with tx }, mb, trs := p.trs ++ trs }, err.isSome, err)

def srtpRecvHandler (E : Srtp.Env) (p : Pkt) : Pkt × Bool :=
  if isRtpOrRtcp p.mb = false then (p, false)
  else
    let fn := decryptFn p.mb
    let (rx, mb, err) := fn.call E p.comp.rx p.mb
    let trs := if err = none then (p.comp.rx.map (⟨fn, ·⟩)).toList else []
    ({ p with comp := { p.comp with rx }, mb, trs := p.trs ++ trs }, err.isSome)

/-! ## `dtls_srtp.c` -/

def verifyFingerprint (fingerprint : Option Bytes) (tls : Tls) : Bool :=
  match sdpFingerprintDecode fingerprint (some 32) with
  | .error _ => false
  | .ok (hash, mdSdp) =>
    if strCaseEq hash (ascii "sha-256") then
      match tlsPeerFingerprint tls with
      | .error _ => false
      | .ok mdDtls => mdSdp.length == 32 && mdSdp == mdDtls
    else false

def orKeep (old : Option Srtp.Session) : Except Errno Srtp.Session → Option Srtp.Session
  | .ok s => some s
  | .error _ => old

def dtlsEstabHandler (sess : Sess) (active : Bool) (i : CompId) (tls : Tls) (comp : Comp) :
    Comp × List Notice :=
  if verifyFingerprint sess.fingerprint tls = false then (comp, sess.error .EPIPE)
  else
    match tlsSrtpKeyinfo tls with
    | .error _ => (comp, [])
    | .ok (suite, cliKey, srvKey) =>
      let keylen := getMasterKeylen (some suite)
      let tx := srtpStreamAdd tls.txMem tls.tx suite ((if active then cliKey else srvKey).take keylen)
      let rx := srtpStreamAdd tls.rxMem tls.rx suite ((if active then srvKey else cliKey).take keylen)
      let comp := { comp with negotiated := true, tx := orKeep comp.tx tx, rx := orKeep comp.rx rx }
      match tx, rx with
      | .ok _, .ok _ =>
        -- a failed `srtp_install` only makes for a warning
        ((srtpInstall tls.helperMem comp).toOption.getD comp, if sess.eventh then [.MENC_EVENT_SECURE i] else [])
      | _, _ => (comp, [])

/-- From `conn_close` -/
def dtlsCloseHandler (sess : Sess) (err : Errno) (comp : Comp) : Comp × List Notice :=
  ({ comp with tlsConn := none }, if comp.negotiated then [] else sess.error err)

/-- The end of `conn_recv`: reading what the connection carries. -/
def connRead (sess : Sess) (tls : Tls) (comp : Comp) : Comp × List Notice :=
  match tls.read with
  | .WANT_READ => (comp, [])
  | .ZERO_RETURN => dtlsCloseHandler sess .ECONNRESET comp
  | .error => dtlsCloseHandler sess .EPROTO comp
  | .noMem => dtlsCloseHandler sess .ENOMEM comp

def connRecv (sess : Sess) (active : Bool) (i : CompId) (tls : Tls) (tc : TlsConn) (comp : Comp) :
    Comp × List Notice :=
  if tls.bioWrite = false then dtlsCloseHandler sess .ENOMEM comp
  else if tls.wasOk then connRead sess tls comp
  else if tc.up then dtlsCloseHandler sess .EPROTO comp
  else if tls.shake = false then dtlsCloseHandler sess .EPROTO comp
  else if tls.isOk = false then (comp, [])
  else
    let (comp, ns) := dtlsEstabHandler sess active i tls { comp with tlsConn := some { tc with up := true } }
    let (comp, ns') := connRead sess tls comp
    (comp, ns ++ ns')

def dtlsConnHandler (tls : Tls) (src : Sa) (comp : Comp) : Comp :=
  match comp.tlsConn, tls.accept with
  | some _, _ => comp
  | none, some _ => comp
  | none, none => { comp with tlsConn := some ⟨false, false, src⟩ }

/-- `recv_handler` of `tls_udp.c` -/
def dtlsRecvHandler (sess : Sess) (active : Bool) (i : CompId) (src : Sa) (tls : Tls) (p : Pkt) :
    Pkt × Bool :=
  match p.mb.left with
  | [] => (p, false)
  | b :: _ =>
    if b < 20 ∨ b > 63 then (p, false)
    else
      match p.comp.tlsConn.filter (·.peer == src) with
      | some tc =>
        let (comp, ns) := connRecv sess active i tls tc p.comp
        ({ p with comp, notices := p.notices ++ ns }, true)
      | none => ({ p with comp := dtlsConnHandler tls src p.comp }, true)

def recvHandler (sess : Sess) (active : Bool) (i : CompId) (src : Sa) (tls : Tls) (E : Srtp.Env) :
    Kind → Pkt → Pkt × Bool
  | .dtls => dtlsRecvHandler sess active i src tls
  | .srtp => srtpRecvHandler E

/-- What `component_start` finds: the remote address, and the results of its calls. -/
structure Start where
  raddr : Option Sa
  listen : Option Errno
  connect : Option Errno
  deriving DecidableEq, Repr

def componentStart (active : Bool) (a : Start) (comp : Comp) : Comp × Option Errno :=
  match comp.appSock with
  | none => (comp, none)
  | some us =>
    if comp.negotiated ∨ comp.dtlsSock then (comp, none)
    else
      match a.listen, udpRegisterHelper true us LAYER_DTLS .dtls with
      | some e, _ => (comp, some e)
      | none, .error e => (comp, some e)
      | none, .ok us =>
        let comp := { comp with appSock := some us, dtlsSock := true }
        match a.raddr, a.connect with
        | some raddr, none =>
          if active ∧ comp.tlsConn = none then
            ({ comp with tlsConn := some ⟨true, false, raddr⟩ }, none)
          else (comp, none)
        | some _, some e => (comp, if active ∧ comp.tlsConn = none then some e else none)
        | none, _ => (comp, none)

structure MediaArgs where
  zalloc : Bool
  altProtos : Option Errno
  /-- A socket for RTCP is given. -/
  rtcpSock : Bool
  setup : Option Bytes
  hasMedia : Bool
  rtp : Start
  rtcp : Start
  lattr : Option Errno
  deriving DecidableEq, Repr

def mediaStart (a : MediaArgs) (st : Media) : Media × Option Errno :=
  if st.started then (st, none)
  else if a.hasMedia = false then (st, none)
  else
    let (rtp, e₁) := componentStart st.active a.rtp st.rtp
    let (rtcp, e₂) := if st.mux then (st.rtcp, none) else componentStart st.active a.rtcp st.rtcp
    let st := { st with rtp, rtcp }
    -- the code is `e₁ | e₂`; only whether there is one matters
    match e₁.or e₂ with
    | some e => (st, some e)
    | none => ({ st with started := true }, none)

def mediaNew (a : MediaArgs) : Except Errno Media :=
  if a.zalloc = false then .error .ENOMEM
  else if let some e := a.altProtos then .error e
  else .ok ⟨⟨some [], false, none, none, none, false⟩,
    ⟨if a.rtcpSock then some [] else none, false, none, none, none, false⟩, false, false, false⟩

def answerFingerprint (sess : Sess) (a : MediaArgs) : Option Errno :=
  if sess.fingerprint = none then none
  else
    match sdpFingerprintDecode sess.fingerprint none with
    | .error e => some e
    | .ok (hash, _) => if strCaseEq hash (ascii "SHA-256") then a.lattr else some .EPROTO

/-- The part of `media_alloc` from the label `setup` on. -/
def mediaSetup (sess : Sess) (a : MediaArgs) (st : Media) : Media × Option Errno :=
  let st := { st with mux := !a.rtcpSock }
  match a.setup with
  | none => (st, answerFingerprint sess a)
  | some setup =>
    let (st, err) := mediaStart a { st with active := !strCaseEq setup (ascii "active") }
    match err with
    | some e => (st, some e)
    | none => (st, answerFingerprint sess a)

def mediaAlloc (sess : Sess) (a : MediaArgs) : Option Media → Option Media × Option Errno
  | some st =>
    let (st, err) := mediaSetup sess a st
    (some st, err)
  | none =>
    match mediaNew a with
    | .error e => (none, some e)
    | .ok st =>
      let (st, err) := mediaSetup sess a st
      (some st, err)

end BareRTC.Dtls
