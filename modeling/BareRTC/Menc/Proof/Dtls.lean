import BareRTC.Menc.Dtls
import BareRTC.Srtp.Proof.Crypto

/-!
# Components of the `dtls_srtp` module after `MENC_EVENT_SECURE`

A component reports `MENC_EVENT_SECURE` only for a peer whose certificate has the fingerprint of the
remote SDP (`verified`). Whether its packets then go through SRTP once depends on the helpers of
its socket: every completed handshake installs another one, also after the peer closed and came
back, and none is installed without memory, while the event is reported all the same. `Phase` lists
the sockets that a component has while neither happens (`Steady`): no helper, the one of DTLS, or
those of DTLS and SRTP. The last is the only one with the event reported, and there every packet is
transformed exactly once (`step_once`).
-/

namespace BareRTC.Dtls

open List

open Menc

/-! ## Runs of a media line -/

structure Line where
  sess : Sess
  st : Option Media
  secure : List CompId
  deriving DecidableEq, Repr

inductive In
  /-- A new remote SDP with this fingerprint. -/
  | remote (fingerprint : Option Bytes)
  | media (a : MediaArgs)
  | send (c : CompId) (E : Srtp.Env) (mb : Mbuf)
  | recv (c : CompId) (src : Sa) (tls : Tls) (E : Srtp.Env) (mb : Mbuf)
  | timeout (c : CompId)

inductive Out
  | remote
  | media (err : Option Errno)
  | sent (mb : Mbuf) (out : Bool) (err : Option Errno) (trs : List Transformed)
  | recvd (mb : Mbuf) (up : Bool) (trs : List Transformed) (ns : List Notice)
  | closed (ns : List Notice)
  | absent
  deriving DecidableEq, Repr

def secured (ns : List Notice) : List CompId :=
  ns.filterMap fun
    | .MENC_EVENT_SECURE c => some c
    | .error _ => none

def step (l : Line) : In → Line × Out
  | .remote fp => ({ l with sess := { l.sess with fingerprint := fp } }, .remote)
  | .media a =>
    let (st, err) := mediaAlloc l.sess a l.st
    ({ l with st }, .media err)
  | .send c E mb =>
    match l.st with
    | none => (l, .absent)
    | some st =>
      match (st.comp c).appSock with
      | none => (l, .absent)
      | some us =>
        let (p, out, err) := udpSend (sendHandler E) us ⟨st.comp c, mb, [], []⟩
        ({ l with st := some (st.setComp p.comp c) }, .sent p.mb out err p.trs)
  | .recv c src tls E mb =>
    match l.st with
    | none => (l, .absent)
    | some st =>
      match (st.comp c).appSock with
      | none => (l, .absent)
      | some us =>
        let (p, up) := udpRead (recvHandler l.sess st.active c src tls E) us ⟨st.comp c, mb, [], []⟩
        ({ l with st := some (st.setComp p.comp c), secure := l.secure ++ secured p.notices },
          .recvd p.mb up p.trs p.notices)
  | .timeout c =>
    match l.st with
    | none => (l, .absent)
    | some st =>
      match (st.comp c).tlsConn with
      | none => (l, .absent)
      | some _ =>
        let (comp, ns) := dtlsCloseHandler l.sess .ETIMEDOUT (st.comp c)
        ({ l with st := some (st.setComp comp c) }, .closed ns)

def Line.init (eventh errorh : Bool) : Line := ⟨⟨eventh, errorh, none⟩, none, []⟩

def Verified (l : Line) (i : In) : Prop :=
  match i, (step l i).2 with
  | .recv c _ tls _ _, .recvd _ _ _ ns => ∀ c', .MENC_EVENT_SECURE c' ∈ ns → c' = c ∧
      ∃ hash md, sdpFingerprintDecode l.sess.fingerprint (some 32) = .ok (hash, md) ∧
        strCaseEq hash (ascii "sha-256") ∧ md.length = 32 ∧ tls.peerDigest = some md
  | _, _ => True

def Once (l : Line) (i : In) : Prop :=
  match i, (step l i).2 with
  | .send c _ mb, .sent _ true _ trs => c ∈ l.secure → isRtpOrRtcp mb →
      ∃ st tx, l.st = some st ∧ (st.comp c).tx = some tx ∧ trs = [⟨encryptFn mb, tx⟩]
  | .recv c _ _ _ mb, .recvd _ true trs _ => c ∈ l.secure → isRtpOrRtcp mb →
      ∃ st rx, l.st = some st ∧ (st.comp c).rx = some rx ∧ trs = [⟨decryptFn mb, rx⟩]
  | _, _ => True

/-! ## Completed handshakes -/

def keyed (active : Bool) (tls : Tls) : Bool :=
  match tlsSrtpKeyinfo tls with
  | .error _ => false
  | .ok (suite, cliKey, srvKey) =>
    let keylen := getMasterKeylen (some suite)
    (srtpStreamAdd tls.txMem tls.tx suite ((if active then cliKey else srvKey).take keylen)).isOk &&
      (srtpStreamAdd tls.rxMem tls.rx suite ((if active then srvKey else cliKey).take keylen)).isOk

def finishes (sess : Sess) (active : Bool) (tls : Tls) (tc : TlsConn) : Bool :=
  tls.bioWrite && !tls.wasOk && !tc.up && tls.shake && tls.isOk &&
    verifyFingerprint sess.fingerprint tls && keyed active tls

def isDtls (mb : Mbuf) : Bool :=
  match mb.left with
  | [] => false
  | b :: _ => 20 ≤ b && b ≤ 63

def Comp.installed (comp : Comp) : Bool := (comp.appSock.getD []).any (·.kind == .srtp)

def Steady (l : Line) : In → Prop
  | .recv c src tls _ mb => ∀ st ∈ l.st, ∀ tc ∈ (st.comp c).tlsConn,
      tc.peer = src → isDtls mb → finishes l.sess st.active tls tc →
      (st.comp c).installed = false ∧ tls.helperMem
  | _ => True

instance (l : Line) (i : In) : Decidable (Steady l i) := by
  unfold Steady
  cases i <;> infer_instance

/-! ## What handling a packet does to a component -/

structure Comp.Same (comp comp' : Comp) : Prop where
  appSock : comp'.appSock = comp.appSock
  dtlsSock : comp'.dtlsSock = comp.dtlsSock
  tx : comp.tx ≠ none → comp'.tx ≠ none
  rx : comp.rx ≠ none → comp'.rx ≠ none

theorem Comp.Same.refl {comp : Comp} : comp.Same comp := ⟨rfl, rfl, id, id⟩

theorem Comp.Same.trans {c1 c2 c3 : Comp} (h : c1.Same c2) (h' : c2.Same c3) : c1.Same c3 where
  appSock := h'.appSock.trans h.appSock
  dtlsSock := h'.dtlsSock.trans h.dtlsSock
  tx := h'.tx ∘ h.tx
  rx := h'.rx ∘ h.rx

theorem Comp.Same.tlsConn {comp : Comp} {tc : Option TlsConn} :
    comp.Same { comp with tlsConn := tc } := ⟨rfl, rfl, id, id⟩

theorem orKeep_ne_none {old : Option Srtp.Session} (h : old ≠ none)
    (new : Except Errno Srtp.Session) : orKeep old new ≠ none := by
  cases new <;> simp [orKeep, h]

theorem secured_append (ns ns' : List Notice) : secured (ns ++ ns') = secured ns ++ secured ns' := filterMap_append

variable {err : Errno}

theorem secured_error {sess : Sess} : secured (sess.error err) = [] := by
  unfold Sess.error
  split <;> rfl

structure Comp.Quiet (comp : Comp) (r : Comp × List Notice) : Prop where
  same : comp.Same r.1
  secured : secured r.2 = []

theorem dtlsCloseHandler_quiet {sess : Sess} {comp : Comp} :
    comp.Quiet (dtlsCloseHandler sess err comp) := by
  refine ⟨.tlsConn, ?_⟩
  unfold dtlsCloseHandler
  split
  · rfl
  · exact secured_error

theorem connRead_quiet {sess : Sess} {tls : Tls} {comp : Comp} : comp.Quiet (connRead sess tls comp) := by
  unfold connRead
  split
  · exact ⟨.refl, rfl⟩
  all_goals exact dtlsCloseHandler_quiet

variable {tc : TlsConn} {comp : Comp} {secure : Prop} {mb : Mbuf} {c' : CompId} {l : Line} {st : Media}

section
variable (sess : Sess) (active : Bool) (c : CompId) (tls : Tls)

/-- A handshake with an unverified peer, or one that gives no keys, reports and installs nothing. -/
theorem dtlsEstabHandler_quiet
    (h : ¬ (verifyFingerprint sess.fingerprint tls ∧ keyed active tls)) :
    comp.Quiet (dtlsEstabHandler sess active c tls comp) := by
  unfold dtlsEstabHandler
  split
  · exact ⟨.refl, secured_error⟩
  rename_i hv
  split
  · exact ⟨.refl, rfl⟩
  rename_i suite cliKey srvKey hk
  dsimp only
  split
  · rename_i htx hrx
    refine absurd ⟨by simpa using hv, ?_⟩ h
    simp [keyed, hk, htx, hrx, Except.isOk, Except.toBool]
  · exact ⟨⟨rfl, rfl, (orKeep_ne_none · _), (orKeep_ne_none · _)⟩, rfl⟩

/-- Any other gives the component new contexts and installs another helper, if it can. -/
theorem dtlsEstabHandler_keyed (comp : Comp) (hv : verifyFingerprint sess.fingerprint tls)
    (hk : keyed active tls) : ∃ tx rx comp',
    comp' = { comp with negotiated := true, tx := some tx, rx := some rx } ∧
      dtlsEstabHandler sess active c tls comp =
        ((srtpInstall tls.helperMem comp').toOption.getD comp',
          if sess.eventh then [.MENC_EVENT_SECURE c] else []) := by
  unfold keyed at hk
  split at hk
  · cases hk
  rename_i suite cliKey srvKey hinfo
  simp only [Bool.and_eq_true] at hk
  obtain ⟨htx, hrx⟩ := hk
  cases etx : srtpStreamAdd tls.txMem tls.tx suite
      ((if active then cliKey else srvKey).take (getMasterKeylen (some suite))) with
  | error e => rw [etx] at htx; cases htx
  | ok tx =>
    cases erx : srtpStreamAdd tls.rxMem tls.rx suite
        ((if active then srvKey else cliKey).take (getMasterKeylen (some suite))) with
    | error e => rw [erx] at hrx; cases hrx
    | ok rx =>
      refine ⟨tx, rx, _, rfl, ?_⟩
      simp only [dtlsEstabHandler, hv, Bool.true_eq_false, if_false, hinfo, etx, erx, orKeep]

/-- **One packet of a connection**: unless it completes the handshake, nothing is reported or
installed. -/
theorem connRecv_quiet (h : finishes sess active tls tc = false) :
    comp.Quiet (connRecv sess active c tls tc comp) := by
  unfold connRecv
  split
  · exact dtlsCloseHandler_quiet
  split
  · exact connRead_quiet
  split
  · exact dtlsCloseHandler_quiet
  split
  · exact dtlsCloseHandler_quiet
  split
  · exact ⟨.refl, rfl⟩
  rename_i hbio hwas hup hshake hok
  have hno : ¬ (verifyFingerprint sess.fingerprint tls ∧ keyed active tls) := by
    rw [finishes] at h
    grind
  obtain ⟨hs, hn⟩ := dtlsEstabHandler_quiet sess active c tls hno
  obtain ⟨hs', hn'⟩ := connRead_quiet
  refine ⟨(Comp.Same.tlsConn).trans (hs.trans hs'), ?_⟩
  rw [secured_append, hn, hn']
  rfl

theorem connRecv_finishes (h : finishes sess active tls tc) :
    ∃ tx rx comp', comp' = Comp.mk comp.appSock comp.dtlsSock (some { tc with up := true })
        (some tx) (some rx) true ∧
      ((srtpInstall tls.helperMem comp').toOption.getD comp').Same (connRecv sess active c tls tc comp).1 ∧
      secured (connRecv sess active c tls tc comp).2 = if sess.eventh then [c] else [] := by
  simp only [finishes, Bool.and_eq_true, Bool.not_eq_true'] at h
  obtain ⟨⟨⟨⟨⟨⟨hbio, hwas⟩, hup⟩, hshake⟩, hok⟩, hv⟩, hk⟩ := h
  obtain ⟨tx, rx, comp', rfl, he⟩ := dtlsEstabHandler_keyed sess active c tls
    { comp with tlsConn := some { tc with up := true } } hv hk
  refine ⟨tx, rx, _, rfl, ?_⟩
  simp only [connRecv, hbio, hwas, hup, hshake, hok, he, Bool.true_eq_false, Bool.false_eq_true, if_false]
  refine ⟨(connRead_quiet).1, ?_⟩
  rw [secured_append, (connRead_quiet).2, append_nil]
  cases sess.eventh <;> rfl

end

variable {E : Srtp.Env}

theorem call_ne_none {fn : SrtpFn} {srtp : Option Srtp.Session} (h : srtp ≠ none)
    (mb : Mbuf) : (fn.call E srtp mb).1 ≠ none := by
  obtain ⟨s, rfl⟩ := Option.ne_none_iff_exists'.1 h
  rw [SrtpFn.call]
  split <;> simp

theorem sendHandler_same (E : Srtp.Env) (k : Kind) (p : Pkt) : p.comp.Same (sendHandler E k p).1.comp := by
  cases k with
  | dtls => exact .refl
  | srtp =>
    rw [sendHandler]
    split
    · exact .refl
    · exact ⟨rfl, rfl, (call_ne_none · _), id⟩

theorem sendLoop_same (E : Srtp.Env) (ks : List Kind) (p : Pkt) :
    p.comp.Same (sendLoop (sendHandler E) ks p).1.comp := by
  induction ks generalizing p with
  | nil => exact .refl
  | cons k ks ih =>
    simp only [sendLoop]
    split
    · exact sendHandler_same E k p
    · exact (sendHandler_same E k p).trans (ih _)

variable {p : Pkt}

theorem srtpRecvHandler_same :
    p.comp.Same (srtpRecvHandler E p).1.comp ∧ (srtpRecvHandler E p).1.notices = p.notices := by
  rw [srtpRecvHandler]
  split
  · exact ⟨.refl, rfl⟩
  · exact ⟨⟨rfl, rfl, id, (call_ne_none · _)⟩, rfl⟩

/-! ## Phases -/

def dtlsHelper : UdpHelper Kind := ⟨LAYER_DTLS, .dtls⟩
def srtpHelper : UdpHelper Kind := ⟨LAYER_SRTP, .srtp⟩

inductive Comp.Phase (comp : Comp) (secure : Prop) : Prop
  | absent (hs : ¬ secure) (h : comp.appSock = none)
  | idle (hs : ¬ secure) (h : comp.appSock = some [])
  | listening (hs : ¬ secure) (h : comp.appSock = some [dtlsHelper]) (hd : comp.dtlsSock)
  | protecting (h : comp.appSock = some [dtlsHelper, srtpHelper]) (hd : comp.dtlsSock)
      (htx : comp.tx ≠ none) (hrx : comp.rx ≠ none)

theorem Comp.Phase.same {comp' : Comp} (h : comp.Phase secure) (hs : comp.Same comp') : comp'.Phase secure := by
  cases h with
  | absent hn h => exact .absent hn (hs.appSock.trans h)
  | idle hn h => exact .idle hn (hs.appSock.trans h)
  | listening hn h hd => exact .listening hn (hs.appSock.trans h) (hs.dtlsSock.trans hd)
  | protecting h hd htx hrx =>
    exact .protecting (hs.appSock.trans h) (hs.dtlsSock.trans hd) (hs.tx htx) (hs.rx hrx)

theorem Comp.Phase.congr {p q : Prop} (h : comp.Phase p) (hpq : q ↔ p) : comp.Phase q := by
  obtain rfl : q = p := propext hpq
  exact h

theorem componentStart_phase (active : Bool) (a : Start)
    (h : comp.Phase secure) : (componentStart active a comp).1.Phase secure := by
  have hp := h
  cases h with
  | absent hn hsock =>
    rw [componentStart, hsock]
    exact hp
  | listening _ hsock hd | protecting hsock hd =>
    simp only [componentStart, hsock, hd, or_true, if_true]
    exact hp
  | idle hn hsock =>
    have hreg := @udpRegisterHelper_top Kind [] LAYER_DTLS (by simp) .dtls
    simp only [componentStart, hsock, hreg]
    split
    · exact hp
    split
    · exact hp
    · rename_i heq
      cases heq
    rename_i heq
    cases heq
    have hl : Comp.Phase { comp with appSock := some [dtlsHelper], dtlsSock := true } secure := .listening hn rfl rfl
    split
    · split
      · exact hl.same (.tlsConn)
      · exact hl
    · exact hl
    · exact hl

theorem dtlsRecvHandler_pass {sess : Sess} {active : Bool} {c : CompId} {src : Sa} {tls : Tls}
    {p : Pkt} (h : isDtls p.mb = false) : dtlsRecvHandler sess active c src tls p = (p, false) := by
  unfold dtlsRecvHandler
  unfold isDtls at h
  split
  · rfl
  rename_i b rest hb
  rw [hb] at h
  simp only [Bool.and_eq_false_iff, decide_eq_false_iff_not, UInt8.not_le] at h
  rw [if_pos h]

theorem isDtls_of_rtp (h : isRtpOrRtcp mb) : isDtls mb = false := by
  unfold isRtpOrRtcp at h
  unfold isDtls
  split
  · rfl
  rename_i b rest hb
  rw [hb] at h
  simp only [Bool.and_eq_true, decide_eq_true_eq, UInt8.lt_iff_toNat_lt] at h
  simp only [Bool.and_eq_false_iff, decide_eq_false_iff_not, UInt8.le_iff_toNat_le]
  right
  have : (127 : UInt8).toNat = 127 := rfl
  have : (63 : UInt8).toNat = 63 := rfl
  omega

section
variable (sess : Sess) (active : Bool) (c : CompId) (src : Sa) (tls : Tls)

theorem srtpInstall_listening (h : comp.appSock = some [dtlsHelper]) :
    srtpInstall true comp = .ok { comp with appSock := some [dtlsHelper, srtpHelper] } := by
  have hreg := @udpRegisterHelper_top Kind [dtlsHelper] LAYER_SRTP (by decide) .srtp
  simp only [srtpInstall, h, hreg, bind, Except.bind, pure, Except.pure]
  rfl

theorem connRecv_phase (hp : comp.Phase secure) (hsock : comp.appSock ≠ none ∧ comp.appSock ≠ some [])
    (hst : finishes sess active tls tc → comp.installed = false ∧ tls.helperMem) :
    (connRecv sess active c tls tc comp).1.Phase (secure ∨ secured (connRecv sess active c tls tc comp).2 ≠ []) := by
  by_cases hf : finishes sess active tls tc
  · obtain ⟨hinst, hmem⟩ := hst hf
    obtain ⟨tx, rx, comp', hc, hsame, hn⟩ := connRecv_finishes sess active c tls hf
    cases hp with
    | absent hs h => exact absurd h hsock.1
    | idle hs h => exact absurd h hsock.2
    | protecting h hd htx hrx => simp [Comp.installed, h, srtpHelper] at hinst
    | listening hs h hd =>
      have h' : comp'.appSock = some [dtlsHelper] := by rw [hc]; exact h
      rw [hmem, srtpInstall_listening h'] at hsame
      refine Comp.Phase.same (.protecting rfl ?_ ?_ ?_) hsame
      · rw [hc]; exact hd
      all_goals simp [hc, Except.toOption]
  · obtain ⟨hs, hn⟩ := connRecv_quiet sess active c tls (Bool.eq_false_iff.2 hf)
    rw [hn]
    exact (hp.same hs).congr (by simp)

theorem dtlsConnHandler_same : comp.Same (dtlsConnHandler tls src comp) := by
  unfold dtlsConnHandler
  split
  · exact .refl
  · exact .refl
  · exact .tlsConn

section
variable (hp : comp.Phase secure) (hst : ∀ tc ∈ comp.tlsConn, tc.peer = src → isDtls mb →
  finishes sess active tls tc → comp.installed = false ∧ tls.helperMem)
include hp hst

/-- **A DTLS packet** takes a component to the phase that goes with the events it reports. -/
theorem dtlsRecvHandler_phase (hsock : comp.appSock ≠ none ∧ comp.appSock ≠ some []) :
    let p := (dtlsRecvHandler sess active c src tls ⟨comp, mb, [], []⟩).1
    p.comp.Phase (secure ∨ secured p.notices ≠ []) := by
  have hquiet {comp' : Comp} (hs : comp.Same comp') : comp'.Phase (secure ∨ secured [] ≠ []) :=
    (hp.same hs).congr (by simp [secured])
  unfold dtlsRecvHandler
  split
  · exact hquiet (.refl)
  rename_i b rest hb
  split
  · exact hquiet (.refl)
  rename_i hrange
  have hd : isDtls mb := by simpa [isDtls, hb] using hrange
  split
  · rename_i tc htc
    obtain ⟨htc, hpeer⟩ := Option.filter_eq_some_iff.1 htc
    exact connRecv_phase sess active c tls hp hsock (hst tc htc (by simpa using hpeer) hd)
  · exact hquiet (dtlsConnHandler_same src tls)

theorem recvLoop_phase (hsock : comp.appSock ≠ none ∧ comp.appSock ≠ some []) (E : Srtp.Env) (n : Nat) :
    let p := (recvLoop (recvHandler sess active c src tls E) (.dtls :: .replicate n .srtp) ⟨comp, mb, [], []⟩).1
    p.comp.Phase (secure ∨ secured p.notices ≠ []) := by
  have hd := dtlsRecvHandler_phase sess active c src tls hp hst hsock
  simp only [recvLoop]
  split
  · exact hd
  refine recvLoop_inv (P := fun p : Pkt => p.comp.Phase (secure ∨ secured p.notices ≠ [])) (fun k hk p hp => ?_) hd
  obtain rfl := eq_of_mem_replicate hk
  obtain ⟨hsame, hns⟩ := srtpRecvHandler_same
  show (srtpRecvHandler E p).1.comp.Phase (secure ∨ secured (srtpRecvHandler E p).1.notices ≠ [])
  rw [hns]
  exact hp.same hsame

theorem udpRead_phase {us : UdpSock Kind} (hus : comp.appSock = some us) :
    let p := (udpRead (recvHandler sess active c src tls E) us ⟨comp, mb, [], []⟩).1
    p.comp.Phase (secure ∨ secured p.notices ≠ []) := by
  have hloop := recvLoop_phase sess active c src tls hp hst
  cases hp with
  | absent hs h => rw [h] at hus; cases hus
  | idle hs h =>
    obtain rfl : [] = us := Option.some.inj (h.symm.trans hus)
    exact .idle (by simpa [secured, udpRead, recvLoop] using hs) h
  | listening hs h hd =>
    obtain rfl : [dtlsHelper] = us := Option.some.inj (h.symm.trans hus)
    exact hloop (by simp [h]) E 0
  | protecting h hd htx hrx =>
    obtain rfl : [dtlsHelper, srtpHelper] = us := Option.some.inj (h.symm.trans hus)
    exact hloop (by simp [h]) E 1

end

theorem recvHandler_secured {k : Kind}
    (h : c' ∈ secured (recvHandler sess active c src tls E k p).1.notices) :
    c' ∈ secured p.notices ∨ c' = c ∧ verifyFingerprint sess.fingerprint tls := by
  cases k with
  | srtp => exact .inl ((srtpRecvHandler_same).2 ▸ h)
  | dtls =>
    change c' ∈ secured (dtlsRecvHandler sess active c src tls p).1.notices at h
    unfold dtlsRecvHandler at h
    split at h
    · exact .inl h
    split at h
    · exact .inl h
    split at h
    · rename_i tc htc
      dsimp only at h
      rw [secured_append, mem_append] at h
      refine h.imp_right fun h => ?_
      by_cases hf : finishes sess active tls tc
      · obtain ⟨_, _, _, -, -, hn⟩ := connRecv_finishes sess active c tls hf
        rw [hn] at h
        simp only [finishes, Bool.and_eq_true] at hf
        split at h
        · exact ⟨mem_singleton.1 h, hf.1.2⟩
        · cases h
      · rw [(connRecv_quiet sess active c tls (Bool.eq_false_iff.2 hf)).2] at h
        cases h
    · exact .inl h

theorem recvLoop_secured {ks : List Kind}
    (h : c' ∈ secured (recvLoop (recvHandler sess active c src tls E) ks p).1.notices) :
    c' ∈ secured p.notices ∨ c' = c ∧ verifyFingerprint sess.fingerprint tls :=
  recvLoop_inv (P := fun p' : Pkt => c' ∈ secured p'.notices → c' ∈ secured p.notices ∨ _)
    (fun _ _ _ ih h => (recvHandler_secured sess active c src tls h).elim ih .inr) .inl h

end

/-! ## Steps of a line -/

theorem Media.comp_setComp (c : CompId) : (st.setComp comp c).comp c = comp := by
  cases c <;> rfl

theorem Media.comp_setComp_ne {c : CompId} (h : c' ≠ c) :
    (st.setComp comp c).comp c' = st.comp c' := by
  cases c <;> cases c' <;> first | rfl | exact absurd rfl h

structure Line.Inv (l : Line) : Prop where
  phase : ∀ st ∈ l.st, ∀ c, (st.comp c).Phase (c ∈ l.secure)
  fresh : l.st = none → l.secure = []

theorem Line.init_inv {errorh : Bool} (eventh : Bool) : (Line.init eventh errorh).Inv where
  phase _ h := by cases h
  fresh _ := rfl

theorem Line.Inv.setComp (h : l.Inv) (hst : l.st = some st) {c : CompId} (ns : List Notice)
    (hp : comp.Phase (c ∈ l.secure ∨ secured ns ≠ []))
    (hc : ∀ c' ∈ secured ns, c' = c) :
    Line.Inv { l with st := some (st.setComp comp c), secure := l.secure ++ secured ns } := by
  refine ⟨fun st' hst' c' => ?_, fun h => by cases h⟩
  cases hst'
  by_cases hcc : c' = c
  · subst hcc
    rw [Media.comp_setComp]
    refine hp.congr ?_
    rw [mem_append]
    refine or_congr Iff.rfl ⟨ne_nil_of_mem, fun hne => ?_⟩
    obtain ⟨d, hd⟩ := exists_mem_of_ne_nil _ hne
    exact hc d hd ▸ hd
  · rw [Media.comp_setComp_ne hcc]
    refine (h.phase st hst c').congr ?_
    rw [mem_append]
    exact or_iff_left fun hm => hcc (hc c' hm)

theorem Line.Inv.same (h : l.Inv) (hst : l.st = some st) {c : CompId} (hs : (st.comp c).Same comp) :
    Line.Inv { l with st := some (st.setComp comp c) } := by
  have hp := ((h.phase st hst c).same hs).congr (q := c ∈ l.secure ∨ secured [] ≠ []) (by simp [secured])
  simpa [secured] using h.setComp hst [] hp (by simp [secured])

theorem mediaStart_phase (a : MediaArgs) {secure : List CompId} (h : ∀ c, (st.comp c).Phase (c ∈ secure)) (c : CompId) :
    ((mediaStart a st).1.comp c).Phase (c ∈ secure) := by
  unfold mediaStart
  split
  · exact h c
  split
  · exact h c
  have hrtp := componentStart_phase st.active a.rtp (h .rtp)
  have hrtcp : (if st.mux then (st.rtcp, none)
      else componentStart st.active a.rtcp st.rtcp).1.Phase (.rtcp ∈ secure) := by
    split
    · exact h .rtcp
    · exact componentStart_phase st.active a.rtcp (h .rtcp)
  dsimp only
  split <;> cases c <;> first | exact hrtp | exact hrtcp

variable {a : MediaArgs}

theorem mediaSetup_phase {sess : Sess} {secure : List CompId}
    (h : ∀ c, (st.comp c).Phase (c ∈ secure)) {c : CompId} :
    ((mediaSetup sess a st).1.comp c).Phase (c ∈ secure) := by
  have hmux (mux active : Bool) (c : CompId) : (({ st with mux, active } : Media).comp c).Phase (c ∈ secure) := by
    have := h c
    cases c <;> exact this
  unfold mediaSetup
  dsimp only
  split
  · exact hmux _ _ c
  rename_i setup hsetup
  have := mediaStart_phase a (hmux (!a.rtcpSock) (!strCaseEq setup (ascii "active"))) c
  split <;> exact this

theorem mediaNew_phase {a : MediaArgs} (h : mediaNew a = .ok st) {c : CompId} : (st.comp c).Phase False := by
  unfold mediaNew at h
  split at h
  · cases h
  split at h
  · cases h
  cases h
  cases c with
  | rtp => exact .idle id rfl
  | rtcp =>
    cases hr : a.rtcpSock with
    | true => exact .idle id (by simp [Media.comp])
    | false => exact .absent id (by simp [Media.comp])

theorem mediaAlloc_inv (h : l.Inv) : Line.Inv { l with st := (mediaAlloc l.sess a l.st).1 } := by
  cases hst : l.st with
  | some st =>
    refine ⟨fun st' h' c => ?_, fun h => by cases h⟩
    cases h'
    exact mediaSetup_phase (h.phase st hst)
  | none =>
    have hsec := h.fresh hst
    rw [mediaAlloc]
    split
    · exact ⟨fun _ h => (by cases h), fun _ => hsec⟩
    rename_i st hnew
    refine ⟨fun st' h' c => ?_, fun h => by cases h⟩
    cases h'
    exact mediaSetup_phase (fun c => (mediaNew_phase hnew).congr (by simp [hsec]))

theorem step_inv (l : Line) (i : In) (h : l.Inv) (hok : Steady l i) : (step l i).1.Inv := by
  cases i with
  | remote fp => exact ⟨h.phase, h.fresh⟩
  | media a => exact mediaAlloc_inv h
  | send c E mb =>
    rw [step]
    split
    · exact h
    rename_i st hst
    split
    · exact h
    · exact h.same hst (sendLoop_same E _ ⟨st.comp c, mb, [], []⟩)
  | recv c src tls E mb =>
    rw [step]
    split
    · exact h
    rename_i st hst
    split
    · exact h
    rename_i us hus
    refine h.setComp hst _ (udpRead_phase l.sess st.active c src tls (h.phase st hst c) (hok st hst) hus) ?_
    intro c' hc'
    rcases recvLoop_secured l.sess st.active c src tls hc' with hc' | ⟨rfl, -⟩
    · cases hc'
    · rfl
  | timeout c =>
    rw [step]
    split
    · exact h
    rename_i st hst
    split
    · exact h
    · exact h.same hst (dtlsCloseHandler_quiet).1

/-! ## What a secure component does -/

theorem Comp.Phase.of_secure (h : comp.Phase secure) (hs : secure) :
    comp.appSock = some [dtlsHelper, srtpHelper] ∧ ∃ tx rx, comp.tx = some tx ∧ comp.rx = some rx := by
  cases h with
  | absent hn | idle hn | listening hn => exact absurd hs hn
  | protecting h hd htx hrx =>
    obtain ⟨tx, htx⟩ := Option.ne_none_iff_exists'.1 htx
    obtain ⟨rx, hrx⟩ := Option.ne_none_iff_exists'.1 hrx
    exact ⟨h, tx, rx, htx, hrx⟩

theorem udpSend_once {tx : Srtp.Session} (htx : comp.tx = some tx) (hmb : isRtpOrRtcp mb)
    (hout : (udpSend (sendHandler E) [dtlsHelper, srtpHelper] ⟨comp, mb, [], []⟩).2.1) :
    (udpSend (sendHandler E) [dtlsHelper, srtpHelper] ⟨comp, mb, [], []⟩).1.trs = [⟨encryptFn mb, tx⟩] := by
  rcases hc : (encryptFn mb).call E (some tx) mb with ⟨tx', mb', err⟩
  have hs : sendHandler E .srtp ⟨comp, mb, [], []⟩ = (⟨{ comp with tx := tx' }, mb',
      if err = none then [⟨encryptFn mb, tx⟩] else [], []⟩, err.isSome, err) := by
    simp [sendHandler, hmb, hc, htx]
  change (sendLoop (sendHandler E) [.srtp, .dtls] _).2.1 at hout
  change (sendLoop (sendHandler E) [.srtp, .dtls] _).1.trs = _
  cases err with
  | some e =>
    rw [sendLoop_stop hs (by simp)] at hout
    cases hout
  | none =>
    rw [sendLoop_pass hs]
    rfl

theorem udpRead_once {sess : Sess} {active : Bool} {c : CompId} {src : Sa} {tls : Tls}
    {rx : Srtp.Session} (hrx : comp.rx = some rx)
    (hmb : isRtpOrRtcp mb)
    (hup : (udpRead (recvHandler sess active c src tls E) [dtlsHelper, srtpHelper] ⟨comp, mb, [], []⟩).2) :
    (udpRead (recvHandler sess active c src tls E) [dtlsHelper, srtpHelper]
      ⟨comp, mb, [], []⟩).1.trs = [⟨decryptFn mb, rx⟩] := by
  rcases hc : (decryptFn mb).call E (some rx) mb with ⟨rx', mb', err⟩
  have hd : recvHandler sess active c src tls E .dtls ⟨comp, mb, [], []⟩ =
      (⟨comp, mb, [], []⟩, false) :=
    dtlsRecvHandler_pass (isDtls_of_rtp hmb)
  have hs : recvHandler sess active c src tls E .srtp ⟨comp, mb, [], []⟩ =
      (⟨{ comp with rx := rx' }, mb', if err = none then [⟨decryptFn mb, rx⟩] else [], []⟩, err.isSome) := by
    simp [recvHandler, srtpRecvHandler, hmb, hc, hrx]
  change (recvLoop (recvHandler sess active c src tls E) [.dtls, .srtp] _).2 at hup
  change (recvLoop (recvHandler sess active c src tls E) [.dtls, .srtp] _).1.trs = _
  rw [recvLoop_pass hd] at hup ⊢
  cases err with
  | some e =>
    rw [recvLoop_stop hs] at hup
    cases hup
  | none =>
    rw [recvLoop_pass hs]
    rfl

theorem step_once (l : Line) (i : In) (h : l.Inv) : Once l i := by
  unfold Once
  split
  · rename_i c E mb mb' err trs hout
    intro hsec hmb
    cases hst : l.st with
    | none => simp [step, hst] at hout
    | some st =>
      obtain ⟨hsock, tx, rx, htx, -⟩ := (h.phase st hst c).of_secure hsec
      simp only [step, hst, hsock, Out.sent.injEq] at hout
      obtain ⟨-, hout, -, htrs⟩ := hout
      exact ⟨st, tx, rfl, htx, htrs ▸ udpSend_once htx hmb hout⟩
  · rename_i c src tls E mb mb' trs ns hout
    intro hsec hmb
    cases hst : l.st with
    | none => simp [step, hst] at hout
    | some st =>
      obtain ⟨hsock, tx, rx, -, hrx⟩ := (h.phase st hst c).of_secure hsec
      simp only [step, hst, hsock, Out.recvd.injEq] at hout
      obtain ⟨-, hup, htrs, -⟩ := hout
      exact ⟨st, rx, rfl, hrx, htrs ▸ udpRead_once hrx hmb hup⟩
  · trivial

/-! ## Fingerprints -/

theorem verifyFingerprint_digest {fp : Option Bytes} {tls : Tls} (h : verifyFingerprint fp tls) :
    ∃ hash md, sdpFingerprintDecode fp (some 32) = .ok (hash, md) ∧
      strCaseEq hash (ascii "sha-256") ∧ md.length = 32 ∧ tls.peerDigest = some md := by
  unfold verifyFingerprint at h
  split at h
  · cases h
  rename_i hash md hdec
  split at h
  · rename_i hhash
    cases hp : tls.peerDigest with
    | none => simp [tlsPeerFingerprint, hp] at h
    | some md' =>
      simp only [tlsPeerFingerprint, hp, Bool.and_eq_true, beq_iff_eq] at h
      exact ⟨hash, md, hdec, hhash, h.1, by rw [h.2]⟩
  · cases h

theorem mem_secured {ns : List Notice} {c : CompId} : c ∈ secured ns ↔ .MENC_EVENT_SECURE c ∈ ns := by
  unfold secured
  rw [mem_filterMap]
  exact ⟨fun ⟨n, hn, hc⟩ => by cases n <;> simp_all, fun h => ⟨_, h, rfl⟩⟩

/-- **The event is reported for verified peers only**, in any state. -/
theorem verified (l : Line) (i : In) : Verified l i := by
  unfold Verified
  split
  · rename_i c src tls E mb mb' up trs ns hout
    intro c' hc'
    cases hst : l.st with
    | none => simp [step, hst] at hout
    | some st =>
      cases hus : (st.comp c).appSock with
      | none => simp [step, hst, hus] at hout
      | some us =>
        simp only [step, hst, hus, Out.recvd.injEq] at hout
        rw [← hout.2.2.2, ← mem_secured] at hc'
        rcases recvLoop_secured l.sess st.active c src tls hc' with h | ⟨rfl, hv⟩
        · cases h
        · exact ⟨rfl, verifyFingerprint_digest hv⟩
  · trivial

/-- **Runs of a component**: while handshakes are completed only on components without an SRTP
helper and with memory for one, every peer reported secure is verified, and every packet after the
report goes through SRTP exactly once. -/
theorem verified_and_once (eventh errorh : Bool) (is : List In) (h : Along step Steady (.init eventh errorh) is) :
    Along step (fun l i => Verified l i ∧ Once l i) (.init eventh errorh) is :=
  along_of_inv step_inv (fun l i hl _ => ⟨verified l i, step_once l i hl⟩) is _ (Line.init_inv eventh) h

/-! ## Calls with one handshake, with two, and without memory -/

def peerDigest : Bytes := List.replicate 32 0xab

def answered : List In :=
  [.remote (some (ascii "sha-256 " ++ printFingerprint peerDigest)),
    .media ⟨true, none, false, some (ascii "active"), true, ⟨some 1, none, none⟩, ⟨none, none, none⟩, none⟩]

def peerTls (isOk helperMem : Bool) (read : SslRead) : Tls where
  accept := none
  bioWrite := true
  wasOk := false
  shake := true
  isOk := isOk
  peerDigest := some peerDigest
  profile := some .AES128_CM_SHA1_80
  keymat n := some (List.replicate n 0)
  txMem := true
  tx := Srtp.xorEnv
  rxMem := true
  rx := Srtp.xorEnv
  helperMem := helperMem
  read := read

def handshake (helperMem : Bool) (read : SslRead) : List In :=
  [.recv .rtp 1 (peerTls false true .WANT_READ) Srtp.xorEnv ⟨[22], 0, 1⟩,
    .recv .rtp 1 (peerTls true helperMem read) Srtp.xorEnv ⟨[22], 0, 1⟩]

def mediaPacket : Mbuf := ⟨[0x80, 0, 0, 1, 0, 0, 0, 0, 0, 0, 0, 7, 1, 2], 0, 14⟩

def oneHandshake : List In := answered ++ handshake true .ZERO_RETURN ++ [.send .rtp Srtp.xorEnv mediaPacket]

theorem verified_and_once_oneHandshake :
    Along step Steady (.init true true) oneHandshake ∧
      Along step (fun l i => Verified l i ∧ Once l i) (.init true true) oneHandshake :=
  ⟨by decide +kernel, verified_and_once true true oneHandshake (by decide +kernel)⟩

def Out.sentFns : Out → Option (List SrtpFn)
  | .sent _ true none trs => some (trs.map (·.fn))
  | _ => none

theorem not_once {c : CompId} {E : Srtp.Env} {fns : List SrtpFn} (hsec : c ∈ l.secure) (hmb : isRtpOrRtcp mb)
    (hfns : (step l (.send c E mb)).2.sentFns = some fns) (hne : fns ≠ [encryptFn mb]) :
    c ∈ l.secure ∧ (step l (.send c E mb)).2.sentFns = some fns ∧ ¬ Once l (.send c E mb) := by
  refine ⟨hsec, hfns, fun h => ?_⟩
  unfold Once at h
  unfold Out.sentFns at hfns
  split at hfns
  · rename_i mb' trs hout
    rw [hout] at h
    obtain ⟨st, tx, -, -, rfl⟩ := h hsec hmb
    cases hfns
    exact hne rfl
  · cases hfns

def reconnected : List In := answered ++ handshake true .ZERO_RETURN ++ handshake true .WANT_READ

def noHelper : List In := answered ++ handshake false .WANT_READ

/-- A packet sent after the second handshake is encrypted twice, and one sent without a helper is
not encrypted at all. -/
theorem secure_not_once :
    (CompId.rtp ∈ (exec step (.init true true) reconnected).secure ∧ (step (exec step (.init true true) reconnected)
        (.send .rtp Srtp.xorEnv mediaPacket)).2.sentFns = some [.srtpEncrypt, .srtpEncrypt] ∧
      ¬ Once (exec step (.init true true) reconnected) (.send .rtp Srtp.xorEnv mediaPacket)) ∧
    (CompId.rtp ∈ (exec step (.init true true) noHelper).secure ∧ (step (exec step (.init true true) noHelper)
        (.send .rtp Srtp.xorEnv mediaPacket)).2.sentFns = some [] ∧
      ¬ Once (exec step (.init true true) noHelper) (.send .rtp Srtp.xorEnv mediaPacket)) :=
  ⟨not_once (by decide +kernel) (by decide) (by decide +kernel) (by decide),
    not_once (by decide +kernel) (by decide) (by decide +kernel) (by decide)⟩

end BareRTC.Dtls
