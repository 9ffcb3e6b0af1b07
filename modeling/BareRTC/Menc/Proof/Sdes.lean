import BareRTC.Menc.Sdes
import BareRTC.Srtp.Proof.Crypto

/-!
# Media lines of the `srtp` module after `MENC_EVENT_SECURE`

`start_srtp` ends with `st->use_srtp = false`, and nothing else writes the flag: `useSrtp` is
`false` in every state of every run (`step_inv`), so that neither handler ever calls an SRTP
function (`sendHandler_plain`, `recvHandler_plain`). A line keeps the promise of
`MENC_EVENT_SECURE` exactly while there is nothing to protect (`protected_iff_quiet`).
-/

namespace BareRTC.Sdes

open Menc

/-! ## Runs of a media line -/

structure Line where
  eventh : Bool
  st : Option MencSt
  secure : Bool
  deriving DecidableEq, Repr

inductive In
  | sdp (sdp : Sdp)
  | send (E : Srtp.Env) (mb : Mbuf)
  | recv (mb : Mbuf)

inductive Out
  | sdp (err : Option Errno) (evs : List MencEvent)
  /-- A packet leaves `send_handler` .. -/
  | sent (mb : Mbuf) (err : Option Errno) (tr : Option Transformed)
  /-- .. or `recv_handler`. -/
  | recvd (dropped : Bool) (mb : Mbuf) (tr : Option Transformed)
  | absent
  deriving DecidableEq, Repr

def step (l : Line) : In → Line × Out
  | .sdp sdp =>
    match mediaAlloc l.eventh sdp l.st with
    | .error e => (l, .sdp (some e) [])
    | .ok c => ({ l with st := some c.st, secure := l.secure || !c.evs.isEmpty }, .sdp none c.evs)
  | .send E mb =>
    match l.st with
    | none => (l, .absent)
    | some st =>
      let (st', mb', err, tr) := sendHandler E st mb
      ({ l with st := some st' }, .sent mb' err tr)
  | .recv mb =>
    match l.st with
    | none => (l, .absent)
    | some st =>
      let (dropped, mb', tr) := recvHandler st mb
      (l, .recvd dropped mb' tr)

def Line.init (eventh : Bool) : Line := ⟨eventh, none, false⟩

def Protected (l : Line) (i : In) : Prop :=
  l.secure →
    match i, (step l i).2 with
    | .send _ mb, .sent _ none tr => isRtpOrRtcp mb →
        ∃ st tx, l.st = some st ∧ st.srtpTx = some tx ∧ tr = some ⟨encryptFn mb, tx⟩
    | .recv mb, .recvd false _ tr => isRtpOrRtcp mb →
        ∃ st rx, l.st = some st ∧ st.srtpRx = some rx ∧ tr = some ⟨decryptFn mb, rx⟩
    | _, _ => True

def Quiet (l : Line) : In → Prop
  | .sdp _ => True
  | .send _ mb => l.secure → isRtpOrRtcp mb = false
  | .recv mb => l.secure → (∃ st, l.st = some st ∧ st.gotSdp) → isRtpOrRtcp mb = false

/-! ## The flag `use_srtp` -/

def StaysOff {α : Type} (x : CallM α) : Prop := Steps (fun c => c.st.useSrtp) (fun u u' => u = false → u' = false) x

variable {E : Srtp.Env}

namespace StaysOff

variable {α β : Type}

theorem bind {x : CallM α} {f : α → CallM β} (hx : StaysOff x) (hf : ∀ a, StaysOff (f a)) : StaysOff (x >>= f) :=
  Steps.bind (fun h1 h2 h => h2 (h1 h)) hx hf

theorem pure {a : α} : StaysOff (pure a) := fun _ => id
theorem throw {e : Errno} : StaysOff (throw e : CallM α) := fun _ => id
theorem get : StaysOff (get : CallM Call) := fun _ => id

theorem modSt {f : MencSt → MencSt} (h : ∀ st, st.useSrtp = false → (f st).useSrtp = false) :
    StaysOff (modSt f) := fun c => h c.st

theorem eventSecure : StaysOff eventSecure := by
  refine get.bind fun c => ?_
  split
  · exact fun _ => id
  · exact pure

theorem allocOnce {suite : Option Srtp.Suite} {key : Bytes}
    {cur : Option Srtp.Session} {put : Srtp.Session → MencSt → MencSt}
    (h : ∀ s st, (put s st).useSrtp = st.useSrtp) : StaysOff (allocOnce E suite key cur put) := by
  unfold Sdes.allocOnce
  split
  · exact pure
  split
  · exact modSt fun st hst => (h _ st).trans hst
  · exact throw

variable {env : AttrEnv} {suite : Option Bytes}

theorem startSrtp : StaysOff (startSrtp env suite) := by
  refine get.bind fun c => bind (allocOnce ?_) fun _ => bind (allocOnce ?_) fun _ =>
    bind (modSt ?_) fun _ => eventSecure
  all_goals exact fun _ _ => rfl

theorem sdpEnc {tag : UInt32} : StaysOff (sdpEnc env tag suite) := by
  refine modSt fun st h => ?_
  split <;> exact h

theorem startCrypto {keyInfo : Bytes} : StaysOff (startCrypto env keyInfo) := by
  unfold Sdes.startCrypto
  split
  · exact throw
  · refine bind (modSt ?_) fun _ => get.bind fun c => (startSrtp).bind fun _ => eventSecure
    exact fun _ h => h

theorem sdpAttrHandler (env : AttrEnv) (value : Bytes) : StaysOff (sdpAttrHandler env value) := by
  unfold Sdes.sdpAttrHandler
  split
  · exact throw
  split
  · exact throw
  split
  · exact throw
  refine bind (modSt ?_) fun _ => (startCrypto).bind fun _ =>
    get.bind fun c => sdpEnc
  exact fun _ h => h

end StaysOff

theorem applyCrypto_off (attrs : List (AttrEnv × Bytes)) (c : Call) (h : c.st.useSrtp = false) :
    (applyCrypto attrs c).st.useSrtp = false := by
  induction attrs generalizing c with
  | nil => exact h
  | cons a attrs ih =>
    obtain ⟨env, value⟩ := a
    rw [applyCrypto]
    split
    · rename_i u c' hc
      exact (StaysOff.sdpAttrHandler env value).ok hc h
    · rename_i e c' hc
      exact ih c' ((StaysOff.sdpAttrHandler env value).error hc h)

theorem mediaNew_off {eventh : Bool} {sdp : Sdp} {st : MencSt} (h : mediaNew eventh sdp = .ok st) :
    st.useSrtp = false := by
  unfold mediaNew at h
  split at h
  · cases h
  split at h
  · cases h
  split at h
  · cases h
  split at h
  · cases h
  cases h
  rfl

theorem mediaAlloc_off {eventh : Bool} {sdp : Sdp} {st : Option MencSt} {c : Call}
    (hst : ∀ s, st = some s → s.useSrtp = false) (h : mediaAlloc eventh sdp st = .ok c) :
    c.st.useSrtp = false := by
  have put (s : MencSt) (hs : s.useSrtp = false) :
      (applyCrypto sdp.crypto ⟨if sdp.rport ≠ 0 then { s with gotSdp := true } else s, []⟩).st.useSrtp = false := by
    refine applyCrypto_off _ _ ?_
    split <;> exact hs
  cases st with
  | some s =>
    cases h
    exact put s (hst s rfl)
  | none =>
    cases hnew : mediaNew eventh sdp with
    | error e => simp [mediaAlloc, hnew, bind, Except.bind] at h
    | ok s =>
      simp only [mediaAlloc, hnew, bind, Except.bind, pure, Except.pure, Except.ok.injEq] at h
      exact h ▸ put s (mediaNew_off hnew)

/-! ## Steps -/

variable {mb : Mbuf}

/-- **Neither handler ever transforms a packet** .. -/
theorem sendHandler_plain {st : MencSt} (h : st.useSrtp = false) :
    sendHandler E st mb = (st, mb, none, none) := by
  rw [sendHandler, if_pos (.inl h)]

/-- .. and `recv_handler` drops exactly what comes before a remote SDP. -/
theorem recvHandler_plain (st : MencSt) : recvHandler st mb = (!st.gotSdp, mb, none) := by
  unfold recvHandler
  cases st.gotSdp <;> simp

structure Line.Inv (l : Line) : Prop where
  off : ∀ st, l.st = some st → st.useSrtp = false
  /-- Only a state reports events, and it stays. -/
  alloc : l.secure → l.st ≠ none

theorem Line.init_inv (eventh : Bool) : (Line.init eventh).Inv where
  off _ h := by cases h
  alloc h := by cases h

theorem step_inv (l : Line) (i : In) (h : l.Inv) : (step l i).1.Inv := by
  cases i with
  | sdp sdp =>
    rw [step]
    split
    · exact h
    rename_i c hc
    refine ⟨fun st hst => ?_, fun _ => by simp⟩
    cases hst
    exact mediaAlloc_off h.off hc
  | send E mb =>
    rw [step]
    split
    · exact h
    rename_i st hst
    rw [sendHandler_plain (h.off st hst)]
    exact ⟨fun st' h' => by cases h'; exact h.off st hst, fun _ => by simp⟩
  | recv mb =>
    rw [step]
    split <;> exact h

theorem protected_iff_quiet (l : Line) (i : In) (h : l.Inv) : Protected l i ↔ Quiet l i := by
  cases i with
  | sdp sdp =>
    refine iff_of_true (fun _ => ?_) trivial
    split <;> trivial
  | send E mb =>
    refine forall_congr' fun hsec => ?_
    obtain ⟨st, hst⟩ := Option.ne_none_iff_exists'.1 (h.alloc hsec)
    simp [step, hst, sendHandler_plain (h.off st hst)]
  | recv mb =>
    refine forall_congr' fun hsec => ?_
    obtain ⟨st, hst⟩ := Option.ne_none_iff_exists'.1 (h.alloc hsec)
    cases hg : st.gotSdp <;> simp [step, hst, recvHandler_plain, hg]

/-- **What a secure line protects**: over every run, every RTP and RTCP packet after
`MENC_EVENT_SECURE` has been through SRTP if and only if there was no such packet. -/
theorem protected_iff (eventh : Bool) (is : List In) :
    Along step Protected (.init eventh) is ↔ Along step Quiet (.init eventh) is :=
  along_iff_of_ok (fun l i h _ => step_inv l i h) protected_iff_quiet is _ (Line.init_inv eventh)

/-! ## A call in the clear -/

def plainSdp : Sdp where
  zalloc := true
  altProtos := none
  helpers := none
  dup := true
  randKey := List.replicate 44 0
  rport := 5004
  crypto := [(⟨Srtp.xorEnv, Srtp.xorEnv, true, true⟩,
    ascii "1 AES_CM_128_HMAC_SHA1_80 inline:AAAAAAAAAAAAAAAAAAAAAAAAAAAAAAAAAAAAAAAA")]

def rtpPacket : Mbuf := ⟨[0x80, 0, 0, 1, 0, 0, 0, 0, 0, 0, 0, 7, 1, 2], 0, 14⟩

def plainCall : List In := [.sdp plainSdp, .send Srtp.xorEnv rtpPacket, .recv rtpPacket]

/-- Both events of the SDP are reported; then a packet is sent, and another received, as it is. -/
theorem secure_in_the_clear :
    outs step (.init true) plainCall =
        [.sdp none (List.replicate 2 (.MENC_EVENT_SECURE (some aes_cm_128_hmac_sha1_80))),
          .sent rtpPacket none none, .recvd false rtpPacket none] ∧
      ¬ Along step Protected (.init true) plainCall := by
  refine ⟨by decide +kernel, fun h => ?_⟩
  have hq := (along_iff_of_ok (fun l i h _ => step_inv l i h) protected_iff_quiet _ _ (Line.init_inv true)).1 h
  have hsec : (step (.init true) (.sdp plainSdp)).1.secure := by decide +kernel
  have hmb : isRtpOrRtcp rtpPacket = false := hq.2.1 hsec
  exact absurd hmb (by decide)

end BareRTC.Sdes
