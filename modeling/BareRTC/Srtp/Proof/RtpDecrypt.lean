import BareRTC.Srtp.Proof.Crypto
import BareRTC.Srtp.Proof.Index

/-!
# `srtp_decrypt`, from the index on

What the checks of a packet accept, what each exit leaves of the session (`decryptBody_exits`), and
what a failed call leaves behind.
-/

namespace BareRTC.Srtp

variable {E : Env} {comp : Comp} {c' : Call} {s : Session} {buf key : Bytes} {start pos e : Nat} {evs : List Ev}
  {ssrc roc : UInt32} {strm : SrtpStream} {ix : UInt64} {u : Unit} {seq : UInt16}

/-- The HMAC covers the packet before the tag and the ROC, which overwrites the tag. -/
theorem decryptHmac_ok (hk : comp.hmac = some key) (ht : 4 ≤ comp.tagLen) (hst : start ≤ pos) (he : e ≤ buf.length) :
    decryptHmac E comp start ssrc strm ix ⟨s, ⟨buf, pos, e⟩, evs⟩ = .ok u c' ↔
      comp.tagLen ≤ e - pos ∧ ∃ md data,
        data = slice buf start (e - comp.tagLen - start) ++ beBytes 4 strm.roc.toNat ∧
        E.hmac key data = some md ∧
        md.take comp.tagLen = slice buf (e - comp.tagLen) comp.tagLen ∧
        replayRtp ssrc strm ix ⟨s, ⟨overwrite buf (e - comp.tagLen) (beBytes 4 strm.roc.toNat), pos, e - comp.tagLen⟩,
          evs ++ [.hmacOk key data (slice buf (e - comp.tagLen) comp.tagLen)]⟩ = .ok u c' := by
  unfold decryptHmac
  simp only [hk]
  by_cases hl : comp.tagLen ≤ e - pos
  · have hdata : Mbuf.left ⟨overwrite buf (e - comp.tagLen) (beBytes 4 strm.roc.toNat), start,
        max (e - comp.tagLen) (e - comp.tagLen + 4)⟩ =
          slice buf start (e - comp.tagLen - start) ++ beBytes 4 strm.roc.toNat :=
      slice_overwrite_tail (by omega) (by dsimp only; omega) (by simp only [Mbuf.getLeft, length_beBytes]; omega)
    rw [bind_of_ok (onMb_of_ok (Mbuf.require_of_le hl)), get_bind, modMb_bind,
      bind_of_ok (onMb_of_ok (Mbuf.readMem_of_le (by simp only [Mbuf.getLeft, Mbuf.setPos]; omega))),
      modMb_bind, bind_of_ok (onMb_of_ok (Mbuf.writeU32_of_le
        (by simp only [Mbuf.setPos, Mbuf.setEnd]; omega))), modMb_bind, get_bind]
    simp only [Mbuf.setPos, Mbuf.setEnd, hdata, bind_eq_ok, hmacDigest_ok, modMb_bind, checkTag_ok]
    constructor
    · rintro ⟨md, _, ⟨-, hmd, rfl⟩, _, _, ⟨htag, rfl⟩, hr⟩
      exact ⟨hl, md, _, rfl, hmd, htag, hr⟩
    · rintro ⟨-, md, _, rfl, hmd, htag, hr⟩
      exact ⟨md, _, ⟨by simp, hmd, rfl⟩, (), _, ⟨htag, rfl⟩, hr⟩
  · rw [bind_of_error (onMb_of_error (Mbuf.require_of_lt (Nat.not_le.1 hl)))]
    simp [hl]

theorem decryptCipher_ctr_ok (hk : comp.aes = some key) (hm : comp.mode = .CTR) {c : Call} :
    decryptCipher E comp start ssrc strm ix c = .ok u c' ↔
      ∃ pt, E.decr (ctrOp comp key ssrc ix) c.mb.left = some pt ∧ c' = { c with mb := c.mb.poke c.mb.pos pt } := by
  unfold decryptCipher
  simp only [hk, hm, get_bind, bind_eq_ok, aesDecr_ok, pure_apply, EStateM.Result.ok.injEq]
  constructor
  · rintro ⟨_, _, ⟨pt, hpt, rfl, rfl⟩, _, rfl⟩
    exact ⟨pt, hpt, rfl⟩
  · rintro ⟨pt, hpt, rfl⟩
    exact ⟨_, _, ⟨pt, hpt, rfl, rfl⟩, trivial, rfl⟩

theorem decryptCipher_gcm_ok (hk : comp.aes = some key) (hm : comp.mode = .GCM) (he : e ≤ buf.length) (hp : pos ≤ e) :
    decryptCipher E comp start ssrc strm ix ⟨s, ⟨buf, pos, e⟩, evs⟩ = .ok u c' ↔
      ∃ hdr ct pt tag, hdr = slice buf start (pos - start) ∧
        ct = slice buf pos (e - GCM_TAGLEN - pos) ∧ tag = slice buf (e - GCM_TAGLEN) GCM_TAGLEN ∧
        GCM_TAGLEN ≤ e - pos ∧ E.aad (gcmOp comp key ssrc ix [] []) hdr ∧
        E.decr (gcmOp comp key ssrc ix hdr []) ct = some pt ∧
        E.verify (gcmOp comp key ssrc ix hdr ct) tag ∧
        replayRtp ssrc strm ix ⟨s, ⟨overwrite buf pos pt, pos, e - GCM_TAGLEN⟩,
          evs ++ [.gcmOk (gcmOp comp key ssrc ix hdr ct) tag]⟩ = .ok u c' := by
  have htag : ∀ op pt, GCM_TAGLEN ≤ e - pos →
      E.decr op (slice buf pos (e - GCM_TAGLEN - pos)) = some pt →
      slice (overwrite buf pos pt) (e - GCM_TAGLEN) GCM_TAGLEN = slice buf (e - GCM_TAGLEN) GCM_TAGLEN := by
    intro op pt hl hpt
    have hlen := E.length_decr _ _ _ hpt
    rw [length_slice (by omega)] at hlen
    exact slice_overwrite_after (by omega) (by omega)
  unfold decryptCipher
  simp only [hk, hm, get_bind, modMb_bind, bind_eq_ok, aesAad_ok, onMb_require_ok, aesDecr_ok, aesAuthenticate_ok]
  constructor
  · rintro ⟨_, _, ⟨ha, rfl, rfl⟩, _, _, ⟨hl, rfl⟩, _, _, ⟨pt, hpt, rfl, rfl⟩, _, _, ⟨hv, rfl⟩, hr⟩
    simp only [Mbuf.poke, Mbuf.setEnd] at hv hr
    rw [htag _ _ hl hpt] at hv hr
    exact ⟨_, _, pt, _, rfl, rfl, rfl, hl, ha, hpt, hv, hr⟩
  · rintro ⟨_, _, pt, _, rfl, rfl, rfl, hl, ha, hpt, hv, hr⟩
    rw [← htag _ _ hl hpt] at hv hr
    exact ⟨_, _, ⟨ha, rfl, rfl⟩, (), _, ⟨hl, rfl⟩, _, _, ⟨pt, hpt, rfl, rfl⟩, (), _, ⟨hv, rfl⟩, hr⟩

/-! ## Failing exits -/

theorem decryptHmac_tame : Tame ssrc strm (decryptHmac E comp start ssrc strm ix) := by
  unfold decryptHmac
  split
  · exact (Quiet.pure _).tame
  refine (Quiet.onMb _).bind_tame fun _ => Quiet.get.bind_tame fun _ => ?_
  refine (Quiet.modMb _).bind_tame fun _ => (Quiet.onMb _).bind_tame fun _ => ?_
  refine (Quiet.modMb _).bind_tame fun _ => (Quiet.onMb _).bind_tame fun _ => ?_
  refine (Quiet.modMb _).bind_tame fun _ => Quiet.get.bind_tame fun _ => ?_
  refine (Quiet.hmacDigest _ _).bind_tame fun _ => (Quiet.modMb _).bind_tame fun _ => ?_
  exact (Quiet.checkTag _ _ _ _ _).bind_tame fun _ => replayCheck_tame rfl

theorem decryptCipher_tame : Tame ssrc strm (decryptCipher E comp start ssrc strm ix) := by
  unfold decryptCipher
  split
  · exact (Quiet.pure _).tame
  · exact Quiet.get.bind_tame fun _ => ((Quiet.aesDecr _ _ _).bind fun _ => Quiet.pure _).tame
  refine Quiet.get.bind_tame fun _ => (Quiet.aesAad _ _).bind_tame fun _ => ?_
  refine (Quiet.onMb _).bind_tame fun _ => (Quiet.aesDecr _ _ _).bind_tame fun _ => ?_
  refine Quiet.get.bind_tame fun _ => (Quiet.aesAuthenticate _ _).bind_tame fun _ => ?_
  exact (Quiet.modMb _).bind_tame fun _ => replayCheck_tame rfl

theorem decryptCipher_ctr_keeps (hm : comp.mode = .CTR) :
    Keeps Call.srtp (decryptCipher E comp start ssrc strm ix) := by
  unfold decryptCipher
  rw [hm]
  split
  · exact Keeps.pure
  · exact Keeps.get.bind fun _ => (Quiet.aesDecr _ _ _).keeps.bind fun _ => Keeps.pure
  · rename_i h
    cases h

/-! ## Genuine packets -/

def Authentic (E : Env) (comp : Comp) (w : Bytes) (k : Nat) (ssrc roc : UInt32) (ix : UInt64) :
    Prop :=
  match comp.hmac, comp.aes with
  | some key, _ => k + comp.tagLen ≤ w.length ∧ ∃ md,
      E.hmac key (slice w 0 (w.length - comp.tagLen) ++ beBytes 4 roc.toNat) = some md ∧
      md.take comp.tagLen = slice w (w.length - comp.tagLen) comp.tagLen
  | none, some key => k + GCM_TAGLEN ≤ w.length ∧
      E.aad (gcmOp comp key ssrc ix [] []) (slice w 0 k) ∧
      (∃ pt, E.decr (gcmOp comp key ssrc ix (slice w 0 k) []) (slice w k (w.length - GCM_TAGLEN - k)) = some pt) ∧
      E.verify (gcmOp comp key ssrc ix (slice w 0 k) (slice w k (w.length - GCM_TAGLEN - k)))
        (slice w (w.length - GCM_TAGLEN) GCM_TAGLEN)
  | none, none => True

def Decrypts (E : Env) (comp : Comp) (w : Bytes) (k : Nat) (ssrc : UInt32) (ix : UInt64) : Prop :=
  match comp.hmac, comp.aes with
  | some _, some key => ∃ pt, E.decr (ctrOp comp key ssrc ix) (slice w k (w.length - comp.tagLen - k)) = some pt
  | _, _ => True

def decryptBody (E : Env) (comp : Comp) (start : Nat) (ssrc : UInt32) (seq : UInt16)
    (strm : SrtpStream) (ix : UInt64) : CallM Unit := do
  decryptHmac E comp start ssrc strm ix
  decryptCipher E comp start ssrc strm ix
  seqUpdate ssrc strm seq
  modMb (·.setPos start)

def SrtpStream.checkRtp (strm : SrtpStream) (ix : UInt64) (s : SrtpStream) : SrtpStream :=
  { s with replayRtp := (srtpReplayCheck strm.replayRtp ix).2 }

theorem replayRtp_ok {c : Call} :
    replayRtp ssrc strm ix c = .ok u c' ↔ (srtpReplayCheck strm.replayRtp ix).1 ∧
      c' = { c with srtp := c.srtp.modStream ssrc (strm.checkRtp ix) } := replayCheck_ok

theorem find_checkRtp (hs : s.streamFind ssrc = some strm) :
    (s.modStream ssrc (strm.checkRtp ix)).streamFind ssrc = some (strm.checkRtp ix strm) := by
  rw [streamFind_modStream (f := strm.checkRtp ix) (fun _ => rfl), hs]
  rfl

theorem seqUpdate_checkRtp {s' : Session} {mb : Mbuf} (hs : s.streamFind ssrc = some strm)
    (hs' : s' = s.modStream ssrc (strm.checkRtp ix)) :
    seqUpdate ssrc strm seq ⟨s', mb, evs⟩ = .ok () ⟨s'.modStream ssrc (SrtpStream.raised seq), mb, evs⟩ := by
  have hfind : s'.streamFind ssrc = some (strm.checkRtp ix strm) := hs' ▸ find_checkRtp hs
  exact seqUpdate_eq hfind rfl

theorem authentic_hmac {kA : Bytes} (hA : comp.hmac = some kA) (hst : start ≤ pos) (hp : pos ≤ e)
    (he : e ≤ buf.length) :
    Authentic E comp (slice buf start (e - start)) (pos - start) ssrc roc ix ↔
      comp.tagLen ≤ e - pos ∧ ∃ md,
        E.hmac kA (slice buf start (e - comp.tagLen - start) ++ beBytes 4 roc.toNat) = some md ∧
        md.take comp.tagLen = slice buf (e - comp.tagLen) comp.tagLen := by
  have hw : (slice buf start (e - start)).length = e - start := length_slice (by omega)
  unfold Authentic
  simp only [hA, hw]
  by_cases hl : comp.tagLen ≤ e - pos
  · rw [slice_slice (by omega), slice_slice (by omega), Nat.add_zero,
      show e - start - comp.tagLen = e - comp.tagLen - start by omega,
      show start + (e - comp.tagLen - start) = e - comp.tagLen by omega]
    have : pos - start + comp.tagLen ≤ e - start := by omega
    simp only [hl, this, true_and]
  · have : ¬ pos - start + comp.tagLen ≤ e - start := by omega
    simp only [hl, this, false_and]

theorem authentic_gcm {kE : Bytes} (hA : comp.hmac = none) (hE : comp.aes = some kE)
    (hst : start ≤ pos) (hp : pos ≤ e) (he : e ≤ buf.length) :
    Authentic E comp (slice buf start (e - start)) (pos - start) ssrc roc ix ↔
      GCM_TAGLEN ≤ e - pos ∧
        E.aad (gcmOp comp kE ssrc ix [] []) (slice buf start (pos - start)) ∧
        (∃ pt, E.decr (gcmOp comp kE ssrc ix (slice buf start (pos - start)) [])
          (slice buf pos (e - GCM_TAGLEN - pos)) = some pt) ∧
        E.verify (gcmOp comp kE ssrc ix (slice buf start (pos - start))
          (slice buf pos (e - GCM_TAGLEN - pos))) (slice buf (e - GCM_TAGLEN) GCM_TAGLEN) := by
  have hw : (slice buf start (e - start)).length = e - start := length_slice (by omega)
  unfold Authentic
  simp only [hA, hE, hw]
  by_cases hl : GCM_TAGLEN ≤ e - pos
  · rw [slice_slice (by omega), slice_slice (by omega), slice_slice (by omega), Nat.add_zero,
      show e - start - GCM_TAGLEN - (pos - start) = e - GCM_TAGLEN - pos by omega,
      show start + (e - start - GCM_TAGLEN) = e - GCM_TAGLEN by omega,
      show start + (pos - start) = pos by omega]
    have : pos - start + GCM_TAGLEN ≤ e - start := by omega
    simp only [hl, this, true_and]
  · have : ¬ pos - start + GCM_TAGLEN ≤ e - start := by omega
    simp only [hl, this, false_and]

theorem decryptHmac_none (hA : comp.hmac = none) {c : Call} : decryptHmac E comp start ssrc strm ix c = .ok () c := by
  unfold decryptHmac
  rw [hA]
  rfl

theorem decrypts_hmac {kA kE : Bytes} (hA : comp.hmac = some kA) (hE : comp.aes = some kE)
    (hst : start ≤ pos) (hp : pos ≤ e) (he : e ≤ buf.length) :
    Decrypts E comp (slice buf start (e - start)) (pos - start) ssrc ix ↔
      ∃ pt, E.decr (ctrOp comp kE ssrc ix) (slice buf pos (e - comp.tagLen - pos)) = some pt := by
  have hw : (slice buf start (e - start)).length = e - start := length_slice (by omega)
  unfold Decrypts
  simp only [hA, hE, hw]
  rw [slice_slice (by omega), show start + (pos - start) = pos by omega,
    show e - start - comp.tagLen - (pos - start) = e - comp.tagLen - pos by omega]

inductive Exits (auth fresh decr : Prop) (r : EStateM.Result Errno Call Unit)
    (kept entered : Session) : Prop
  | done (ha : auth) (hf : fresh) (hd : decr) (h : ∃ c', r = .ok () c')
  | refused {err : Errno} {c' : Call} (hn : ¬ (auth ∧ fresh)) (h : r = .error err c')
      (hc : c'.srtp = kept)
  | broken {err : Errno} {c' : Call} (ha : auth) (hf : fresh) (hn : ¬ decr) (h : r = .error err c')
      (hc : c'.srtp = entered)

theorem decryptBody_exits {suite : Suite} (hcomp : comp.For suite)
    (hs : s.streamFind ssrc = some strm) (hst : start ≤ pos) (hp : pos ≤ e) (he : e ≤ buf.length) :
    Exits (Authentic E comp (slice buf start (e - start)) (pos - start) ssrc strm.roc ix)
      (srtpReplayCheck strm.replayRtp ix).1
      (Decrypts E comp (slice buf start (e - start)) (pos - start) ssrc ix)
      (decryptBody E comp start ssrc seq strm ix ⟨s, ⟨buf, pos, e⟩, evs⟩) s
      (s.modStream ssrc (strm.checkRtp ix)) := by
  unfold decryptBody
  rcases hcomp.shape with ⟨-, kE, kA, hE, hA, hm, ht, -⟩ | ⟨-, kE, hE, hA, hm, -⟩
  · rw [authentic_hmac hA hst hp he, decrypts_hmac hA hE hst hp he]
    cases hh : decryptHmac E comp start ssrc strm ix ⟨s, ⟨buf, pos, e⟩, evs⟩ with
    | error err c' =>
      refine .refused ?_ (bind_of_error hh) (decryptHmac_tame.fails _ _ _ hs hh)
      rintro ⟨⟨hl, md, hmd, htag⟩, hfresh⟩
      cases hh.symm.trans ((decryptHmac_ok (u := ()) hA ht hst he).2
        ⟨hl, md, _, rfl, hmd, htag, replayRtp_ok.2 ⟨hfresh, rfl⟩⟩)
    | ok u c1 =>
      obtain ⟨hl, md, _, rfl, hmd, htag, hr⟩ := (decryptHmac_ok hA ht hst he).1 hh
      obtain ⟨hfresh, hc1⟩ := replayRtp_ok.1 hr
      have hleft : c1.mb.left = slice buf pos (e - comp.tagLen - pos) := by
        rw [hc1]
        exact slice_overwrite_before (by omega) (by dsimp only [Mbuf.getLeft]; omega)
      have hsrtp : c1.srtp = s.modStream ssrc (strm.checkRtp ix) := by rw [hc1]
      rw [bind_of_ok hh]
      cases hc : decryptCipher E comp start ssrc strm ix c1 with
      | ok u c2 =>
        obtain ⟨pt, hpt, rfl⟩ := (decryptCipher_ctr_ok hE hm).1 hc
        refine .done ⟨hl, md, hmd, htag⟩ hfresh ⟨pt, hleft ▸ hpt⟩ ?_
        rw [bind_of_ok hc, bind_of_ok (seqUpdate_checkRtp hs hsrtp)]
        exact ⟨_, rfl⟩
      | error err c2 =>
        refine .broken ⟨hl, md, hmd, htag⟩ hfresh ?_ (bind_of_error hc)
          (((decryptCipher_ctr_keeps hm).error hc).trans hsrtp)
        rintro ⟨pt, hpt⟩
        cases hc.symm.trans ((decryptCipher_ctr_ok (u := ()) hE hm).2 ⟨pt, hleft.symm ▸ hpt, rfl⟩)
  · rw [authentic_gcm hA hE hst hp he, bind_of_ok (decryptHmac_none hA)]
    have hdec : Decrypts E comp (slice buf start (e - start)) (pos - start) ssrc ix := by
      unfold Decrypts
      rw [hA]
      trivial
    cases hc : decryptCipher E comp start ssrc strm ix ⟨s, ⟨buf, pos, e⟩, evs⟩ with
    | ok u c2 =>
      obtain ⟨_, _, pt, _, rfl, rfl, rfl, hl, ha, hpt, hv, hr⟩ := (decryptCipher_gcm_ok hE hm he hp).1 hc
      obtain ⟨hfresh, rfl⟩ := replayRtp_ok.1 hr
      refine .done ⟨hl, ha, ⟨pt, hpt⟩, hv⟩ hfresh hdec ?_
      rw [bind_of_ok hc, bind_of_ok (seqUpdate_checkRtp hs rfl)]
      exact ⟨_, rfl⟩
    | error err c2 =>
      refine .refused ?_ (bind_of_error hc) (decryptCipher_tame.fails _ _ _ hs hc)
      rintro ⟨⟨hl, ha, ⟨pt, hpt⟩, hv⟩, hfresh⟩
      cases hc.symm.trans ((decryptCipher_gcm_ok (u := ()) hE hm he hp).2
        ⟨_, _, pt, _, rfl, rfl, rfl, hl, ha, hpt, hv, replayRtp_ok.2 ⟨hfresh, rfl⟩⟩)

end BareRTC.Srtp
