import BareRTC.Re.Content
import BareRTC.Srtp.Proof.RtpFail

/-!
# Sealed RTP packets

`Sealed .. a p y`: `y` is what `srtp_encrypt` makes of a packet with the payload `p` after the
bytes `a`, for a ROC and an index. `encrypt_seals`: its cipher and HMAC blocks do so;
`decrypt_opens`: with the same ROC and index, `srtp_decrypt` gets `a ++ p` back.
-/

namespace BareRTC.Srtp

open List

inductive Sealed (E : Env) (comp : Comp) (start : Nat) (ssrc roc : UInt32) (ix : UInt64)
    (a p : Bytes) : Bytes → Prop
  | ctr {kE kA ct md : Bytes} (hE : comp.aes = some kE) (hA : comp.hmac = some kA)
      (hm : comp.mode = .CTR) (hct : E.encr (ctrOp comp kE ssrc ix) p = some ct)
      (hmd : E.hmac kA ((a ++ ct).drop start ++ beBytes 4 roc.toNat) = some md) :
      Sealed E comp start ssrc roc ix a p (a ++ ct ++ md.take comp.tagLen)
  | gcm {kE ct tag : Bytes} (hE : comp.aes = some kE) (hA : comp.hmac = none)
      (hm : comp.mode = .GCM) (hct : E.encr (gcmOp comp kE ssrc ix (a.drop start) []) p = some ct)
      (htag : E.tag (gcmOp comp kE ssrc ix (a.drop start) ct) = some tag) :
      Sealed E comp start ssrc roc ix a p (a ++ ct ++ tag)

variable {E : Env} {comp : Comp} {suite : Suite} {s srtp : Session} {mb mb' mb1 : Mbuf} {evs : List Ev}
  {a p x y : Bytes} {start : Nat} {ssrc roc : UInt32} {ix : UInt64} {strm : SrtpStream} {hdr : RtpHeader}

theorem Sealed.length_le (h : Sealed E comp start ssrc roc ix a p y) :
    (a ++ p).length ≤ y.length ∧ y.take a.length = a := by
  cases h with
  | ctr _ _ _ hct _ | gcm _ _ _ hct _ =>
    have := E.length_encr _ _ _ hct
    simp only [length_append]
    exact ⟨by omega, by simp⟩

/-! ## Sealing -/

theorem slice_payload (h : mb.Holds (a ++ p) a.length) : slice mb.buf mb.pos mb.getLeft = p := by
  have := h.left
  rw [drop_left] at this
  exact this

theorem aesEncr_payload (hE : E.Correct) (op : AesOp) (hmb : mb.Holds (a ++ p) a.length) (s : Session) :
    ∃ ct mb', E.encr op p = some ct ∧
      aesEncr E op mb.pos mb.getLeft ⟨s, mb, evs⟩ = .ok { op with text := op.text ++ ct } ⟨s, mb', evs⟩ ∧
      mb'.Holds (a ++ ct) a.length := by
  obtain ⟨ct, hct, -⟩ := hE.encr op p
  have hlen := E.length_encr _ _ _ hct
  refine ⟨ct, mb.poke mb.pos ct, hct, ?_, ?_⟩
  · exact aesEncr_ok.2 ⟨ct, by rw [slice_payload hmb]; exact hct, rfl, rfl⟩
  have hpoke := hmb.poke (i := mb.pos) (d := ct) (by rw [hmb.pos]; simp [hlen])
  have hover : overwrite (a ++ p) mb.pos ct = a ++ ct := by
    simpa using overwrite_append (c := []) (x := p) hmb.pos hlen
  rwa [hover] at hpoke

theorem slice_header (hmb : mb.Holds (a ++ p) a.length) (hst : start ≤ a.length) :
    slice mb.buf start (mb.pos - start) = a.drop start := by
  rw [hmb.slice (by rw [hmb.pos, length_append]; omega), hmb.pos, slice_append_left hst rfl]

theorem encryptCipher_ctr (hE : E.Correct) {kE : Bytes} (hk : comp.aes = some kE)
    (hm : comp.mode = .CTR) (hmb : mb.Holds (a ++ p) a.length) :
    ∃ ct mb', E.encr (ctrOp comp kE ssrc ix) p = some ct ∧
      encryptCipher E comp start ssrc ix ⟨s, mb, evs⟩ = .ok () ⟨s, mb', evs⟩ ∧
      mb'.Holds (a ++ ct) a.length := by
  obtain ⟨ct, mb', hct, hrun, hmb'⟩ := aesEncr_payload hE (ctrOp comp kE ssrc ix) hmb s
  refine ⟨ct, mb', hct, ?_, hmb'⟩
  unfold encryptCipher
  simp only [hk, hm, get_bind]
  exact bind_eq_ok.2 ⟨_, _, hrun, rfl⟩

theorem encryptHmac_ok (hE : E.Correct) {kA : Bytes} (hk : comp.hmac = some kA)
    {q : Nat} (hmb : mb.Holds x q) (hst : start ≤ x.length) :
    ∃ md mb', E.hmac kA (x.drop start ++ beBytes 4 roc.toNat) = some md ∧
      encryptHmac E comp start roc ⟨s, mb, evs⟩ = .ok () ⟨s, mb', evs⟩ ∧
      mb'.Holds (x ++ md.take comp.tagLen) (x ++ md.take comp.tagLen).length := by
  obtain ⟨md, hmd⟩ := hE.hmac kA (x.drop start ++ beBytes 4 roc.toNat)
  obtain ⟨mb1, hw1, hmb1⟩ := hmb.append (beBytes 4 roc.toNat)
  have hle : x.length ≤ (x ++ beBytes 4 roc.toNat).length := by simp
  have hmb2 := (hmb1.setPos (q := x.length) hle).setEnd hle (Nat.le_refl _)
  rw [take_left] at hmb2
  obtain ⟨mb3, hw3, hmb3⟩ := hmb2.writeMem_end
  refine ⟨md, mb3, hmd, ?_, hmb3⟩
  have hroc : Mbuf.writeU32 E.mem roc (mb.setPos mb.endPos) = .ok () mb1 := by
    rw [Mbuf.writeU32, hE.mem]
    exact hw1
  have hdata : (mb1.setPos start).left = x.drop start ++ beBytes 4 roc.toNat := by
    rw [(hmb1.setPos (by omega)).left, drop_append_of_le_length hst]
  unfold encryptHmac
  simp only [hk, get_bind, modMb_bind]
  rw [bind_of_ok (onMb_of_ok hroc), modMb_bind, get_bind]
  dsimp only
  rw [hdata, bind_of_ok (hmacDigest_ok.2 ⟨by simp, hmd, rfl⟩), modMb_bind, hE.mem, hmb.endPos]
  exact onMb_of_ok hw3

theorem encryptCipher_gcm (hE : E.Correct) {kE : Bytes} (hk : comp.aes = some kE)
    (hm : comp.mode = .GCM) (hmb : mb.Holds (a ++ p) a.length) (hst : start ≤ a.length) :
    ∃ ct tag mb', E.encr (gcmOp comp kE ssrc ix (a.drop start) []) p = some ct ∧
      E.tag (gcmOp comp kE ssrc ix (a.drop start) ct) = some tag ∧
      encryptCipher E comp start ssrc ix ⟨s, mb, evs⟩ = .ok () ⟨s, mb', evs⟩ ∧
      mb'.Holds (a ++ ct ++ tag) (a ++ ct ++ tag).length := by
  obtain ⟨ct, mb1, hct, hrun, hmb1⟩ := aesEncr_payload hE (gcmOp comp kE ssrc ix (a.drop start) []) hmb s
  obtain ⟨tag, htag, -⟩ := hE.tag (gcmOp comp kE ssrc ix (a.drop start) ct)
  obtain ⟨mb', hw, hmb'⟩ := hmb1.append tag
  refine ⟨ct, tag, mb', hct, htag, ?_, hmb'⟩
  unfold encryptCipher
  simp only [hk, hm, get_bind]
  rw [slice_header hmb hst]
  refine bind_eq_ok.2 ⟨_, _, aesAad_ok.2 ⟨hE.aad _ _, rfl, rfl⟩, bind_eq_ok.2 ⟨_, _, hrun,
    bind_eq_ok.2 ⟨tag, _, aesGetAuthtag_ok.2 ⟨htag, rfl⟩, ?_⟩⟩⟩
  rw [modMb_bind, hE.mem]
  exact onMb_of_ok hw

theorem encryptHmac_none (hk : comp.hmac = none) {c : Call} : encryptHmac E comp start roc c = .ok () c := by
  unfold encryptHmac
  rw [hk]
  rfl

theorem encrypt_seals (hE : E.Correct) (hcomp : comp.For suite)
    (hmb : mb.Holds (a ++ p) a.length) (hst : start ≤ a.length) (ssrc roc : UInt32) (ix : UInt64)
    (s : Session) (evs : List Ev) :
    ∃ y mb1 mb' q, Sealed E comp start ssrc roc ix a p y ∧
      encryptCipher E comp start ssrc ix ⟨s, mb, evs⟩ = .ok () ⟨s, mb1, evs⟩ ∧
      encryptHmac E comp start roc ⟨s, mb1, evs⟩ = .ok () ⟨s, mb', evs⟩ ∧ mb'.Holds y q := by
  rcases hcomp.shape with ⟨-, kE, kA, hk, hA, hm, -, -⟩ | ⟨-, kE, hk, hA, hm, -⟩
  · obtain ⟨ct, mb1, hct, hc, hmb1⟩ := encryptCipher_ctr hE hk hm hmb
    have hst' : start ≤ (a ++ ct).length := by
      rw [length_append]
      omega
    obtain ⟨md, mb', hmd, hh, hmb'⟩ := encryptHmac_ok hE hA hmb1 hst'
    exact ⟨_, mb1, mb', _, .ctr hk hA hm hct hmd, hc, hh, hmb'⟩
  · obtain ⟨ct, tag, mb1, hct, htag, hc, hmb1⟩ := encryptCipher_gcm hE hk hm hmb hst
    exact ⟨_, mb1, mb1, _, .gcm hk hA hm hct htag, hc, encryptHmac_none hA, hmb1⟩

/-! ## Opening -/

theorem decr_of_encr (hE : E.Correct) {op : AesOp} {d ct : Bytes} (h : E.encr op d = some ct) :
    E.decr op ct = some d := by
  obtain ⟨ct', hct', hd⟩ := hE.encr op d
  rw [h] at hct'
  cases hct'
  exact hd

theorem verify_of_tag (hE : E.Correct) {op : AesOp} {t : Bytes} (h : E.tag op = some t) : E.verify op t := by
  obtain ⟨t', ht', hv⟩ := hE.tag op
  rw [h] at ht'
  cases ht'
  exact hv

theorem slice_parts {ct t : Bytes} {n q : Nat} (hn : t.length = n) (hmb : mb.Holds (a ++ ct ++ t) q)
    (hst : start ≤ a.length) :
    n ≤ (a ++ ct ++ t).length - a.length ∧ (a ++ ct ++ t).length - n = (a ++ ct).length ∧
      slice mb.buf start (a.length - start) = a.drop start ∧
      slice mb.buf a.length ((a ++ ct).length - a.length) = ct ∧
      slice mb.buf start ((a ++ ct).length - start) = (a ++ ct).drop start ∧
      slice mb.buf (a ++ ct).length n = t := by
  subst hn
  have hct := @length_append _ a ct
  have ht := @length_append _ (a ++ ct) t
  refine ⟨by omega, by omega, ?_, ?_, ?_, ?_⟩
  · rw [hmb.slice (by omega), append_assoc, slice_append_left hst rfl]
  · rw [hmb.slice (by omega), append_assoc, slice_append rfl (by omega)]
  · rw [hmb.slice (by omega), slice_append_left (by omega) rfl]
  · rw [hmb.slice (by omega), slice_append_right rfl rfl]

/-- The buffer once the tag is cut off: the ROC was written over it, beyond the new end. -/
theorem holds_cut {buf ct t d : Bytes}
    (hmb : Mbuf.Holds ⟨buf, a.length, (a ++ ct ++ t).length⟩ (a ++ ct ++ t) a.length) :
    Mbuf.Holds ⟨overwrite buf (a ++ ct).length d, a.length, (a ++ ct).length⟩ (a ++ ct) a.length := by
  have := hmb.overwrite_setEnd (d := d) (n := (a ++ ct).length) (by simp) (by simp)
  rwa [take_left] at this

theorem holds_payload {ct t : Bytes} {q : Nat} (hp : p.length = ct.length)
    (h : mb.Holds (a ++ ct ++ t) q) : (mb.poke a.length p).Holds (a ++ p ++ t) q := by
  have := h.poke (i := a.length) (d := p) (by simp only [length_append]; omega)
  rwa [append_assoc, overwrite_append rfl hp, ← append_assoc] at this

theorem length_tag_ctr (hcomp : comp.For suite) {kA md d : Bytes} (hA : comp.hmac = some kA)
    (hmd : E.hmac kA d = some md) :
    4 ≤ comp.tagLen ∧ (md.take comp.tagLen).length = comp.tagLen := by
  rcases hcomp.shape with ⟨-, -, -, -, -, -, ht, ht'⟩ | ⟨-, -, -, hA', -⟩
  · refine ⟨ht, ?_⟩
    rw [length_take, E.length_hmac _ _ _ hmd]
    omega
  · rw [hA] at hA'
    cases hA'

theorem decrypt_opens (hE : E.Correct) (hcomp : comp.For suite)
    (hseal : Sealed E comp start ssrc strm.roc ix a p y) (hmb : mb.Holds y a.length)
    (hst : start ≤ a.length) (hfresh : (srtpReplayCheck strm.replayRtp ix).1)
    (evs : List Ev) :
    ∃ c1 mb' evs', decryptHmac E comp start ssrc strm ix ⟨s, mb, evs⟩ = .ok () c1 ∧
      decryptCipher E comp start ssrc strm ix c1 = .ok () ⟨s.modStream ssrc (strm.checkRtp ix), mb', evs ++ evs'⟩ ∧
      mb'.Holds (a ++ p) a.length := by
  obtain ⟨buf, pos, e⟩ := mb
  have hbuf : y.length ≤ buf.length := hmb.length_le
  obtain ⟨rfl, rfl⟩ : e = y.length ∧ pos = a.length := ⟨hmb.endPos, hmb.pos⟩
  cases hseal with
  | @ctr kE kA ct md hk hA hm hct hmd =>
    obtain ⟨ht, htl⟩ := length_tag_ctr hcomp hA hmd
    have hlen := E.length_encr _ _ _ hct
    obtain ⟨hle, hend, -, -, hdata, htag⟩ := slice_parts htl hmb hst
    have hmb1 := holds_cut (d := beBytes 4 strm.roc.toNat) hmb
    have hmb2 := holds_payload (t := []) hlen.symm (by rw [append_nil]; exact hmb1)
    rw [← hend] at hmb1 hmb2
    refine ⟨_, _, _, (decryptHmac_ok hA ht hst hbuf).2 ⟨hle, md, _, rfl, ?_, ?_,
      replayRtp_ok.2 ⟨hfresh, rfl⟩⟩, (decryptCipher_ctr_ok hk hm).2 ⟨p, ?_, rfl⟩, ?_⟩
    · rw [hend, hdata]
      exact hmd
    · rw [hend, htag]
    · have hleft := hmb1.left
      rw [drop_left] at hleft
      show E.decr _ (Mbuf.left _) = _
      rw [hleft]
      exact decr_of_encr hE hct
    · rw [append_nil] at hmb2
      exact hmb2
  | @gcm kE ct tag hk hA hm hct htag =>
    have hlen := E.length_encr _ _ _ hct
    obtain ⟨hle, hend, hhdr, hpld, -, htag'⟩ :=
      slice_parts (show tag.length = GCM_TAGLEN from E.length_tag _ _ htag) hmb hst
    have hal : (a ++ ct).length = (a ++ p).length := by
      rw [length_append, length_append, hlen]
    have hmb1 := (holds_payload hlen.symm hmb).setEnd (n := (a ++ p).length) (by simp) (by simp)
    rw [take_left] at hmb1
    refine ⟨_, _, _, decryptHmac_none hA, (decryptCipher_gcm_ok hk hm hbuf (by simp)).2
      ⟨_, _, p, _, hhdr.symm, ?_, ?_, hle, hE.aad _ _, decr_of_encr hE hct, verify_of_tag hE htag,
        replayRtp_ok.2 ⟨hfresh, rfl⟩⟩, ?_⟩
    · rw [hend, hpld]
    · rw [hend, htag']
    · rw [hend, hal]
      exact hmb1

/-- The packet opens under another index only if the cipher does not tell the two apart. -/
theorem opens_other_index (hcomp : comp.For suite) {ix' : UInt64} {c1 c2 : Call}
    (hseal : Sealed E comp start ssrc strm.roc ix a p y) (hmb : mb.Holds y a.length)
    (hst : start ≤ a.length)
    (h1 : decryptHmac E comp start ssrc strm ix' ⟨s, mb, evs⟩ = .ok () c1)
    (h2 : decryptCipher E comp start ssrc strm ix' c1 = .ok () c2)
    (hback : c2.mb.buf.take c2.mb.endPos = a ++ p) :
    (∃ kE ct, comp.aes = some kE ∧ E.encr (ctrOp comp kE ssrc ix) p = some ct ∧
        E.decr (ctrOp comp kE ssrc ix') ct = some p) ∨
      ∃ kE ct tag, comp.aes = some kE ∧ E.tag (gcmOp comp kE ssrc ix (a.drop start) ct) = some tag ∧
        E.verify (gcmOp comp kE ssrc ix' (a.drop start) ct) tag := by
  obtain ⟨buf, pos, e⟩ := mb
  have hbuf : y.length ≤ buf.length := hmb.length_le
  obtain ⟨rfl, rfl⟩ : e = y.length ∧ pos = a.length := ⟨hmb.endPos, hmb.pos⟩
  cases hseal with
  | @ctr kE kA ct md hk hA hm hct hmd =>
    obtain ⟨ht, htl⟩ := length_tag_ctr hcomp hA hmd
    obtain ⟨-, hend, -⟩ := slice_parts htl hmb hst
    have hmb1 := holds_cut (d := beBytes 4 strm.roc.toNat) hmb
    have hleft := hmb1.left
    rw [drop_left] at hleft
    rw [← hend] at hmb1 hleft
    obtain ⟨-, _, _, rfl, -, -, hr⟩ := (decryptHmac_ok hA ht hst hbuf).1 h1
    obtain ⟨-, rfl⟩ := replayRtp_ok.1 hr
    obtain ⟨pt, hpt, rfl⟩ := (decryptCipher_ctr_ok hk hm).1 h2
    change E.decr _ (Mbuf.left _) = _ at hpt
    rw [hleft] at hpt
    have hlen := E.length_decr _ _ _ hpt
    have hmb2 := holds_payload (t := []) hlen (by rw [append_nil]; exact hmb1)
    rw [append_nil] at hmb2
    obtain rfl : pt = p := append_cancel_left (hmb2.take.symm.trans hback)
    exact .inl ⟨kE, ct, hk, hct, hpt⟩
  | @gcm kE ct tag hk hA hm hct htag =>
    obtain ⟨-, hend, hhdr, hpld, -, htag'⟩ :=
      slice_parts (show tag.length = GCM_TAGLEN from E.length_tag _ _ htag) hmb hst
    rw [decryptHmac_none hA] at h1
    cases h1
    obtain ⟨_, _, pt, _, rfl, rfl, rfl, -, -, -, hv, -⟩ := (decryptCipher_gcm_ok hk hm hbuf (by simp)).1 h2
    rw [hhdr, hend, hpld, htag'] at hv
    exact .inr ⟨kE, ct, tag, hk, htag, hv⟩

/-! ## The header of a sealed packet -/

theorem rtpHdrDecode_sealed {z : Bytes} (hh : rtpHdrDecode mb = .ok hdr mb')
    (hx : mb.Holds (a ++ p) mb.pos) (ha : a.length = mb'.pos) (hy : mb1.Holds z mb.pos)
    (hlen : (a ++ p).length ≤ z.length) (htake : z.take a.length = a) :
    rtpHdrDecode mb1 = .ok hdr (mb1.setPos a.length) := by
  obtain ⟨k, -, rfl, hread⟩ := rtpHdrDecode_reads mb hdr mb' (Nat.zero_le _) hh
  have ha : a.length = mb.pos + k := ha
  rw [length_append] at hlen
  have hslice : slice mb1.buf mb1.pos k = slice mb.buf mb.pos k := by
    rw [hy.pos, hy.slice (by omega), hx.slice (by rw [length_append]; omega),
      slice_eq_drop_take, slice_eq_drop_take, ← ha, htake, take_left]
  have hleft : mb.getLeft ≤ mb1.getLeft := by
    rw [hx.getLeft, hy.getLeft, length_append]
    omega
  rw [hread mb1 hleft hslice, hy.pos, ha]

end BareRTC.Srtp
