import BareRTC.Srtp.Proof.RtcpReplay
import BareRTC.Srtp.Proof.RtpSeal

/-!
# Sealed RTCP packets

`RtcpSealed .. a p y`: `y` is what `srtcp_encrypt` makes, for an index, of a packet with the
payload `p` after the bytes `a`. `srtcpEncrypt_seals` and `srtcpDecrypt_opens`: the two functions
seal a packet and get it back, as long as the receiver has not seen the index.
-/

namespace BareRTC.Srtp

open List

def indexWord (ix : UInt32) : Bytes := beBytes 4 ((1 : UInt32) <<< 31 ||| ix).toNat

inductive RtcpSealed (E : Env) (comp : Comp) (start : Nat) (ssrc ix : UInt32) (a p : Bytes) :
    Bytes → Prop
  | ctr {kE kA ct md : Bytes} (hE : comp.aes = some kE) (hA : comp.hmac = some kA)
      (hm : comp.mode = .CTR) (hct : E.encr (ctrOp comp kE ssrc ix.toUInt64) p = some ct)
      (hmd : E.hmac kA ((a ++ ct ++ indexWord ix).drop start) = some md) :
      RtcpSealed E comp start ssrc ix a p (a ++ ct ++ indexWord ix ++ md.take comp.tagLen)
  | gcm {kE ct tag : Bytes} (hE : comp.aes = some kE) (hA : comp.hmac = none)
      (hm : comp.mode = .GCM) (ht : comp.tagLen = 0)
      (hct : E.encr (gcmOp comp kE ssrc ix.toUInt64 (a.drop start ++ indexWord ix) []) p = some ct)
      (htag : E.tag (gcmOp comp kE ssrc ix.toUInt64 (a.drop start ++ indexWord ix) ct) = some tag) :
      RtcpSealed E comp start ssrc ix a p (a ++ ct ++ tag ++ indexWord ix)

@[simp] theorem length_indexWord {ix : UInt32} : (indexWord ix).length = 4 := length_beBytes 4 _

variable {E : Env} {comp : Comp} {suite : Suite} {s srtp srtp1 : Session} {mb : Mbuf} {evs : List Ev}
  {a p x y z t : Bytes} {start : Nat} {ssrc ix : UInt32} {strm : SrtpStream}

/-! ## Sealing -/

theorem srtcpEncryptCipher_ctr (hE : E.Correct) {kE : Bytes} (hk : comp.aes = some kE)
    (hm : comp.mode = .CTR) (hmb : mb.Holds (a ++ p) a.length) :
    ∃ ct mb', E.encr (ctrOp comp kE ssrc ix.toUInt64) p = some ct ∧
      srtcpEncryptCipher E comp start ssrc ix ⟨s, mb, evs⟩ = .ok 1 ⟨s, mb', evs⟩ ∧
      mb'.Holds (a ++ ct) a.length := by
  obtain ⟨ct, mb', hct, hrun, hmb'⟩ := aesEncr_payload hE (ctrOp comp kE ssrc ix.toUInt64) hmb s
  refine ⟨ct, mb', hct, ?_, hmb'⟩
  unfold srtcpEncryptCipher
  simp only [hk, hm, get_bind]
  exact bind_eq_ok.2 ⟨_, _, hrun, rfl⟩

theorem srtcpEncryptCipher_gcm (hE : E.Correct) {kE : Bytes} (hk : comp.aes = some kE)
    (hm : comp.mode = .GCM) (hmb : mb.Holds (a ++ p) a.length) (hst : start ≤ a.length) :
    ∃ ct tag mb',
      E.encr (gcmOp comp kE ssrc ix.toUInt64 (a.drop start ++ indexWord ix) []) p = some ct ∧
      E.tag (gcmOp comp kE ssrc ix.toUInt64 (a.drop start ++ indexWord ix) ct) = some tag ∧
      srtcpEncryptCipher E comp start ssrc ix ⟨s, mb, evs⟩ = .ok 1 ⟨s, mb', evs⟩ ∧
      mb'.Holds (a ++ ct ++ tag) (a ++ ct ++ tag).length := by
  obtain ⟨ct, mb1, hct, hrun, hmb1⟩ :=
    aesEncr_payload hE (gcmOp comp kE ssrc ix.toUInt64 (a.drop start ++ indexWord ix) []) hmb s
  obtain ⟨tag, htag, -⟩ := hE.tag (gcmOp comp kE ssrc ix.toUInt64 (a.drop start ++ indexWord ix) ct)
  obtain ⟨mb', hw, hmb'⟩ := hmb1.append tag
  refine ⟨ct, tag, mb', hct, htag, ?_, hmb'⟩
  unfold srtcpEncryptCipher
  simp only [hk, hm, get_bind]
  rw [slice_header hmb hst]
  refine bind_eq_ok.2 ⟨_, _, aesAad_ok.2 ⟨hE.aad _ _, rfl, rfl⟩, bind_eq_ok.2 ⟨_, _,
    aesAad_ok.2 ⟨hE.aad _ _, rfl, rfl⟩, bind_eq_ok.2 ⟨_, _, hrun,
    bind_eq_ok.2 ⟨tag, _, aesGetAuthtag_ok.2 ⟨htag, rfl⟩, ?_⟩⟩⟩⟩
  rw [modMb_bind, hE.mem]
  exact bind_eq_ok.2 ⟨(), _, onMb_of_ok hw, rfl⟩

theorem srtcpEncryptHmac_ok (hE : E.Correct) {kA : Bytes} (hk : comp.hmac = some kA)
    {q : Nat} (hmb : mb.Holds x q) (hst : start < x.length) :
    ∃ md mb', E.hmac kA (x.drop start) = some md ∧
      srtcpEncryptHmac E comp start ⟨s, mb, evs⟩ = .ok () ⟨s, mb', evs⟩ ∧
      mb'.Holds (x ++ md.take comp.tagLen) (x ++ md.take comp.tagLen).length := by
  obtain ⟨md, hmd⟩ := hE.hmac kA (x.drop start)
  have hmb1 := hmb.setPos (Nat.le_of_lt hst)
  obtain ⟨mb', hw, hmb'⟩ := hmb1.append (md.take comp.tagLen)
  refine ⟨md, mb', hmd, ?_, hmb'⟩
  have hne : (x.drop start).length ≠ 0 := by
    rw [length_drop]
    omega
  unfold srtcpEncryptHmac
  simp only [hk, get_bind, modMb_bind]
  rw [hmb1.left, bind_of_ok (hmacDigest_ok.2 ⟨hne, hmd, rfl⟩), modMb_bind, hE.mem]
  exact onMb_of_ok hw

theorem srtcpEncryptHmac_none (hk : comp.hmac = none) {c : Call} : srtcpEncryptHmac E comp start c = .ok () c := by
  unfold srtcpEncryptHmac
  rw [hk]
  rfl

theorem srtcpEncrypt_blocks (hE : E.Correct) (hcomp : comp.For suite)
    (hmb : mb.Holds (a ++ p) a.length) (hst : start ≤ a.length)
    (evs : List Ev) :
    ∃ y mb1 mb2 mb' q, RtcpSealed E comp start ssrc ix a p y ∧
      srtcpEncryptCipher E comp start ssrc ix ⟨s, mb, evs⟩ = .ok 1 ⟨s, mb1, evs⟩ ∧
      Mbuf.writeMem true (indexWord ix) (mb1.setPos mb1.endPos) = .ok () mb2 ∧
      srtcpEncryptHmac E comp start ⟨s, mb2, evs⟩ = .ok () ⟨s, mb', evs⟩ ∧
      mb'.Holds y q ∧ a.length ≤ y.length := by
  rcases hcomp.shape with ⟨-, kE, kA, hk, hA, hm, -, -⟩ | ⟨-, kE, hk, hA, hm, ht⟩
  · obtain ⟨ct, mb1, hct, hc, hmb1⟩ := srtcpEncryptCipher_ctr hE hk hm hmb
    obtain ⟨mb2, hw, hmb2⟩ := hmb1.append (indexWord ix)
    have hst' : start < (a ++ ct ++ indexWord ix).length := by
      simp only [length_append, length_indexWord]
      omega
    obtain ⟨md, mb', hmd, hh, hmb'⟩ := srtcpEncryptHmac_ok hE hA hmb2 hst'
    exact ⟨_, mb1, mb2, mb', _, .ctr hk hA hm hct hmd, hc, hw, hh, hmb', by simp⟩
  · obtain ⟨ct, tag, mb1, hct, htag, hc, hmb1⟩ := srtcpEncryptCipher_gcm hE hk hm hmb hst
    obtain ⟨mb2, hw, hmb2⟩ := hmb1.append (indexWord ix)
    exact ⟨_, mb1, mb2, mb2, _, .gcm hk hA hm ht hct htag, hc, hw, srtcpEncryptHmac_none hA, hmb2, by simp⟩

def SrtpStream.setRtcpIndex (ix : UInt32) (s : SrtpStream) : SrtpStream := { s with rtcpIndex := ix }

def SrtpStream.nextRtcp (s : SrtpStream) : UInt32 := (s.rtcpIndex + 1) &&& 0x7fffffff

def RtcpPacket (ssrc : UInt32) (mb : Mbuf) : Prop := mb.Ok ∧ 8 ≤ mb.getLeft ∧ rtcpSsrc mb.left = ssrc

structure RtcpWire (E : Env) (comp : Comp) (ssrc ix : UInt32) (mb mb₁ : Mbuf) : Prop where
  ok : mb.Ok
  packet : ∃ a p y, mb.Holds (a ++ p) mb.pos ∧ a.length = mb.pos + 8 ∧
    rtcpSsrc (a.drop mb.pos) = ssrc ∧ mb₁.Holds y mb.pos ∧
    RtcpSealed E comp mb.pos ssrc ix a p y

theorem rtcpSsrc_append {r : Bytes} (ha : a.length = start + 8) :
    rtcpSsrc ((a ++ r).drop start) = rtcpSsrc (a.drop start) := by
  unfold rtcpSsrc
  rw [drop_append_of_le_length (by omega), slice_eq_drop_take, slice_eq_drop_take, take_append_of_le_length]
  rw [length_drop]
  omega

/-- **`srtcp_encrypt` seals the packet** with the stream's next index. -/
theorem srtcpEncrypt_seals (hE : E.Correct) (hs : srtp.Of suite) (hmb : RtcpPacket ssrc mb)
    (hget : streamGet E ssrc srtp = .ok (strm, srtp1)) :
    ∃ mb1, srtcpEncrypt E ⟨srtp, mb, []⟩ = .ok () ⟨srtp1.modStream ssrc
        (SrtpStream.setRtcpIndex strm.nextRtcp), mb1, []⟩ ∧
      RtcpWire E srtp.rtcp ssrc strm.nextRtcp mb mb1 := by
  obtain ⟨hok, hlen, rfl⟩ := hmb
  obtain ⟨a, p, ha, hx, hx'⟩ := Mbuf.exists_split hok hlen
  obtain ⟨y, mb1, mb2, mb', q, hseal, hc, hw, hh, hy, hyl⟩ := srtcpEncrypt_blocks hE hs.comps.2 hx'
    (show mb.pos ≤ a.length by omega) []
  have hssrc : rtcpSsrc (a.drop mb.pos) = rtcpSsrc mb.left := by rw [hx.left, rtcpSsrc_append ha]
  refine ⟨mb'.setPos mb.pos, ?_, hok, a, p, y, hx, ha, hssrc, hy.setPos (by omega), hseal⟩
  unfold srtcpEncrypt
  rw [get_bind, bind_of_ok (onMb_of_ok (getRtcpSsrc_of_le hlen)), bind_of_ok (onSrtp_of_ok hget)]
  dsimp only
  rw [modStream_bind]
  refine bind_eq_ok.2 ⟨_, _, hc, ?_⟩
  rw [modMb_bind]
  refine bind_eq_ok.2 ⟨(), ⟨_, mb2, []⟩, onMb_of_ok ?_, ?_⟩
  · rw [Mbuf.writeU32, hE.mem]
    exact hw
  · exact bind_eq_ok.2 ⟨(), _, hh, rfl⟩

/-! ## Opening -/

theorem toNat_indexWord (hix : ix.toNat < 2 ^ 31) : ((1 : UInt32) <<< 31 ||| ix).toNat = 2 ^ 31 + ix.toNat := by
  have hshift : ((1 : UInt32) <<< 31).toNat = 2 ^ 31 := by decide
  rw [UInt32.toNat_or, hshift]
  have := Nat.two_pow_add_eq_or_of_lt hix 1
  rw [Nat.mul_one] at this
  exact this.symm

/-- The receiver finds the index word before the tag. -/
theorem rtcpWord_sealed (hst : start ≤ z.length) (hix : ix.toNat < 2 ^ 31) :
    rtcpWord t.length ((z ++ indexWord ix ++ t).drop start) = (1 : UInt32) <<< 31 ||| ix := by
  have hw : (z ++ indexWord ix ++ t).drop start = z.drop start ++ indexWord ix ++ t := by
    rw [append_assoc, drop_append_of_le_length hst, append_assoc]
  have hslice : slice ((z ++ indexWord ix ++ t).drop start)
      (((z ++ indexWord ix ++ t).drop start).length - (4 + t.length)) 4 = indexWord ix := by
    rw [hw, append_assoc]
    refine slice_append ?_ (length_indexWord).symm
    simp only [length_append, length_indexWord]
    omega
  unfold rtcpWord
  rw [hslice, indexWord, beNat_beBytes, ← UInt32.toNat_inj, UInt32.toNat_ofNat', toNat_indexWord hix]
  omega

theorem rtcpIx_sealed (hst : start ≤ z.length) (hix : ix.toNat < 2 ^ 31) :
    rtcpIx t.length ((z ++ indexWord ix ++ t).drop start) = ix := by
  unfold rtcpIx
  rw [rtcpWord_sealed hst hix, ← UInt32.toNat_inj, UInt32.toNat_and, toNat_indexWord hix,
    show (0x7fffffff : UInt32).toNat = 2 ^ 31 - 1 from rfl, Nat.and_two_pow_sub_one_eq_mod]
  omega

theorem rtcpEBit_sealed (hst : start ≤ z.length) (hix : ix.toNat < 2 ^ 31) :
    rtcpEBit t.length ((z ++ indexWord ix ++ t).drop start) := by
  unfold rtcpEBit
  rw [rtcpWord_sealed hst hix, beq_iff_eq, ← UInt32.toNat_inj, UInt32.toNat_and,
    UInt32.toNat_shiftRight, toNat_indexWord hix]
  rw [show (31 : UInt32).toNat % 32 = 31 from rfl, Nat.shiftRight_eq_div_pow,
    show (2 ^ 31 + ix.toNat) / 2 ^ 31 = 1 by omega]
  rfl

/-- `srtcp_decrypt` on a sealed packet: what is left to do once its fields are read. -/
theorem srtcpDecrypt_of_sealed {r : Bytes} {c2 c3 : Call} (hz : a ++ r = z)
    (hmb : mb.Holds (z ++ indexWord ix ++ t) start) (ha : a.length = start + 8)
    (hssrc : rtcpSsrc (a.drop start) = ssrc) (hix : ix.toNat < 2 ^ 31)
    (ht : t.length = srtp.rtcp.tagLen) (hget : streamGet E ssrc srtp = .ok (strm, srtp1))
    (hc2 : srtcpDecryptHmac E srtp.rtcp start ssrc strm ix
      ⟨srtp1, mb.setPos (z ++ indexWord ix).length, []⟩ = .ok () c2)
    (hc3 : srtcpDecryptCipher E srtp.rtcp start a.length z.length ssrc ix true
      { c2 with mb := c2.mb.setEnd z.length } = .ok () c3) :
    srtcpDecrypt E ⟨srtp, mb, []⟩ = .ok () { c3 with mb := c3.mb.setPos start } := by
  subst hz
  have hpos := hmb.pos
  have hend := hmb.endPos
  have hw := hmb.left
  have hlen := hmb.getLeft
  have hst : start ≤ (a ++ r).length := by
    rw [length_append]
    omega
  simp only [length_append, length_indexWord] at hend hlen hc2 hc3
  have hssrc' : rtcpSsrc mb.left = ssrc := by
    rw [hw, append_assoc, append_assoc, rtcpSsrc_append ha, hssrc]
  have hix' : rtcpIx srtp.rtcp.tagLen mb.left = ix := by
    rw [hw, ← ht, rtcpIx_sealed hst hix]
  have hep : rtcpEBit srtp.rtcp.tagLen mb.left := by
    rw [hw, ← ht, rtcpEBit_sealed hst hix]
  refine (srtcpDecrypt_ok hmb.ok).2 ⟨by dsimp only; omega, strm, srtp1, c2, c3, ?_, ?_, ?_, ?_⟩
  · rw [hssrc']
    exact hget
  · dsimp only
    rw [hpos, hssrc', hix', show mb.endPos - srtp.rtcp.tagLen = a.length + r.length + 4 by omega]
    exact hc2
  · dsimp only
    rw [hpos, hssrc', hix', hep, ← ha, show mb.endPos - (4 + srtp.rtcp.tagLen) = a.length + r.length by omega]
    exact hc3
  · rw [hpos]

/-- **`srtcp_decrypt` opens the packet**, if the stream has not seen its index. -/
theorem srtcpDecrypt_opens {mb₀ : Mbuf} (hE : E.Correct) (hs : srtp.Of suite)
    (hwire : RtcpWire E srtp.rtcp ssrc ix mb₀ mb) (hix : ix.toNat < 2 ^ 31)
    (hget : streamGet E ssrc srtp = .ok (strm, srtp1))
    (hfresh : ¬ strm.replayRtcp.win.Blocked ix.toNat) :
    ∃ srtp' mb2 evs, srtcpDecrypt E ⟨srtp, mb, []⟩ = .ok () ⟨srtp', mb2, evs⟩ ∧
      (srtp' = srtp1 ∨ srtp' = srtp1.modStream ssrc (strm.checkRtcp ix)) ∧
      mb2.Holds (mb₀.buf.take mb₀.endPos) mb₀.pos := by
  obtain ⟨-, a, p, y, hx, ha, hssrc, hmb, hseal⟩ := hwire
  rw [hx.take]
  generalize mb₀.pos = start at ha hssrc hmb hseal ⊢
  cases hseal with
  | @ctr kE kA ct md hk hA hm hct hmd =>
    obtain ⟨-, htl⟩ := length_tag_ctr hs.comps.2 hA hmd
    have hctl := E.length_encr _ _ _ hct
    have hal := @length_append _ a ct
    have hwl := @length_append _ (a ++ ct) (indexWord ix)
    have hyl := @length_append _ (a ++ ct ++ indexWord ix) (md.take srtp.rtcp.tagLen)
    -- the buffer cut before the tag, then before the index word
    have hmb1 := (hmb.setPos (q := start) (by omega)).setEnd (n := (a ++ ct ++ indexWord ix).length)
      (by omega) (by omega)
    rw [take_left] at hmb1
    have hmb2 := (hmb1.setPos (q := a.length) (by omega)).setEnd (n := (a ++ ct).length) (by omega) (by omega)
    rw [take_left, ← append_nil (a ++ ct)] at hmb2
    have hmb3 := holds_payload hctl.symm hmb2
    simp only [append_nil] at hmb3
    refine ⟨_, _, _, srtcpDecrypt_of_sealed rfl hmb ha hssrc hix htl hget
      ((srtcpDecryptHmac_ok hA).2 ⟨md, _, hmb1.left.symm, ?_, ?_, hmd, ?_, replayCheck_ok.2 ⟨?_, rfl⟩⟩)
      ((srtcpDecryptCipher_ctr_ok hk hm).2 ⟨p, ?_, rfl⟩), .inr rfl,
      hmb3.setPos (by rw [length_append]; omega)⟩
    · rw [length_drop]
      omega
    · show _ ≤ mb.endPos - (a ++ ct ++ indexWord ix).length
      rw [hmb.endPos]
      omega
    · exact (slice_parts htl hmb (Nat.zero_le _)).2.2.2.2.2.symm
    · rw [srtpReplayCheck_fst, UInt32.toNat_toUInt64]
      exact hfresh
    · have hpay := (slice_parts rfl hmb1 (Nat.zero_le _)).2.2.2.1
      exact (congrArg (E.decr _) hpay).trans (decr_of_encr hE hct)
  | @gcm kE ct tag hk hA hm ht hct htag =>
    have htl : tag.length = GCM_TAGLEN := E.length_tag _ _ htag
    have hctl := E.length_encr _ _ _ hct
    have hyl := @length_append _ (a ++ ct ++ tag) (indexWord ix)
    have hap : (a ++ p).length = (a ++ ct).length := by rw [length_append, length_append, hctl]
    have hmb1 := (hmb.setPos (q := a.length) (by simp)).setEnd (n := (a ++ ct ++ tag).length) (by simp) (by simp)
    rw [take_left] at hmb1
    have hmb2 := holds_payload hctl.symm hmb1
    have hmb3 := hmb2.setEnd (n := (a ++ p).length) (by simp) (by simp)
    rw [take_left] at hmb3
    obtain ⟨hle, hend, hhdr, hpay, -⟩ := slice_parts htl hmb1 (show start ≤ a.length by omega)
    have htag' := (slice_parts htl hmb2 (Nat.zero_le _)).2.2.2.2.2
    have hword := (slice_parts (length_indexWord) hmb (Nat.zero_le _)).2.2.2.2.2
    refine ⟨_, _, _, srtcpDecrypt_of_sealed (t := []) (append_assoc a ct tag).symm ?_ ha hssrc hix
      ht.symm hget (srtcpDecryptHmac_none hA) ((srtcpDecryptCipher_gcm_ok hk hm).2
        ⟨_, _, _, p, _, hhdr.symm, hword.symm, ?_, ?_, hle, hE.aad _ _, hE.aad _ _,
          decr_of_encr hE hct, verify_of_tag hE htag, rfl⟩), .inl rfl, ?_⟩
    · rw [append_nil]
      exact hmb
    · show _ = slice mb.buf a.length ((a ++ ct ++ tag).length - GCM_TAGLEN - a.length)
      rw [hend]
      exact hpay.symm
    · show _ = slice (mb.poke a.length p).buf ((a ++ ct ++ tag).length - GCM_TAGLEN) _
      rw [hend, ← hap]
      exact htag'.symm
    · show Mbuf.Holds ⟨overwrite mb.buf a.length p, start, (a ++ ct ++ tag).length - GCM_TAGLEN⟩ _ _
      rw [hend, ← hap]
      exact hmb3.setPos (by rw [length_append]; omega)

end BareRTC.Srtp
