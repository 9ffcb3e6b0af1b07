import BareRTC.Srtp.Rtcp
import BareRTC.Srtp.Proof.Call
import BareRTC.Srtp.Proof.Crypto

/-!
# `srtcp_decrypt`: what is accepted has been checked

`srtcpDecrypt_ok` takes an accepted packet apart. `srtcpDecrypt_integrity_iff`: it passed a check
of its header, payload and index word under the session's RTCP keys, but for GCM packets whose E
bit is clear.
-/

namespace BareRTC.Srtp

open List

/-! ## The fields of a received packet -/

def rtcpSsrc (w : Bytes) : UInt32 := UInt32.ofNat (beNat (slice w 4 4))

def rtcpWord (tagLen : Nat) (w : Bytes) : UInt32 := UInt32.ofNat (beNat (slice w (w.length - (4 + tagLen)) 4))

def rtcpEBit (tagLen : Nat) (w : Bytes) : Bool := (rtcpWord tagLen w >>> 31) &&& 1 == 1

def rtcpIx (tagLen : Nat) (w : Bytes) : UInt32 := rtcpWord tagLen w &&& 0x7fffffff

variable {mb : Mbuf} {srtp : Session}

theorem getRtcpSsrc_of_le (h : 8 ≤ mb.getLeft) : getRtcpSsrc mb = .ok (rtcpSsrc mb.left) (mb.setPos (mb.pos + 8)) := by
  unfold getRtcpSsrc
  rw [bind_of_ok (Mbuf.require_of_le h), bind_of_ok Mbuf.advance_apply]
  rw [Mbuf.readU32_of_le (by simp only [Mbuf.getLeft, Mbuf.setPos] at h ⊢; omega), rtcpSsrc, Mbuf.slice_left (by omega)]
  rfl

theorem getRtcpSsrc_of_lt (h : mb.getLeft < 8) :
    getRtcpSsrc mb = .error .EBADMSG mb := bind_of_error (Mbuf.require_of_lt h)

section
variable {E : Env} {rtcp : Comp} {c c' : Call} {t : SrtcpTrailer} {start pldStart eixStart : Nat} {ssrc ix : UInt32}
  {strm : SrtpStream} {key : Bytes} {u : Unit}

/-- **The reads before authentication**, all exits. -/
theorem srtcpDecryptRead_eq (hmb : c.mb.Ok) :
    srtcpDecryptRead E rtcp c =
      if c.mb.getLeft < 8 then .error .EBADMSG c
      else match streamGet E (rtcpSsrc c.mb.left) c.srtp with
        | .error e => .error e { c with mb := c.mb.setPos (c.mb.pos + 8) }
        | .ok (strm, srtp) =>
          if c.mb.getLeft < 12 + rtcp.tagLen then
            .error .EBADMSG ⟨srtp, c.mb.setPos (c.mb.pos + 8), c.evs⟩
          else .ok ⟨rtcpSsrc c.mb.left, strm, c.mb.pos + 8, c.mb.endPos - (4 + rtcp.tagLen),
              rtcpEBit rtcp.tagLen c.mb.left, rtcpIx rtcp.tagLen c.mb.left⟩
            ⟨srtp, c.mb.setPos (c.mb.endPos - rtcp.tagLen), c.evs⟩ := by
  unfold srtcpDecryptRead
  split
  · rename_i h
    rw [bind_of_error (onMb_of_error (getRtcpSsrc_of_lt h))]
  rename_i h
  rw [bind_of_ok (onMb_of_ok (getRtcpSsrc_of_le (Nat.not_lt.1 h)))]
  split
  · rename_i e hs
    rw [bind_of_error (onSrtp_of_error hs)]
  rename_i strm srtp hs
  rw [bind_of_ok (onSrtp_of_ok hs), bind_of_ok (get_apply _)]
  dsimp only
  have hlen := Mbuf.length_left hmb
  split
  · rename_i hl
    refine bind_of_error (onMb_of_error (Mbuf.require_of_lt ?_))
    simp only [Mbuf.getLeft, Mbuf.setPos] at hl ⊢
    omega
  rename_i hl
  simp only [Mbuf.getLeft] at hl hlen
  rw [bind_of_ok (onMb_of_ok (Mbuf.require_of_le (by simp only [Mbuf.getLeft, Mbuf.setPos]; omega))),
    bind_of_ok (get_apply _), bind_of_ok (modMb_apply),
    bind_of_ok (onMb_of_ok (Mbuf.readU32_of_le (by simp only [Mbuf.getLeft, Mbuf.setPos]; omega)))]
  have hw : slice c.mb.buf (c.mb.endPos - (4 + rtcp.tagLen)) 4 =
      slice c.mb.left (c.mb.left.length - (4 + rtcp.tagLen)) 4 := by
    rw [Mbuf.slice_left (by simp only [Mbuf.getLeft]; omega), hlen]
    congr 1
    omega
  have hpos : c.mb.endPos - (4 + rtcp.tagLen) + 4 = c.mb.endPos - rtcp.tagLen := by omega
  simp only [pure_apply, Mbuf.setPos, hw, hpos]
  rfl

theorem srtcpDecryptRead_ok (hmb : c.mb.Ok) :
    srtcpDecryptRead E rtcp c = .ok t c' ↔
      12 + rtcp.tagLen ≤ c.mb.getLeft ∧ ∃ strm srtp,
        streamGet E (rtcpSsrc c.mb.left) c.srtp = .ok (strm, srtp) ∧
        t = ⟨rtcpSsrc c.mb.left, strm, c.mb.pos + 8, c.mb.endPos - (4 + rtcp.tagLen),
          rtcpEBit rtcp.tagLen c.mb.left, rtcpIx rtcp.tagLen c.mb.left⟩ ∧
        c' = ⟨srtp, c.mb.setPos (c.mb.endPos - rtcp.tagLen), c.evs⟩ := by
  rw [srtcpDecryptRead_eq hmb]
  split
  · simp
    omega
  split
  · rename_i hs
    simp [hs]
  split
  · simp
    omega
  rename_i hs hl
  simp [hs, Nat.not_lt.1 hl, eq_comm]

theorem srtcpDecryptHmac_ok (hk : rtcp.hmac = some key) :
    srtcpDecryptHmac E rtcp start ssrc strm ix c = .ok u c' ↔
      ∃ md data, data = ((c.mb.setPos start).setEnd c.mb.pos).left ∧ data.length ≠ 0 ∧
        rtcp.tagLen ≤ c.mb.getLeft ∧ E.hmac key data = some md ∧
        md.take rtcp.tagLen = slice c.mb.buf c.mb.pos rtcp.tagLen ∧
        replayRtcp ssrc strm ix ⟨c.srtp, (c.mb.setPos start).setEnd c.mb.pos,
          c.evs ++ [.hmacOk key data (slice c.mb.buf c.mb.pos rtcp.tagLen)]⟩ = .ok u c' := by
  unfold srtcpDecryptHmac
  simp only [hk, get_bind, modMb_bind, bind_eq_ok, onMb_readMem_ok, hmacDigest_ok, checkTag_ok]
  constructor
  · rintro ⟨_, _, ⟨hlen, rfl, rfl⟩, md, _, ⟨hne, hmd, rfl⟩, _, _, ⟨htag, rfl⟩, hr⟩
    exact ⟨md, _, rfl, hne, hlen, hmd, htag, hr⟩
  · rintro ⟨md, _, rfl, hne, hlen, hmd, htag, hr⟩
    exact ⟨_, _, ⟨hlen, rfl, rfl⟩, md, _, ⟨hne, hmd, rfl⟩, (), _, ⟨htag, rfl⟩, hr⟩

theorem srtcpDecryptCipher_ctr_ok (hk : rtcp.aes = some key) (hm : rtcp.mode = .CTR) :
    srtcpDecryptCipher E rtcp start pldStart eixStart ssrc ix true c = .ok u c' ↔
      ∃ pt, E.decr (ctrOp rtcp key ssrc ix.toUInt64)
          (slice c.mb.buf pldStart (c.mb.endPos - pldStart)) = some pt ∧
        c' = { c with mb := (c.mb.setPos pldStart).poke pldStart pt } := by
  unfold srtcpDecryptCipher
  simp only [hk, hm, get_bind, modMb_bind, bind_eq_ok, aesDecr_ok, pure_apply, EStateM.Result.ok.injEq]
  constructor
  · rintro ⟨_, _, ⟨pt, hpt, rfl, rfl⟩, _, rfl⟩
    exact ⟨pt, hpt, rfl⟩
  · rintro ⟨pt, hpt, rfl⟩
    exact ⟨_, _, ⟨pt, hpt, rfl, rfl⟩, trivial, rfl⟩

theorem srtcpDecryptCipher_gcm_ok (hk : rtcp.aes = some key) (hm : rtcp.mode = .GCM) :
    srtcpDecryptCipher E rtcp start pldStart eixStart ssrc ix true c = .ok u c' ↔
      ∃ hdr word ct pt tag, hdr = slice c.mb.buf start (pldStart - start) ∧
        word = slice c.mb.buf eixStart 4 ∧
        ct = slice c.mb.buf pldStart (c.mb.endPos - GCM_TAGLEN - pldStart) ∧
        tag = slice (c.mb.poke pldStart pt).buf (c.mb.endPos - GCM_TAGLEN) GCM_TAGLEN ∧
        GCM_TAGLEN ≤ c.mb.endPos - pldStart ∧
        E.aad (gcmOp rtcp key ssrc ix.toUInt64 [] []) hdr ∧
        E.aad (gcmOp rtcp key ssrc ix.toUInt64 hdr []) word ∧
        E.decr (gcmOp rtcp key ssrc ix.toUInt64 (hdr ++ word) []) ct = some pt ∧
        E.verify (gcmOp rtcp key ssrc ix.toUInt64 (hdr ++ word) ct) tag ∧
        c' = ⟨c.srtp, ((c.mb.setPos pldStart).poke pldStart pt).setEnd (c.mb.endPos - GCM_TAGLEN),
          c.evs ++ [.gcmOk (gcmOp rtcp key ssrc ix.toUInt64 (hdr ++ word) ct) tag]⟩ := by
  unfold srtcpDecryptCipher
  simp only [hk, hm, get_bind, modMb_bind, bind_eq_ok, aesAad_ok, onMb_require_ok, aesDecr_ok,
    aesAuthenticate_ok, modMb_apply, EStateM.Result.ok.injEq]
  constructor
  · rintro ⟨_, _, ⟨ha1, rfl, rfl⟩, _, _, ⟨ha2, rfl, rfl⟩, _, _, ⟨hlen, rfl⟩, _, _,
      ⟨pt, hpt, rfl, rfl⟩, _, _, ⟨hv, rfl⟩, _, rfl⟩
    exact ⟨_, _, _, pt, _, rfl, rfl, rfl, rfl, hlen, ha1, ha2, hpt, hv, rfl⟩
  rintro ⟨_, _, _, pt, _, rfl, rfl, rfl, rfl, hlen, ha1, ha2, hpt, hv, rfl⟩
  exact ⟨_, _, ⟨ha1, rfl, rfl⟩, _, _, ⟨ha2, rfl, rfl⟩, (), _, ⟨hlen, rfl⟩, _, _,
    ⟨pt, hpt, rfl, rfl⟩, (), _, ⟨hv, rfl⟩, trivial, rfl⟩

theorem srtcpDecrypt_ok (hmb : c.mb.Ok) :
    srtcpDecrypt E c = .ok u c' ↔ 12 + c.srtp.rtcp.tagLen ≤ c.mb.getLeft ∧
      ∃ strm srtp c2 c3, streamGet E (rtcpSsrc c.mb.left) c.srtp = .ok (strm, srtp) ∧
        srtcpDecryptHmac E c.srtp.rtcp c.mb.pos (rtcpSsrc c.mb.left) strm
          (rtcpIx c.srtp.rtcp.tagLen c.mb.left)
          ⟨srtp, c.mb.setPos (c.mb.endPos - c.srtp.rtcp.tagLen), c.evs⟩ = .ok () c2 ∧
        srtcpDecryptCipher E c.srtp.rtcp c.mb.pos (c.mb.pos + 8)
          (c.mb.endPos - (4 + c.srtp.rtcp.tagLen)) (rtcpSsrc c.mb.left)
          (rtcpIx c.srtp.rtcp.tagLen c.mb.left) (rtcpEBit c.srtp.rtcp.tagLen c.mb.left)
          { c2 with mb := c2.mb.setEnd (c.mb.endPos - (4 + c.srtp.rtcp.tagLen)) } = .ok () c3 ∧
        c' = { c3 with mb := c3.mb.setPos c.mb.pos } := by
  unfold srtcpDecrypt
  simp only [get_bind, modMb_bind, bind_eq_ok, srtcpDecryptRead_ok hmb, modMb_apply, EStateM.Result.ok.injEq]
  constructor
  · rintro ⟨_, _, ⟨hlen, strm, srtp, hs, rfl, rfl⟩, _, c2, hh, _, c3, hc, _, rfl⟩
    exact ⟨hlen, strm, srtp, c2, c3, hs, hh, hc, rfl⟩
  · rintro ⟨hlen, strm, srtp, c2, c3, hs, hh, hc, rfl⟩
    exact ⟨_, _, ⟨hlen, strm, srtp, hs, rfl, rfl⟩, (), c2, hh, (), c3, hc, trivial, rfl⟩

/-! ## Integrity -/

def Checked (E : Env) (rtcp : Comp) (w : Bytes) : Ev → Prop
  | .hmacOk key data tag => rtcp.hmac = some key ∧ w = data ++ tag ∧ tag.length = rtcp.tagLen ∧
      ∃ md, E.hmac key data = some md ∧ md.take rtcp.tagLen = tag
  | .gcmOk op tag => rtcp.aes = some op.key ∧ op.mode = .GCM ∧ tag.length = GCM_TAGLEN ∧
      E.verify op tag ∧ ∃ hdr word, hdr.length = 8 ∧ word.length = 4 ∧
        op.aad = hdr ++ word ∧ w = hdr ++ op.text ++ tag ++ word
  | .index .. => False

theorem checked_of_hmac {evs : List Ev} (hk : rtcp.hmac = some key) (hmb : mb.Ok) (hlen : 12 + rtcp.tagLen ≤ mb.getLeft)
    (h : srtcpDecryptHmac E rtcp mb.pos ssrc strm ix ⟨srtp, mb.setPos (mb.endPos - rtcp.tagLen), evs⟩ = .ok u c') :
    ∃ ev ∈ c'.evs, Checked E rtcp mb.left ev := by
  obtain ⟨md, data, rfl, -, -, hmd, htag, hr⟩ := (srtcpDecryptHmac_ok hk).1 h
  obtain ⟨-, rfl⟩ := replayCheck_ok.1 hr
  have := hmb.endPos
  simp only [Mbuf.getLeft] at hlen
  refine ⟨_, mem_append_right _ (mem_singleton_self _), hk, ?_, ?_, md, hmd, htag⟩
  · simp only [Mbuf.left, Mbuf.getLeft, Mbuf.setPos, Mbuf.setEnd]
    rw [slice_append_slice (by omega)]
    congr 1
    omega
  · exact length_slice (by simp only [Mbuf.setPos]; omega)

/-- So does the tag GCM checks, with the index word after it. -/
theorem checked_of_gcm (hk : rtcp.aes = some key) (hm : rtcp.mode = .GCM) (hmb : mb.Ok)
    (hc : ∃ srtp evs, c = ⟨srtp, (mb.setPos mb.endPos).setEnd (mb.endPos - 4), evs⟩)
    (h : srtcpDecryptCipher E rtcp mb.pos (mb.pos + 8) (mb.endPos - 4) ssrc ix true c = .ok u c') :
    ∃ ev ∈ c'.evs, Checked E rtcp mb.left ev := by
  obtain ⟨srtp, evs, rfl⟩ := hc
  obtain ⟨_, _, _, pt, _, rfl, rfl, rfl, rfl, hl, -, -, hpt, hv, rfl⟩ := (srtcpDecryptCipher_gcm_ok hk hm).1 h
  have hend := hmb.endPos
  simp only [Mbuf.setEnd, Mbuf.setPos, GCM_TAGLEN, Mbuf.poke] at hl hpt hv ⊢
  have hpl := E.length_decr _ _ _ hpt
  rw [length_slice (by omega)] at hpl
  rw [slice_overwrite_after (by omega) (by omega)] at hv ⊢
  refine ⟨_, mem_append_right _ (mem_singleton_self _), hk, rfl, length_slice (by omega),
    hv, slice mb.buf mb.pos (mb.pos + 8 - mb.pos), slice mb.buf (mb.endPos - 4) 4, ?_,
    length_slice (by omega), rfl, ?_⟩
  · rw [length_slice (by omega)]
    omega
  simp only [gcmOp, Mbuf.left, Mbuf.getLeft]
  rw [slice_append_slice (by omega), slice_append_slice (by omega), slice_append_slice (by omega)]
  congr 1
  omega

theorem srtcpDecryptHmac_none (hk : rtcp.hmac = none) : srtcpDecryptHmac E rtcp start ssrc strm ix c = .ok () c := by
  unfold srtcpDecryptHmac
  rw [hk]
  rfl

theorem srtcpDecryptCipher_clear (hk : rtcp.aes = some key) :
    srtcpDecryptCipher E rtcp start pldStart eixStart ssrc ix false c = .ok () c := by
  unfold srtcpDecryptCipher
  rw [hk]
  rfl

theorem srtcpDecryptCipher_ctr_evs (hk : rtcp.aes = some key) (hm : rtcp.mode = .CTR) {ep : Bool}
    (h : srtcpDecryptCipher E rtcp start pldStart eixStart ssrc ix ep c = .ok u c') :
    c'.evs = c.evs := by
  cases ep with
  | false =>
    rw [srtcpDecryptCipher_clear hk] at h
    cases h
    rfl
  | true =>
    obtain ⟨pt, -, rfl⟩ := (srtcpDecryptCipher_ctr_ok hk hm).1 h
    rfl

end

/-- A GCM context accepts a packet with a clear E bit unchecked, as soon as it has room for the
stream. -/
theorem srtcpDecrypt_gcm_clear {E : Env} {suite : Suite} (hs : srtp.Of suite)
    (hh : suite.params.hash = false) (hmb : mb.Ok) (hlen : 12 ≤ mb.getLeft)
    (hroom : srtp.Room E (rtcpSsrc mb.left)) (hep : rtcpEBit 0 mb.left = false) :
    ∃ c', srtcpDecrypt E ⟨srtp, mb, []⟩ = .ok () c' ∧ c'.evs = [] := by
  rcases hs.comps.2.shape with ⟨hh', -⟩ | ⟨-, kE, hE, hA, -, htl⟩
  · rw [hh] at hh'
    cases hh'
  obtain ⟨⟨strm, srtp'⟩, hget⟩ := streamGet_isOk.2 hroom
  exact ⟨_, (srtcpDecrypt_ok hmb).2 ⟨by simp only [htl]; omega, strm, srtp', _, _, hget,
    srtcpDecryptHmac_none hA, by simp only [htl, hep]; exact srtcpDecryptCipher_clear hE, rfl⟩, rfl⟩

/-- **An accepted SRTCP packet has been authenticated, unless it is a GCM packet with the E bit
clear**: `srtcp_decrypt` authenticates GCM packets only where it decrypts them. -/
theorem srtcpDecrypt_integrity_iff {suite : Suite} {srtp : Session} (hs : srtp.Of suite) (E : Env)
    {mb : Mbuf} (hmb : mb.Ok) :
    (∀ c', srtcpDecrypt E ⟨srtp, mb, []⟩ = .ok () c' → ∃ ev ∈ c'.evs, Checked E srtp.rtcp mb.left ev) ↔
      ¬ (suite.params.hash = false ∧ 12 ≤ mb.left.length ∧ srtp.Room E (rtcpSsrc mb.left) ∧
          rtcpEBit 0 mb.left = false) := by
  rcases hs.comps.2.shape with ⟨hh, kE, kA, hE, hA, hm, -, -⟩ | ⟨hh, kE, hE, hA, hm, htl⟩
  · refine ⟨fun _ h => by simp [hh] at h, fun _ c' h => ?_⟩
    obtain ⟨hl, strm, srtp', c2, c3, -, hc2, hc3, rfl⟩ := (srtcpDecrypt_ok hmb).1 h
    obtain ⟨ev, hev, hchk⟩ := checked_of_hmac hA hmb hl hc2
    exact ⟨ev, by rw [srtcpDecryptCipher_ctr_evs hE hm hc3]; exact hev, hchk⟩
  have hlen := Mbuf.length_left hmb
  constructor
  · rintro hall ⟨-, hl, hroom, hep⟩
    obtain ⟨c', hc, hevs⟩ := srtcpDecrypt_gcm_clear hs hh hmb (by omega) hroom hep
    obtain ⟨ev, hev, -⟩ := hall c' hc
    rw [hevs] at hev
    cases hev
  intro hn c' h
  obtain ⟨hl, strm, srtp', c2, c3, hget, hc2, hc3, rfl⟩ := (srtcpDecrypt_ok hmb).1 h
  rw [srtcpDecryptHmac_none hA] at hc2
  cases hc2
  simp only [htl, Nat.add_zero, Nat.sub_zero] at hl hc3
  cases hep : rtcpEBit 0 mb.left with
  | false => exact absurd ⟨hh, by omega, streamGet_isOk.1 ⟨_, hget⟩, hep⟩ hn
  | true =>
    rw [hep] at hc3
    obtain ⟨ev, hev, hchk⟩ := checked_of_gcm hE hm hmb ⟨_, _, rfl⟩ hc3
    exact ⟨ev, hev, hchk⟩

def forgedReport : Mbuf := ⟨[128, 200, 0, 2, 0, 0, 0, 7, 0, 0, 0, 1], 0, 12⟩

theorem srtcpDecrypt_integrity_cm80 :
    (∀ c', srtcpDecrypt xorEnv ⟨xorSession .AES_CM_128_HMAC_SHA1_80, forgedReport, []⟩ = .ok () c' → ∃ ev ∈ c'.evs,
          Checked xorEnv (xorSession .AES_CM_128_HMAC_SHA1_80).rtcp forgedReport.left ev) ↔
      ¬ (Suite.AES_CM_128_HMAC_SHA1_80.params.hash = false ∧ 12 ≤ forgedReport.left.length ∧
        (xorSession .AES_CM_128_HMAC_SHA1_80).Room xorEnv (rtcpSsrc forgedReport.left) ∧
        rtcpEBit 0 forgedReport.left = false) :=
  srtcpDecrypt_integrity_iff (xorSession_of _) xorEnv ⟨by decide, by decide⟩

/-- A GCM context accepts it, and has checked nothing. -/
theorem srtcpDecrypt_gcm_forged :
    Result.err (srtcpDecrypt xorEnv ⟨xorSession .AES_128_GCM, forgedReport, []⟩) = none ∧
    (Result.state (srtcpDecrypt xorEnv ⟨xorSession .AES_128_GCM, forgedReport, []⟩)).evs = [] := by
  decide +kernel

end BareRTC.Srtp
