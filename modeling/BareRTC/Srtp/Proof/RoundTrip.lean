import BareRTC.Srtp.Proof.RtcpSync

/-!
# Encrypted packets decrypt to what they were

Two contexts of one key, and a sequence of packets that goes through both. RTP packets come back
as long as the receiver computes their index right, which it does below `2 ^ 31`
(`rtp_roundTrips`, `not_rtp_roundTrips`); RTCP packets as long as there are streams for their
SSRCs (`rtcp_roundTrips`, `dedup_le_of_roundTrips`).
-/

namespace BareRTC.Srtp

open List

def Restored (mb mb' : Mbuf) : Prop :=
  mb'.pos = mb.pos ∧ mb'.endPos = mb.endPos ∧ mb'.buf.take mb'.endPos = mb.buf.take mb.endPos

theorem restored_of_holds {mb mb' : Mbuf} (hmb : mb.Ok)
    (h : mb'.Holds (mb.buf.take mb.endPos) mb.pos) : Restored mb mb' :=
  ⟨h.pos, h.endPos.trans (Mbuf.holds_of_ok hmb).endPos.symm, h.take⟩

/-! ## RTP -/

def RtpRoundTrips (suite : Suite) (s n : ℕ) : Prop :=
  ∀ (E : Env) (key : Bytes) (tx rx : Session) (ssrc : UInt32) (pk : ℕ → Mbuf), E.Correct →
    srtpAlloc E suite key = .ok tx → srtpAlloc E suite key = .ok rx →
    (∀ k < n, RtpPacket ssrc (s + k) (pk k)) →
    ∀ k < n, ∃ c₁ c₂, encrypted E tx pk k = .ok () c₁ ∧
      decrypted E rx (fun i => (Result.state (encrypted E tx pk i)).mb) k = .ok () c₂ ∧
      Restored (pk k) c₂.mb

theorem rtp_roundTrips {suite : Suite} {s n : ℕ} (hs : s < 65536) (hn : s + n ≤ 2 ^ 31) : RtpRoundTrips suite s n := by
  intro E key tx rx ssrc pk hE htx hrx hpk k hk
  obtain rfl : tx = rx := Except.ok.inj (htx.symm.trans hrx)
  have hwire := encrypted_wire hE htx hs (by omega) hpk (delivered_all hs)
  obtain ⟨c, hsent, -⟩ := encrypted_run hE htx hs (by omega) hpk k hk
  obtain ⟨hrtp, hrtcp, htakes⟩ := decrypted_inStep hE htx (by omega) (delivered_all hs) hwire hk
    fun i hi => by simp only [id]; omega
  obtain ⟨srtp'', mb2, evs, hrun, -, -, -, hmb2⟩ := srtpDecrypt_takes hE
    (Session.of_alloc htx hrtp hrtcp) htakes (by simp only [id]; omega) (hrtp ▸ hwire k hk)
  exact ⟨_, _, hsent, hrun, restored_of_holds (hpk k hk).1 hmb2⟩

section
variable {E : Env} {suite : Suite} {srtp : Session} {ssrc : UInt32} {J : ℕ} {mb mb1 : Mbuf} {c' : Call}

/-- A packet that comes back was decrypted with the sender's index, as far as the cipher can
tell. -/
theorem opens_of_restored (hs : srtp.Of suite) (hJ : srtp.Takes E ssrc J)
    (hmb : Wire E srtp.rtp ssrc J mb mb1) (h : srtpDecrypt E ⟨srtp, mb1, []⟩ = .ok () c')
    (hback : Restored mb c'.mb) :
    ∃ hdr a p, rtpHdrDecode mb = .ok hdr (mb.setPos a.length) ∧ mb.Holds (a ++ p) mb.pos ∧
      ((∃ kE ct, E.encr (ctrOp srtp.rtp kE ssrc (UInt64.ofNat J)) p = some ct ∧
          E.decr (ctrOp srtp.rtp kE ssrc (intIndex J)) ct = some p) ∨
        ∃ kE aad ct tag, E.tag (gcmOp srtp.rtp kE ssrc (UInt64.ofNat J) aad ct) = some tag ∧
          E.verify (gcmOp srtp.rtp kE ssrc (intIndex J) aad ct) tag) := by
  obtain ⟨-, hdr, a, p, y, rfl, hseq, hh, hh1, hpos, hx, hy, hseal⟩ := hmb
  obtain ⟨srtp2, -, hix⟩ := @decryptIndex_found E srtp (mb1.setPos a.length) [] hdr hJ.room (hJ.not_late hseq)
  rw [hJ.recvIndex hseq] at hix
  rw [srtpDecrypt_of_hdr hh1, bind_of_ok hix] at h
  obtain ⟨u1, c1, h1, h⟩ := bind_eq_ok.1 h
  obtain ⟨u2, c2, h2, h⟩ := bind_eq_ok.1 h
  obtain ⟨u3, c3, h3, h⟩ := bind_eq_ok.1 h
  cases h
  -- the last two steps leave the bytes alone
  have hmb3 : c3.mb = c2.mb := by
    unfold seqUpdate at h3
    split at h3 <;> cases h3 <;> rfl
  have htake : c2.mb.buf.take c2.mb.endPos = a ++ p := by
    rw [← hmb3]
    exact hback.2.2.trans hx.take
  have hlen := hseal.length_le.1
  rw [length_append] at hlen
  rw [hy.pos] at h1 h2
  refine ⟨hdr, a, p, hh, hx, ?_⟩
  rcases opens_other_index hs.comps.1 (hJ.roc hseq ▸ hseal) (hy.setPos (by omega)) hpos h1 h2 htake with
    ⟨kE, ct, -, hct, hpt⟩ | ⟨kE, ct, tag, -, htag, hv⟩
  · exact .inl ⟨kE, ct, hct, hpt⟩
  · exact .inr ⟨kE, _, ct, tag, htag, hv⟩

end

/-! ### The first packet that does not come back -/

theorem keyByte_of_ctr {op op' : AesOp} {b : UInt8} {ct : Bytes}
    (h : xorEnv.encr op [b] = some ct) (h' : xorEnv.decr op' ct = some [b]) :
    keyByte op = keyByte op' := by
  cases h
  have hb : b ^^^ keyByte op ^^^ keyByte op' = b := by
    simpa [xorEnv] using h'
  have hz := congrArg (b ^^^ ·) hb
  simp only [← UInt8.xor_assoc, UInt8.xor_self, UInt8.zero_xor] at hz
  exact UInt8.xor_eq_zero_iff.1 hz

theorem keyByte_of_gcm {op op' : AesOp} {tag : Bytes}
    (hsame : op.key ++ op.aad ++ op.text = op'.key ++ op'.aad ++ op'.text)
    (h : xorEnv.tag op = some tag) (h' : xorEnv.verify op' tag) :
    keyByte op = keyByte op' := by
  cases h
  have hsum : gcmSum op = gcmSum op' := by simpa [xorEnv] using h'
  rw [gcmSum, gcmSum, hsame] at hsum
  simpa [sumTag] using hsum

/-- The initialisation vectors of packet `2 ^ 31`, on the two sides. -/
theorem keyByte_ne (suite : Suite) (kE aad ct : Bytes) :
    keyByte (ctrOp (xorSession suite).rtp kE 7 (UInt64.ofNat (2 ^ 31))) ≠
        keyByte (ctrOp (xorSession suite).rtp kE 7 (intIndex (2 ^ 31))) ∧
      keyByte (gcmOp (xorSession suite).rtp kE 7 (UInt64.ofNat (2 ^ 31)) aad ct) ≠
        keyByte (gcmOp (xorSession suite).rtp kE 7 (intIndex (2 ^ 31)) aad ct) := by
  have hctr : ∀ ix, keyByte (ctrOp (xorSession suite).rtp kE 7 ix) =
      keyByte (ctrOp (xorSession suite).rtp [] 7 ix) := fun _ => rfl
  have hgcm : ∀ ix, keyByte (gcmOp (xorSession suite).rtp kE 7 ix aad ct) =
      keyByte (gcmOp (xorSession suite).rtp [] 7 ix [] []) := fun _ => rfl
  rw [hctr, hctr, hgcm, hgcm]
  cases suite <;> decide +kernel

theorem payload_plainPacket {ssrc : UInt32} {J q : ℕ} {hdr : RtpHeader} {a p : Bytes}
    (h : rtpHdrDecode (plainPacket ssrc J) = .ok hdr ((plainPacket ssrc J).setPos a.length))
    (hx : (plainPacket ssrc J).Holds (a ++ p) q) : ∃ b, p = [b] := by
  rw [rtpHdrDecode_plainPacket] at h
  have ha : 12 = a.length := by
    injection h with _ h
    exact congrArg Mbuf.pos h
  have hend : 13 = (a ++ p).length := hx.endPos
  rw [length_append] at hend
  exact length_eq_one_iff.1 (by omega)

theorem not_restored_beyond (suite : Suite) {s k : ℕ} (hs : s < 65536) (hJ : s + k = 2 ^ 31) :
    ¬ ∃ c2, decrypted xorEnv (xorSession suite) (fun i => (Result.state (encrypted xorEnv
        (xorSession suite) (fun k => plainPacket 7 (s + k)) i)).mb) k = .ok () c2 ∧
      Restored (plainPacket 7 (s + k)) c2.mb := by
  intro ⟨c2, hrun, hback⟩
  have hpk : ∀ i < k + 1, RtpPacket 7 (s + i) (plainPacket 7 (s + i)) := fun i _ => rtpPacket_plainPacket 7 (s + i)
  have halloc := srtpAlloc_xorSession suite
  have hwire := encrypted_wire xorEnv_correct halloc hs (by omega) hpk (delivered_all hs)
  obtain ⟨hrtp, hrtcp, htakes⟩ := decrypted_inStep xorEnv_correct halloc (by omega)
    (delivered_all hs) hwire (Nat.lt_succ_self k) fun i hi => by simp only [id]; omega
  obtain ⟨hdr, a, p, hh, hx, hopen⟩ := opens_of_restored (Session.of_alloc halloc hrtp hrtcp) htakes
    (hrtp ▸ hwire k (Nat.lt_succ_self k)) hrun hback
  obtain ⟨b, rfl⟩ := payload_plainPacket hh hx
  rw [hrtp] at hopen
  simp only [id, hJ] at hopen
  rcases hopen with ⟨kE, ct, hct, hpt⟩ | ⟨kE, aad, ct, tag, htag, hv⟩
  · exact (keyByte_ne suite kE [] []).1 (keyByte_of_ctr hct hpt)
  · exact (keyByte_ne suite kE aad ct).2 (keyByte_of_gcm rfl htag hv)

theorem not_rtp_roundTrips {suite : Suite} {s n : ℕ} (hs : s < 65536)
    (hbeyond : 2 ^ 31 < s + n) : ¬ RtpRoundTrips suite s n := by
  intro hall
  obtain ⟨k, hJ⟩ : ∃ k, s + k = 2 ^ 31 := ⟨2 ^ 31 - s, by omega⟩
  have halloc := srtpAlloc_xorSession suite
  obtain ⟨-, c2, -, hrun, hback⟩ := hall xorEnv (zeroKey suite) _ _ 7
    (fun k => plainPacket 7 (s + k)) xorEnv_correct halloc halloc
    (fun k _ => rtpPacket_plainPacket 7 (s + k)) k (by omega)
  exact not_restored_beyond suite hs hJ ⟨c2, hrun, hback⟩

/-! ## RTCP -/

def RtcpRoundTrips (suite : Suite) (σ : List UInt32) : Prop :=
  ∀ (E : Env) (key : Bytes) (tx rx : Session) (pk : ℕ → Mbuf), E.Correct →
    srtpAlloc E suite key = .ok tx → srtpAlloc E suite key = .ok rx →
    (∀ k (hk : k < σ.length), RtcpPacket σ[k] (pk k)) →
    ∀ k < σ.length, ∃ c₁ c₂, srtcpEncrypted E tx pk k = .ok () c₁ ∧
      srtcpDecrypted E rx (fun i => (Result.state (srtcpEncrypted E tx pk i)).mb) k = .ok () c₂ ∧
      Restored (pk k) c₂.mb

section
variable {suite : Suite} {σ : List UInt32}

theorem rtcp_roundTrips (hle : σ.dedup.length ≤ SRTP_MAX_STREAMS) (hσ : σ.length < 2 ^ 31) :
    RtcpRoundTrips suite σ := by
  intro E key tx rx pk hE htx hrx hpk k hk
  obtain rfl : tx = rx := Except.ok.inj (htx.symm.trans hrx)
  have hsent := srtcpEncrypted_run hE htx hle hσ hpk
  have hwire : ∀ k (hk : k < σ.length), RtcpWire E tx.rtcp σ[k]
      (UInt32.ofNat ((σ.take k).count σ[k] + 1)) (pk k)
      (Result.state (srtcpEncrypted E tx pk k)).mb := by
    intro k hk
    obtain ⟨c, hrun, hwire⟩ := hsent k hk
    rw [hrun]
    exact hwire hk
  obtain ⟨c, hrun, -⟩ := hsent k hk
  obtain ⟨c2, hrun2, hmb2⟩ := srtcpDecrypted_run hE htx hle hσ hwire k hk
  exact ⟨_, c2, hrun, hrun2, restored_of_holds (hpk k hk).1 hmb2⟩

def plainReport (ssrc : UInt32) : Mbuf := ⟨[128, 201, 0, 1] ++ beBytes 4 ssrc.toNat, 0, 8⟩

theorem rtcpPacket_plainReport (ssrc : UInt32) : RtcpPacket ssrc (plainReport ssrc) := by
  refine ⟨⟨by simp [plainReport], by simp [plainReport]⟩, Nat.le_refl 8, ?_⟩
  have hlt := ssrc.toNat_lt
  have hslice : slice (plainReport ssrc).left 4 4 = beBytes 4 ssrc.toNat := rfl
  rw [rtcpSsrc, hslice, beNat_beBytes, ← UInt32.toNat_inj, UInt32.toNat_ofNat']
  omega

theorem room_of_srtcpEncrypt {E : Env} {srtp : Session} {mb : Mbuf} {c' : Call}
    (hlen : 8 ≤ mb.getLeft) (h : srtcpEncrypt E ⟨srtp, mb, []⟩ = .ok () c') :
    srtp.Room E (rtcpSsrc mb.left) := by
  unfold srtcpEncrypt at h
  rw [get_bind, bind_of_ok (onMb_of_ok (getRtcpSsrc_of_le hlen))] at h
  obtain ⟨strm, c1, hget, -⟩ := bind_eq_ok.1 h
  obtain ⟨srtp1, hget, -⟩ := onSrtp_ok.1 hget
  exact streamGet_isOk.1 ⟨_, hget⟩

/-- Every stream is kept, so a context that encrypted all packets has room for their SSRCs. -/
theorem dedup_le_of_roundTrips (hσ : σ.length < 2 ^ 31) (hall : RtcpRoundTrips suite σ) :
    σ.dedup.length ≤ SRTP_MAX_STREAMS := by
  have halloc := srtpAlloc_xorSession suite
  have hpk : ∀ k (hk : k < σ.length), RtcpPacket σ[k] (plainReport (σ.getD k 0)) := by
    intro k hk
    rw [getD_eq_getElem?_getD, getElem?_eq_getElem hk]
    exact rtcpPacket_plainReport _
  have hok := hall xorEnv (zeroKey suite) _ _ (fun k => plainReport (σ.getD k 0)) xorEnv_correct halloc halloc hpk
  have hinv : ∀ k ≤ σ.length, Session.Counts (xorSession suite) (· = ·) sentRtcp (σ.take k)
      (stateAt (packetStep (srtcpEncrypt xorEnv)) (xorSession suite) (fun k => plainReport (σ.getD k 0)) k) := by
    intro k
    induction k with
    | zero => exact fun _ => Session.counts_alloc halloc rfl
    | succ k ih =>
      intro hk
      obtain ⟨c1, -, hrun, -⟩ := hok k hk
      obtain ⟨-, hlen, hssrc⟩ := hpk k hk
      have hroom := room_of_srtcpEncrypt hlen hrun
      rw [hssrc] at hroom
      obtain ⟨srtp'', mb1, hrun', hinv', -⟩ := (ih (by omega)).encrypt xorEnv_correct halloc hσ hk hroom (hpk k hk)
      show Session.Counts _ _ _ _ (Result.state (srtcpEncrypt xorEnv _)).srtp
      rw [hrun']
      exact hinv'
  have hl := (hinv σ.length (Nat.le_refl _)).lists
  rw [take_length] at hl
  rw [← hl.length_eq]
  exact hl.le

end

/-- **Round trips**: RTP packets come back exactly if no index reaches `2 ^ 31`, RTCP packets
exactly if they have no more than eight SSRCs. -/
theorem roundTrips_iff (suite : Suite) {s n : ℕ} {σ : List UInt32} (hs : s < 65536) (hσ : σ.length < 2 ^ 31) :
    RtpRoundTrips suite s n ∧ RtcpRoundTrips suite σ ↔ s + n ≤ 2 ^ 31 ∧ σ.dedup.length ≤ SRTP_MAX_STREAMS := by
  refine ⟨fun ⟨hrtp, hrtcp⟩ => ⟨?_, dedup_le_of_roundTrips hσ hrtcp⟩,
    fun ⟨hle, hded⟩ => ⟨rtp_roundTrips hs hle, rtcp_roundTrips hded hσ⟩⟩
  by_contra hbeyond
  exact not_rtp_roundTrips hs (by omega) hrtp

theorem roundTrips_wrap :
    RtpRoundTrips .AES_128_GCM 65535 3 ∧ RtcpRoundTrips .AES_128_GCM [7, 8, 7] ↔
      65535 + 3 ≤ 2 ^ 31 ∧ [7, 8, 7].dedup.length ≤ SRTP_MAX_STREAMS :=
  roundTrips_iff .AES_128_GCM (by decide) (by decide)

/-- From the sequence number 65535 on, the packet with the index `2 ^ 31` does not come back; and
the ninth SSRC is refused. -/
theorem roundTrip_lost :
    (¬ ∃ c₂, decrypted xorEnv (xorSession .AES_CM_128_HMAC_SHA1_80) (fun i => (Result.state
        (encrypted xorEnv (xorSession .AES_CM_128_HMAC_SHA1_80)
          (fun k => plainPacket 7 (65535 + k)) i)).mb) 2147418113 = .ok () c₂ ∧
      Restored (plainPacket 7 (65535 + 2147418113)) c₂.mb) ∧
    Result.err (srtcpEncrypted xorEnv (xorSession .AES_CM_128_HMAC_SHA1_80)
      (fun k => plainReport (UInt32.ofNat k)) 8) = some .ENOSR :=
  ⟨not_restored_beyond .AES_CM_128_HMAC_SHA1_80 (by decide) (by decide), by decide +kernel⟩

end BareRTC.Srtp
