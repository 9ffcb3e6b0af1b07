import BareRTC.Srtp.Proof.RtpDecrypt

/-!
# `srtp_decrypt`: what a failed call leaves behind

`srtp_decrypt` looks the stream up, sets its first sequence number and counts a roll-over before
it authenticates the packet, and enters the packet in the replay list before it decrypts it.
`srtpDecrypt_fail_iff` says for which packets a failure can be seen in the context.
-/

namespace BareRTC.Srtp

theorem rtpHdrDecode_ok {mb mb' : Mbuf} {hdr : RtpHeader} (h : rtpHdrDecode mb = .ok hdr mb') :
    mb'.buf = mb.buf ∧ mb'.endPos = mb.endPos ∧ mb.pos ≤ mb'.pos ∧ mb'.pos - mb.pos ≤ mb.getLeft := by
  obtain ⟨k, hk, rfl, -⟩ := rtpHdrDecode_reads mb hdr mb' (Nat.zero_le _) h
  exact ⟨rfl, rfl, by simp [Mbuf.setPos], by simpa [Mbuf.setPos] using hk⟩

section
variable {E : Env} {srtp : Session} {mb mb' : Mbuf} {evs : List Ev} {hdr : RtpHeader} {s : SrtpStream}

theorem srtpDecrypt_of_hdr (h : rtpHdrDecode mb = .ok hdr mb') :
    srtpDecrypt E ⟨srtp, mb, evs⟩ =
      (decryptIndex E hdr >>= fun p =>
        decryptBody E srtp.rtp mb.pos hdr.ssrc hdr.seq p.1 p.2) ⟨srtp, mb', evs⟩ := by
  unfold srtpDecrypt
  rw [get_bind, bind_of_ok (onMb_of_ok h)]
  rfl

theorem srtpDecrypt_of_no_hdr {e : Errno} (h : rtpHdrDecode mb = .error e mb') :
    srtpDecrypt E ⟨srtp, mb, evs⟩ = .error e ⟨srtp, mb', evs⟩ := by
  unfold srtpDecrypt
  rw [get_bind, bind_of_error (onMb_of_error h)]

/-! ## The packet as the call sees it -/

def Session.Auth (E : Env) (srtp : Session) (w : Bytes) (hdr : RtpHeader) (k : Nat) : Prop :=
  Authentic E srtp.rtp w k hdr.ssrc ((srtp.current hdr.ssrc hdr.seq).rolled hdr.seq).roc
    ((srtp.current hdr.ssrc hdr.seq).recvIndex hdr.seq)

def Session.Fresh (srtp : Session) (hdr : RtpHeader) : Prop :=
  (srtpReplayCheck ((srtp.current hdr.ssrc hdr.seq).rolled hdr.seq).replayRtp
    ((srtp.current hdr.ssrc hdr.seq).recvIndex hdr.seq)).1

def Session.Decr (E : Env) (srtp : Session) (w : Bytes) (hdr : RtpHeader) (k : Nat) : Prop :=
  Decrypts E srtp.rtp w k hdr.ssrc ((srtp.current hdr.ssrc hdr.seq).recvIndex hdr.seq)

def Session.Settled (srtp : Session) (hdr : RtpHeader) : Prop :=
  ∃ s, srtp.streamFind hdr.ssrc = some s ∧ s.sLSet ∧ -32768 < seqDiff s.sL hdr.seq

def Session.Late (srtp : Session) (hdr : RtpHeader) : Prop := 32768 < seqDiff (srtp.current hdr.ssrc hdr.seq).sL hdr.seq

abbrev Session.entry (srtp : Session) (hdr : RtpHeader) : SrtpStream := (srtp.current hdr.ssrc hdr.seq).rolled hdr.seq

abbrev Session.recvIx (srtp : Session) (hdr : RtpHeader) : UInt64 := (srtp.current hdr.ssrc hdr.seq).recvIndex hdr.seq

variable {seq : UInt16}

theorem current_sLSet (ssrc : UInt32) : (srtp.current ssrc seq).sLSet := by
  unfold Session.current
  split
  · split
    · assumption
    · rfl
  · rfl

theorem current_of_known (h : srtp.streamFind hdr.ssrc = some s)
    (hset : s.sLSet) : srtp.current hdr.ssrc hdr.seq = s := by
  simp [Session.current, h, hset]

theorem rolled_sLSet : (s.rolled seq).sLSet = s.sLSet := by
  unfold SrtpStream.rolled
  split <;> rfl

theorem Session.Late.known (h : srtp.Late hdr) : srtp.Known hdr.ssrc := by
  unfold Session.Late Session.current at h
  have hz : ¬ (32768 < seqDiff hdr.seq hdr.seq) := by simp [seqDiff]
  cases hs : srtp.streamFind hdr.ssrc with
  | none =>
    rw [hs] at h
    exact absurd h hz
  | some s =>
    rw [hs] at h
    dsimp only at h
    split at h
    · exact ⟨s, hs, ‹_›⟩
    · exact absurd h hz

theorem Session.Settled.known (h : srtp.Settled hdr) : srtp.Known hdr.ssrc := by
  obtain ⟨s, hs, hset, -⟩ := h
  exact ⟨s, hs, hset⟩

theorem Session.Settled.rolled (h : srtp.Settled hdr) : srtp.entry hdr = srtp.current hdr.ssrc hdr.seq := by
  obtain ⟨s, hs, hset, hd⟩ := h
  rw [Session.entry, current_of_known hs hset]
  exact if_neg (by omega)

theorem Session.Late.settled (h : srtp.Late hdr) : srtp.Settled hdr := by
  obtain ⟨s, hs, hset⟩ := h.known
  unfold Session.Late at h
  rw [current_of_known hs hset] at h
  exact ⟨s, hs, hset, by omega⟩

/-- **Without a settled stream the lookup shows**: any session with the stream the call works on
differs from the one before. -/
theorem ne_of_not_settled {srtp' : Session} (hn : ¬ srtp.Settled hdr)
    (hs : srtp'.streamFind hdr.ssrc = some s) (hset : s.sLSet)
    (hroc : s.roc = (srtp.entry hdr).roc) : srtp' ≠ srtp := by
  rintro rfl
  rw [Session.entry, current_of_known hs hset] at hroc
  have hd : seqDiff s.sL hdr.seq ≤ -32768 := by
    by_contra hd
    exact hn ⟨s, hs, hset, by omega⟩
  have hr : (s.rolled hdr.seq).roc = s.roc + 1 := by
    rw [SrtpStream.rolled, if_pos hd]
    rfl
  simp [hr] at hroc

structure Found (srtp : Session) (hdr : RtpHeader) (srtp₂ : Session) : Prop where
  find : srtp₂.streamFind hdr.ssrc = some ((srtp.current hdr.ssrc hdr.seq).rolled hdr.seq)
  rtp : srtp₂.rtp = srtp.rtp
  rtcp : srtp₂.rtcp = srtp.rtcp
  settled : srtp.Settled hdr → srtp₂ = srtp

theorem exists_found (hroom : srtp.Room E hdr.ssrc) : ∃ srtp1,
    streamGetSeq E hdr.ssrc hdr.seq srtp = .ok (srtp.current hdr.ssrc hdr.seq, srtp1) ∧
      (srtp.Known hdr.ssrc → srtp1 = srtp) ∧ Found srtp hdr (srtp1.modStream hdr.ssrc (SrtpStream.rolled hdr.seq)) := by
  obtain ⟨⟨cur, srtp1⟩, hget⟩ := streamGetSeq_isOk.2 hroom
  obtain ⟨rfl, hfind, -, hrtp, hrtcp, hknown⟩ := streamGetSeq_ok hget
  refine ⟨srtp1, hget, hknown, ?_, hrtp, hrtcp, fun hset => ?_⟩
  · rw [streamFind_modStream (SrtpStream.rolled_ssrc), hfind]
    rfl
  · rw [modStream_eq_self hfind hset.rolled, hknown hset.known]

theorem decryptIndex_found (hroom : srtp.Room E hdr.ssrc) (hlate : ¬ srtp.Late hdr) : ∃ srtp2, Found srtp hdr srtp2 ∧
    decryptIndex E hdr ⟨srtp, mb, evs⟩ = .ok (srtp.entry hdr, srtp.recvIx hdr)
      ⟨srtp2, mb, evs ++ [.index hdr.ssrc (srtp.entry hdr).roc (srtp.recvIx hdr)]⟩ := by
  obtain ⟨srtp1, hget, -, hfound⟩ := exists_found hroom
  refine ⟨_, hfound, ?_⟩
  rw [decryptIndex_eq]
  simp only [hget]
  exact if_neg hlate

/-- The exits of `srtp_decrypt` on a packet with a header and a stream. -/
theorem srtpDecrypt_cases {suite : Suite} (hs : srtp.Of suite) (hmb : mb.Ok)
    (hh : rtpHdrDecode mb = .ok hdr mb') (hroom : srtp.Room E hdr.ssrc) :
    (srtp.Late hdr ∧ ∃ e c', srtpDecrypt E ⟨srtp, mb, evs⟩ = .error e c' ∧ c'.srtp = srtp) ∨
    (¬ srtp.Late hdr ∧ ∃ srtp2 : Session, ∃ strm, srtp2.streamFind hdr.ssrc = some strm ∧ strm = srtp.entry hdr ∧
      (srtp.Settled hdr → srtp2 = srtp) ∧
      Exits (srtp.Auth E mb.left hdr (mb'.pos - mb.pos)) (srtp.Fresh hdr)
        (srtp.Decr E mb.left hdr (mb'.pos - mb.pos)) (srtpDecrypt E ⟨srtp, mb, evs⟩) srtp2
        (srtp2.modStream hdr.ssrc (strm.checkRtp (srtp.recvIx hdr)))) := by
  obtain ⟨hbuf, hend, hle, hlen⟩ := rtpHdrDecode_ok hh
  rw [srtpDecrypt_of_hdr hh]
  by_cases hlate : srtp.Late hdr
  · obtain ⟨srtp1, hget, hknown, -⟩ := exists_found hroom
    have hix := @decryptIndex_eq E hdr ⟨srtp, mb', evs⟩
    simp only [hget] at hix
    rw [if_pos (show seqDiff _ _ > 32768 from hlate)] at hix
    exact .inl ⟨hlate, _, _, bind_of_error hix, hknown hlate.known⟩
  obtain ⟨srtp2, hfound, hix⟩ := @decryptIndex_found E srtp mb' evs hdr hroom hlate
  rw [bind_of_ok hix]
  refine .inr ⟨hlate, srtp2, _, hfound.find, rfl, hfound.settled, ?_⟩
  obtain ⟨buf, pos, e⟩ := mb'
  obtain ⟨rfl, rfl⟩ : buf = mb.buf ∧ e = mb.endPos := ⟨hbuf, hend⟩
  have hp := hmb.pos
  dsimp only [Mbuf.getLeft] at hle hlen
  exact decryptBody_exits hs.comps.1 hfound.find hle (by dsimp only; omega) hmb.endPos

def Session.TraceFree (E : Env) (srtp : Session) (mb : Mbuf) : Prop :=
  ∀ hdr mb', rtpHdrDecode mb = .ok hdr mb' → srtp.Room E hdr.ssrc →
    (srtp.Auth E mb.left hdr (mb'.pos - mb.pos) ∧ srtp.Fresh hdr ∧ srtp.Decr E mb.left hdr (mb'.pos - mb.pos)) ∨
    (srtp.Settled hdr ∧ (srtp.Late hdr ∨ ¬ (srtp.Auth E mb.left hdr (mb'.pos - mb.pos) ∧ srtp.Fresh hdr ∧
        ¬ srtp.Decr E mb.left hdr (mb'.pos - mb.pos))))

/-- **When a failed `srtp_decrypt` leaves the context as it was.** -/
theorem srtpDecrypt_fail_iff {suite : Suite} (hs : srtp.Of suite) (E : Env) (hmb : mb.Ok) :
    (∀ e c', srtpDecrypt E ⟨srtp, mb, []⟩ = .error e c' → c'.srtp = srtp) ↔ srtp.TraceFree E mb := by
  constructor
  · intro hall hdr mb' hh hroom
    rcases @srtpDecrypt_cases E srtp mb mb' [] hdr suite hs hmb hh hroom with
      ⟨hlate, -⟩ | ⟨-, srtp2, strm, hfind, hstrm, hsettled, h⟩
    · exact .inr ⟨hlate.settled, .inl hlate⟩
    have hset : strm.sLSet := by rw [hstrm, rolled_sLSet, current_sLSet]
    rcases h with ⟨ha, hf, hd, -⟩ | ⟨hn, he, hc'⟩ | ⟨ha, hf, hnd, he, hc'⟩
    · exact .inl ⟨ha, hf, hd⟩
    · refine .inr ⟨?_, .inr fun ⟨ha, hf, _⟩ => hn ⟨ha, hf⟩⟩
      by_contra hns
      exact ne_of_not_settled hns hfind hset (by rw [hstrm]) (hc'.symm.trans (hall _ _ he))
    exfalso
    have heq := hc'.symm.trans (hall _ _ he)
    by_cases hst : srtp.Settled hdr
    · rw [hsettled hst] at heq hfind
      refine modStream_ne_self (f := strm.checkRtp _) (fun _ => rfl) hfind (fun hself => ?_) heq
      have hsnd := (srtpReplayCheck_snd_eq_iff _).1 (congrArg SrtpStream.replayRtp hself)
      rw [hstrm] at hsnd
      exact absurd (hsnd.symm.trans hf) (by decide)
    · exact ne_of_not_settled hst (find_checkRtp hfind) hset (by rw [hstrm]; rfl) heq
  · intro hall e c' he
    cases hh : rtpHdrDecode mb with
    | error e' mb' =>
      rw [srtpDecrypt_of_no_hdr hh] at he
      cases he
      rfl
    | ok hdr mb' =>
      by_cases hroom : srtp.Room E hdr.ssrc
      · rcases @srtpDecrypt_cases E srtp mb mb' [] hdr suite hs hmb hh hroom with
          ⟨-, e', c'', he', hc''⟩ | ⟨hnl, srtp2, strm, -, -, hsettled, h⟩
        · rw [he'] at he
          cases he
          exact hc''
        · rcases h with ⟨-, -, -, c'', he'⟩ | ⟨hn, he', hc''⟩ | ⟨ha, hf, hnd, -⟩
          · rw [he'] at he
            cases he
          · rw [he'] at he
            cases he
            rcases hall hdr mb' hh hroom with ⟨ha, hf, -⟩ | ⟨hst, -⟩
            · exact absurd ⟨ha, hf⟩ hn
            · rw [hc'', hsettled hst]
          · rcases hall hdr mb' hh hroom with ⟨-, -, hd⟩ | ⟨-, hlate | hno⟩
            · exact absurd hd hnd
            · exact absurd hlate hnl
            · exact absurd ⟨ha, hf, hnd⟩ hno
      rw [srtpDecrypt_of_hdr hh] at he
      have hix := @decryptIndex_eq E hdr ⟨srtp, mb', []⟩
      cases hget : streamGetSeq E hdr.ssrc hdr.seq srtp with
      | ok r => exact absurd (streamGetSeq_isOk.1 ⟨r, hget⟩) hroom
      | error e' =>
        simp only [hget] at hix
        rw [bind_of_error hix] at he
        cases he
        rfl

end

/-! ## A forged packet -/

def forgedPacket : Mbuf := ⟨[128, 0, 156, 64, 0, 0, 0, 0, 0, 0, 0, 7, 42] ++ List.replicate 10 0, 0, 23⟩

theorem srtpDecrypt_fail_forged :
    (∀ e c', srtpDecrypt xorEnv ⟨xorSession .AES_CM_128_HMAC_SHA1_80, forgedPacket, []⟩ =
        .error e c' → c'.srtp = xorSession .AES_CM_128_HMAC_SHA1_80) ↔
      (xorSession .AES_CM_128_HMAC_SHA1_80).TraceFree xorEnv forgedPacket :=
  srtpDecrypt_fail_iff (xorSession_of _) xorEnv ⟨by decide, by decide⟩

def genuinePacket : Mbuf :=
  (Result.state (srtpEncrypt xorEnv ⟨xorSession .AES_CM_128_HMAC_SHA1_80,
    ⟨[128, 0, 3, 232, 0, 0, 0, 0, 0, 0, 0, 7, 42], 0, 13⟩, []⟩)).mb

def forgedCall : Call := Result.state (srtpDecrypt xorEnv ⟨xorSession .AES_CM_128_HMAC_SHA1_80, forgedPacket, []⟩)

/-- The forged packet fails and leaves a stream behind; the genuine packet, which the context
accepts, is refused after it. -/
theorem srtpDecrypt_forged_first :
    Result.err (srtpDecrypt xorEnv ⟨xorSession .AES_CM_128_HMAC_SHA1_80, genuinePacket, []⟩) = none ∧
    Result.err (srtpDecrypt xorEnv ⟨xorSession .AES_CM_128_HMAC_SHA1_80, forgedPacket, []⟩) = some .EAUTH ∧
    forgedCall.srtp ≠ xorSession .AES_CM_128_HMAC_SHA1_80 ∧
    Result.err (srtpDecrypt xorEnv ⟨forgedCall.srtp, genuinePacket, []⟩) = some .EAUTH := by
  decide +kernel

end BareRTC.Srtp
