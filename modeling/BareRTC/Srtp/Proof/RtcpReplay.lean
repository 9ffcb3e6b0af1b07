import BareRTC.Srtp.Proof.RtcpDecrypt

/-!
# Replayed SRTCP packets

`srtcp_decrypt` over a sequence of received packets. `Seen`: the replay list of the SSRC's stream
blocks the index. No packet makes a seen pair unseen (`Seen.decrypt`); with an HMAC a pair that is
accepted was not seen and is seen afterwards (`seen_of_accepted`), so none is accepted twice. GCM
packets never reach the replay list (`srtcpDecrypt_no_replay_iff`).
-/

namespace BareRTC.Srtp

/-! ## What a packet can do to the session -/

section
variable {E : Env} {rtcp : Comp} {start pldStart eixStart : Nat} {ssrc ix : UInt32} {strm : SrtpStream} {ep : Bool}

def SrtpStream.checkRtcp (strm : SrtpStream) (ix : UInt32) (s : SrtpStream) : SrtpStream :=
  { s with replayRtcp := (srtpReplayCheck strm.replayRtcp ix.toUInt64).2 }

theorem srtcpDecryptHmac_steps :
    Steps Call.srtp (fun s s' => s' = s ∨ s' = s.modStream ssrc (strm.checkRtcp ix))
      (srtcpDecryptHmac E rtcp start ssrc strm ix) := by
  have hrefl : ∀ s : Session, s = s ∨ s = s.modStream ssrc (strm.checkRtcp ix) := fun _ => .inl rfl
  unfold srtcpDecryptHmac
  split
  · exact fun _ => .inl rfl
  refine Keeps.get.bind_left hrefl fun _ => ?_
  refine (Quiet.onMb _).keeps.bind_left hrefl fun _ => ?_
  refine (Quiet.modMb _).keeps.bind_left hrefl fun _ => ?_
  refine Keeps.get.bind_left hrefl fun _ => ?_
  refine (Quiet.hmacDigest _ _).keeps.bind_left hrefl fun _ => ?_
  refine (Quiet.checkTag _ _ _ _ _).keeps.bind_left hrefl fun _ => ?_
  exact fun c => .inr (replayCheck_steps c)

theorem srtcpDecryptCipher_quiet : Quiet (srtcpDecryptCipher E rtcp start pldStart eixStart ssrc ix ep) := by
  unfold srtcpDecryptCipher
  split
  · exact Quiet.pure _
  · exact Quiet.pure _
  · refine (Quiet.modMb _).bind fun _ => Quiet.get.bind fun _ => ?_
    exact (Quiet.aesDecr _ _ _).bind fun _ => Quiet.pure _
  refine Quiet.get.bind fun _ => (Quiet.aesAad _ _).bind fun _ => ?_
  refine (Quiet.aesAad _ _).bind fun _ => (Quiet.modMb _).bind fun _ => ?_
  refine (Quiet.onMb _).bind fun _ => (Quiet.aesDecr _ _ _).bind fun _ => ?_
  exact Quiet.get.bind fun _ => (Quiet.aesAuthenticate _ _).bind fun _ => Quiet.modMb _

/-- On every exit the session is as before, or its stream was looked up, or its replay list was
asked too. -/
theorem srtcpDecrypt_session {c : Call} (hmb : c.mb.Ok) :
    (Result.state (srtcpDecrypt E c)).srtp = c.srtp ∨
      ∃ strm srtp, streamGet E (rtcpSsrc c.mb.left) c.srtp = .ok (strm, srtp) ∧
        ((Result.state (srtcpDecrypt E c)).srtp = srtp ∨
          (Result.state (srtcpDecrypt E c)).srtp = srtp.modStream (rtcpSsrc c.mb.left)
            (strm.checkRtcp (rtcpIx c.srtp.rtcp.tagLen c.mb.left))) := by
  unfold srtcpDecrypt
  rw [get_bind]
  have hread := @srtcpDecryptRead_eq E c.srtp.rtcp c hmb
  split at hread
  · rw [bind_of_error hread]
    exact .inl rfl
  split at hread
  · rw [bind_of_error hread]
    exact .inl rfl
  rename_i strm srtp hs
  refine .inr ⟨strm, srtp, hs, ?_⟩
  split at hread
  · rw [bind_of_error hread]
    exact .inl rfl
  rw [bind_of_ok hread]
  exact srtcpDecryptHmac_steps.bind_right (fun _ => ((Quiet.modMb _).bind fun _ =>
    srtcpDecryptCipher_quiet.bind fun _ => Quiet.modMb _).keeps) _

end

/-! ## Seen indices -/

def Seen (srtp : Session) (p : UInt32 × UInt32) : Prop :=
  ∃ strm, srtp.streamFind p.1 = some strm ∧ strm.replayRtcp.win.Blocked p.2.toNat

section
variable {E : Env} {srtp srtp' : Session} {p : UInt32 × UInt32} {ssrc ix : UInt32} {strm : SrtpStream}

theorem Seen.streamGet (h : Seen srtp p) (hs : streamGet E ssrc srtp = .ok (strm, srtp')) : Seen srtp' p := by
  obtain ⟨s, hf, hb⟩ := h
  by_cases he : p.1 = ssrc
  · rw [he] at hf
    rw [streamGet_of_find hf] at hs
    cases hs
    exact ⟨strm, he ▸ hf, hb⟩
  · exact ⟨s, by rw [streamGet_find_ne hs he]; exact hf, hb⟩

theorem Seen.checkRtcp (h : Seen srtp p) (hs : srtp.streamFind ssrc = some strm) :
    Seen (srtp.modStream ssrc (strm.checkRtcp ix)) p := by
  obtain ⟨s, hf, hb⟩ := h
  by_cases he : p.1 = ssrc
  · rw [he, hs] at hf
    cases hf
    refine ⟨strm.checkRtcp ix strm, ?_, ?_⟩
    · rw [he, streamFind_modStream (f := strm.checkRtcp ix) (fun _ => rfl), hs]
      rfl
    show (srtpReplayCheck strm.replayRtcp ix.toUInt64).2.win.Blocked _
    rw [srtpReplayCheck_snd]
    exact hb.check _
  · refine ⟨s, ?_, hb⟩
    rw [streamFind_modStream_ne (f := strm.checkRtcp ix) (fun _ => rfl) he]
    exact hf

/-- **Nothing seen is forgotten**, whatever the packet and the outcome. -/
theorem Seen.decrypt {c : Call} (hmb : c.mb.Ok) (h : Seen c.srtp p) :
    Seen (Result.state (srtcpDecrypt E c)).srtp p := by
  rcases srtcpDecrypt_session hmb with he | ⟨strm, srtp, hs, he | he⟩ <;> rw [he]
  · exact h
  · exact h.streamGet hs
  · exact (h.streamGet hs).checkRtcp (streamGet_find hs)

/-- **With an HMAC, a packet that is accepted was not seen, and is seen afterwards.** -/
theorem seen_of_accepted {c c' : Call} {key : Bytes} (hk : c.srtp.rtcp.hmac = some key)
    (hmb : c.mb.Ok) (h : srtcpDecrypt E c = .ok () c') :
    ¬ Seen c.srtp (rtcpSsrc c.mb.left, rtcpIx c.srtp.rtcp.tagLen c.mb.left) ∧
      Seen c'.srtp (rtcpSsrc c.mb.left, rtcpIx c.srtp.rtcp.tagLen c.mb.left) := by
  obtain ⟨-, strm, srtp, c2, c3, hs, hc2, hc3, rfl⟩ := (srtcpDecrypt_ok hmb).1 h
  obtain ⟨md, data, -, -, -, -, -, hr⟩ := (srtcpDecryptHmac_ok hk).1 hc2
  obtain ⟨hfresh, rfl⟩ := replayCheck_ok.1 hr
  have hfresh := (srtpReplayCheck_fst _ _).1 hfresh
  rw [UInt32.toNat_toUInt64] at hfresh
  constructor
  · rintro hseen
    obtain ⟨s, hf, hb⟩ := hseen.streamGet hs
    rw [streamGet_find hs] at hf
    cases hf
    exact hfresh hb
  show Seen c3.srtp _
  rw [srtcpDecryptCipher_quiet.keeps.ok hc3]
  refine ⟨strm.checkRtcp (rtcpIx c.srtp.rtcp.tagLen c.mb.left) strm, ?_, ?_⟩
  · show (srtp.modStream _ (strm.checkRtcp _)).streamFind _ = _
    rw [streamFind_modStream (f := strm.checkRtcp _) (fun _ => rfl), streamGet_find hs]
    rfl
  show (srtpReplayCheck strm.replayRtcp _).2.win.Blocked _
  rw [srtpReplayCheck_snd, UInt32.toNat_toUInt64]
  exact Window.check_blocked _ _

theorem srtcpDecrypt_rtcp {c : Call} (hmb : c.mb.Ok) : (Result.state (srtcpDecrypt E c)).srtp.rtcp = c.srtp.rtcp := by
  rcases srtcpDecrypt_session hmb with he | ⟨strm, srtp, hs, he | he⟩ <;> rw [he]
  all_goals exact (streamGet_comps hs).2

theorem rtcp_of_srtcpDecrypt {mb : Mbuf} {c' : Call} (hmb : mb.Ok) (h : srtcpDecrypt E ⟨srtp, mb, []⟩ = .ok () c') :
    c'.srtp.rtcp = srtp.rtcp := by
  have := srtcpDecrypt_rtcp (E := E) (c := ⟨srtp, mb, []⟩) hmb
  rwa [h] at this

/-- **GCM: what was accepted once is accepted again**, and changes nothing. -/
theorem srtcpDecrypt_again {mb : Mbuf} {c' : Call} (hk : srtp.rtcp.hmac = none) (hmb : mb.Ok)
    (h : srtcpDecrypt E ⟨srtp, mb, []⟩ = .ok () c') :
    srtcpDecrypt E ⟨c'.srtp, mb, []⟩ = .ok () c' := by
  have hcomp := rtcp_of_srtcpDecrypt hmb h
  obtain ⟨hl, strm, srtp', c2, c3, hs, hc2, hc3, rfl⟩ := (srtcpDecrypt_ok hmb).1 h
  have hsrtp : c3.srtp = srtp' := by
    rw [srtcpDecryptHmac_none hk] at hc2
    cases hc2
    exact srtcpDecryptCipher_quiet.keeps.ok hc3
  refine (srtcpDecrypt_ok hmb).2 ⟨by rw [hcomp]; exact hl, strm, srtp', c2, c3, ?_, ?_, ?_, rfl⟩
  · dsimp only
    rw [hsrtp]
    exact streamGet_of_find (streamGet_find hs)
  · rw [hcomp]
    exact hc2
  · rw [hcomp]
    exact hc3

end

/-! ## Sequences of packets -/

def srtcpReceive (srtp : Session) (i : Env × Mbuf) : Session × Option (UInt32 × UInt32) :=
  match srtcpDecrypt i.1 ⟨srtp, i.2, []⟩ with
  | .ok _ c => (c.srtp, some (rtcpSsrc i.2.left, rtcpIx srtp.rtcp.tagLen i.2.left))
  | .error _ c => (c.srtp, none)

theorem srtcpReceive_fst (srtp : Session) (i : Env × Mbuf) :
    (srtcpReceive srtp i).1 = (Result.state (srtcpDecrypt i.1 ⟨srtp, i.2, []⟩)).srtp := by
  unfold srtcpReceive
  cases srtcpDecrypt i.1 ⟨srtp, i.2, []⟩ <;> rfl

theorem srtcpReceive_snd {srtp : Session} {i : Env × Mbuf} {p : UInt32 × UInt32}
    (h : (srtcpReceive srtp i).2 = some p) :
    (∃ c', srtcpDecrypt i.1 ⟨srtp, i.2, []⟩ = .ok () c' ∧ (srtcpReceive srtp i).1 = c'.srtp) ∧
      p = (rtcpSsrc i.2.left, rtcpIx srtp.rtcp.tagLen i.2.left) := by
  unfold srtcpReceive at h ⊢
  cases hd : srtcpDecrypt i.1 ⟨srtp, i.2, []⟩ with
  | ok u c' =>
    rw [hd] at h
    exact ⟨⟨c', rfl, rfl⟩, (Option.some.inj h).symm⟩
  | error e c' =>
    rw [hd] at h
    cases h

/-- **Replay protection of SRTCP**: no pair of SSRC and index is ever accepted twice, whatever
arrives, exactly for the suites with an HMAC. -/
theorem srtcpDecrypt_no_replay_iff {E₀ : Env} {suite : Suite} {key : Bytes} {srtp : Session}
    (halloc : srtpAlloc E₀ suite key = .ok srtp) :
    (∀ packets : List (Env × Mbuf), (∀ i ∈ packets, i.2.Ok) →
        (outs srtcpReceive srtp packets).reduceOption.Nodup) ↔ suite.params.hash := by
  have hof : srtp.Of suite := ⟨E₀, key, srtp, halloc, rfl, rfl⟩
  constructor
  · intro hall
    by_contra hh
    have hh : suite.params.hash = false := by simpa using hh
    rcases hof.comps.2.shape with ⟨hh', -⟩ | ⟨-, kE, -, hA, -, -⟩
    · exact absurd (hh.symm.trans hh') (by decide)
    -- twelve zero bytes, twice
    · have hmb : (⟨List.replicate 12 0, 0, 12⟩ : Mbuf).Ok := ⟨by decide, by decide⟩
      obtain ⟨c', h1, -⟩ := srtcpDecrypt_gcm_clear (E := xorEnv) hof hh hmb (by decide)
        (.inr ⟨by rw [(srtpAlloc_ok halloc).1]; decide, rfl⟩) (by decide)
      have h2 := srtcpDecrypt_again hA hmb h1
      have hcomp := rtcp_of_srtcpDecrypt hmb h1
      have := hall [(xorEnv, ⟨List.replicate 12 0, 0, 12⟩), (xorEnv, ⟨List.replicate 12 0, 0, 12⟩)] (by simpa using hmb)
      simp only [outs_cons, outs_nil, srtcpReceive, h1, h2, hcomp] at this
      simp [List.reduceOption] at this
  intro hh packets hok
  rcases hof.comps.2.shape with ⟨-, kE, kA, -, hA, -⟩ | ⟨hh', -⟩
  · refine outs_nodup (fun _ i => i.2.Ok) (fun s => s.rtcp = srtp.rtcp) Seen ?_ ?_ ?_ packets
      srtp rfl (along_of_forall _ (fun i hi _ => hok i hi) _)
    · intro s i hs hi
      rw [srtcpReceive_fst, srtcpDecrypt_rtcp hi, hs]
    · intro s i p hs hi hp
      rw [srtcpReceive_fst]
      exact hp.decrypt (c := ⟨s, i.2, []⟩) hi
    · intro s i p hs hi hp
      obtain ⟨⟨c', hc, hfst⟩, rfl⟩ := srtcpReceive_snd hp
      rw [hfst]
      exact seen_of_accepted (c := ⟨s, i.2, []⟩) (by dsimp only; rw [hs]; exact hA) hi hc
  · exact absurd (hh'.symm.trans hh) (by decide)

theorem srtcpDecrypt_no_replay_cm80 :
    (∀ packets : List (Env × Mbuf), (∀ i ∈ packets, i.2.Ok) →
        (outs srtcpReceive (xorSession .AES_CM_128_HMAC_SHA1_80) packets).reduceOption.Nodup) ↔
      Suite.AES_CM_128_HMAC_SHA1_80.params.hash :=
  srtcpDecrypt_no_replay_iff (srtpAlloc_xorSession _)

def gcmPacket : Mbuf :=
  (Result.state (srtcpEncrypt xorEnv ⟨xorSession .AES_128_GCM,
    ⟨[128, 200, 0, 2, 0, 0, 0, 7, 1, 2, 3, 4], 0, 12⟩, []⟩)).mb

/-- It is accepted each time it arrives. -/
theorem srtcpDecrypt_gcm_replayed :
    (outs srtcpReceive (xorSession .AES_128_GCM)
      [(xorEnv, gcmPacket), (xorEnv, gcmPacket)]).reduceOption = [(7, 1), (7, 1)] := by
  decide +kernel

end BareRTC.Srtp
