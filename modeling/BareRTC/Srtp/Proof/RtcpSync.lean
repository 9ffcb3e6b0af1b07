import BareRTC.Srtp.Proof.RtcpSeal
import BareRTC.Srtp.Proof.RtpSync

/-!
# RTCP packets through two contexts

`srtp.Lists heard`: the context has one stream for each SSRC heard so far, and no other. The
sender's index for an SSRC counts its packets (`srtcpEncrypted_run`), so the receiver, whose replay
list is never ahead of that count, has not seen the index of a packet that arrives in order
(`srtcpDecrypted_run`).
-/

namespace BareRTC.Srtp

open List

/-! ## The streams of a context -/

structure Session.Lists (srtp : Session) (heard : List UInt32) : Prop where
  nodup : (srtp.streaml.map (·.ssrc)).Nodup
  mem : ∀ x, x ∈ srtp.streaml.map (·.ssrc) ↔ x ∈ heard
  le : srtp.streaml.length ≤ SRTP_MAX_STREAMS

section
variable {E : Env} {srtp srtp1 : Session} {x y : UInt32} {f : SrtpStream → SrtpStream}
  {strm : SrtpStream} {heard : List UInt32} {μ : SrtpStream → ℕ}

theorem streamFind_isSome_iff : (srtp.streamFind x).isSome ↔ x ∈ srtp.streaml.map (·.ssrc) := by
  simp [Session.streamFind, find?_isSome]

theorem map_ssrc_modFirst (hf : ∀ s, (f s).ssrc = s.ssrc) : ∀ l : List SrtpStream,
    (modFirst x f l).map (·.ssrc) = l.map (·.ssrc)
  | [] => rfl
  | s :: l => by
    unfold modFirst
    split
    · simp [hf]
    · simp [map_ssrc_modFirst hf l]

theorem Session.Lists.modStream (h : srtp.Lists heard) (hf : ∀ s, (f s).ssrc = s.ssrc) :
    (srtp.modStream x f).Lists heard := by
  have hmap : (srtp.modStream x f).streaml.map (·.ssrc) = srtp.streaml.map (·.ssrc) := map_ssrc_modFirst hf _
  have hlen := congrArg List.length hmap
  rw [length_map, length_map] at hlen
  exact ⟨hmap ▸ h.nodup, fun y => hmap ▸ h.mem y, hlen ▸ h.le⟩

theorem Session.Lists.streamGet (h : srtp.Lists heard)
    (hget : streamGet E x srtp = .ok (strm, srtp1)) : srtp1.Lists (heard ++ [x]) := by
  rcases streamGet_cases hget with ⟨hs, rfl⟩ | ⟨hs, rfl, rfl⟩
  · have hx : x ∈ heard := (h.mem x).1 (streamFind_isSome_iff.1 (by rw [hs]; rfl))
    refine ⟨h.nodup, fun y => ?_, h.le⟩
    rw [h.mem y, mem_append, mem_singleton]
    exact ⟨.inl, fun hy => hy.elim id fun hy => hy ▸ hx⟩
  have hx : x ∉ srtp.streaml.map (·.ssrc) := by
    rw [← streamFind_isSome_iff, hs]
    simp
  have hroom := streamGet_isOk.1 ⟨_, hget⟩
  have hlt : srtp.streaml.length < SRTP_MAX_STREAMS := by
    rcases hroom with hroom | ⟨hlt, -⟩
    · rw [hs] at hroom
      cases hroom
    · exact hlt
  refine ⟨?_, fun y => ?_, ?_⟩
  · rw [map_append, nodup_append]
    refine ⟨h.nodup, nodup_singleton _, fun a ha b hb hab => hx ?_⟩
    rw [map_singleton, mem_singleton] at hb
    rw [hab, hb] at ha
    exact ha
  · rw [map_append, mem_append, mem_append, h.mem y]
    rfl
  · rw [length_append]
    exact hlt

theorem Session.Lists.length_eq (h : srtp.Lists heard) : srtp.streaml.length = heard.dedup.length := by
  have hperm : (srtp.streaml.map (·.ssrc)).Perm heard.dedup := by
    rw [perm_ext_iff_of_nodup h.nodup (nodup_dedup _)]
    intro y
    rw [h.mem y, mem_dedup]
  have := hperm.length_eq
  rwa [length_map] at this

theorem Session.Lists.room (hE : E.Correct) (h : srtp.Lists heard)
    (hle : (heard ++ [x]).dedup.length ≤ SRTP_MAX_STREAMS) : srtp.Room E x := by
  by_cases hx : x ∈ heard
  · exact .inl (streamFind_isSome_iff.2 ((h.mem x).2 hx))
  refine .inr ⟨?_, hE.mem⟩
  rw [h.length_eq]
  have hperm : (heard ++ [x]).dedup.Perm (x :: heard.dedup) := by
    rw [perm_ext_iff_of_nodup (nodup_dedup _) (nodup_cons.2 ⟨by rwa [mem_dedup], nodup_dedup _⟩)]
    intro y
    simp [or_comm]
  have := hperm.length_eq
  rw [length_cons] at this
  omega

/-! ## A number kept for each SSRC -/

def Session.level (μ : SrtpStream → ℕ) (srtp : Session) (x : UInt32) : ℕ := ((srtp.streamFind x).map μ).getD 0

theorem level_of_get (μ : SrtpStream → ℕ) (h0 : μ (newStream x) = 0) (hget : streamGet E x srtp = .ok (strm, srtp1)) :
    μ strm = srtp.level μ x := by
  rcases streamGet_cases hget with ⟨hs, -⟩ | ⟨hs, rfl, -⟩
  · simp [Session.level, hs]
  · simp [Session.level, hs, h0]

theorem level_get (h0 : μ (newStream x) = 0) (hget : streamGet E x srtp = .ok (strm, srtp1)) :
    srtp1.level μ y = srtp.level μ y := by
  by_cases he : y = x
  · rw [he, ← level_of_get μ h0 hget, Session.level, streamGet_find hget]
    rfl
  · rw [Session.level, streamGet_find_ne hget he, Session.level]

theorem level_modStream (hf : ∀ s, (f s).ssrc = s.ssrc) (hget : streamGet E x srtp = .ok (strm, srtp1)) :
    (srtp1.modStream x f).level μ y = if y = x then μ (f strm) else srtp.level μ y := by
  split
  · rename_i he
    rw [he, Session.level, streamFind_modStream hf, streamGet_find hget]
    rfl
  · rename_i he
    rw [Session.level, streamFind_modStream_ne hf he, streamGet_find_ne hget he, Session.level]

end

/-! ## The indices of the two sides -/

def sentRtcp (strm : SrtpStream) : ℕ := strm.rtcpIndex.toNat

def seenRtcp (strm : SrtpStream) : ℕ := strm.replayRtcp.lix.toNat

theorem toNat_nextRtcp {strm : SrtpStream} (h : strm.rtcpIndex.toNat + 1 < 2 ^ 31) :
    strm.nextRtcp.toNat = strm.rtcpIndex.toNat + 1 := by
  rw [SrtpStream.nextRtcp, UInt32.toNat_and, UInt32.toNat_add,
    show (0x7fffffff : UInt32).toNat = 2 ^ 31 - 1 from rfl, Nat.and_two_pow_sub_one_eq_mod,
    show (1 : UInt32).toNat = 1 from rfl]
  omega

/-! ## Sequences of packets -/

def srtcpEncrypted (E : Env) (srtp : Session) (pk : ℕ → Mbuf) (k : ℕ) :
    EStateM.Result Errno Call Unit :=
  outAt (packetStep (srtcpEncrypt E)) srtp pk k

def srtcpDecrypted (E : Env) (srtp : Session) (pk : ℕ → Mbuf) (k : ℕ) :
    EStateM.Result Errno Call Unit :=
  outAt (packetStep (srtcpDecrypt E)) srtp pk k

structure Session.Counts (srtp₀ : Session) (rel : ℕ → ℕ → Prop) (μ : SrtpStream → ℕ)
    (heard : List UInt32) (srtp : Session) : Prop where
  rtp : srtp.rtp = srtp₀.rtp
  rtcp : srtp.rtcp = srtp₀.rtcp
  lists : srtp.Lists heard
  level : ∀ y, rel (srtp.level μ y) (heard.count y)

variable {E : Env} {suite : Suite} {key : Bytes} {srtp srtp' : Session} {pk wire : ℕ → Mbuf} {σ : List UInt32}
  {rel : ℕ → ℕ → Prop} {μ : SrtpStream → ℕ} {mb mb₁ : Mbuf} {k : ℕ}

theorem Session.counts_alloc (halloc : srtpAlloc E suite key = .ok srtp) (h0 : rel 0 0) :
    Session.Counts srtp rel μ [] srtp := by
  have hnil := (srtpAlloc_ok halloc).1
  refine ⟨rfl, rfl, ⟨by simp [hnil], by simp [hnil], by simp [hnil]⟩, fun y => ?_⟩
  simpa [Session.level, Session.streamFind, hnil] using h0

theorem count_take_succ {k : ℕ} (hk : k < σ.length) (y : UInt32) :
    (σ.take (k + 1)).count y = if y = σ[k] then (σ.take k).count σ[k] + 1 else (σ.take k).count y := by
  rw [← take_append_getElem hk, count_append]
  by_cases he : y = σ[k]
  · rw [if_pos he, he, count_singleton_self]
  · have hz : [σ[k]].count y = 0 := count_eq_zero.2 (by simpa using he)
    rw [if_neg he, hz, Nat.add_zero]

theorem dedup_take_le (σ : List UInt32) (k : ℕ) : (σ.take k).dedup.length ≤ σ.dedup.length := by
  rw [← card_toFinset, ← card_toFinset]
  refine Finset.card_le_card fun y hy => ?_
  rw [mem_toFinset] at hy ⊢
  exact mem_of_mem_take hy

theorem count_take_lt {k : ℕ} (hσ : σ.length < 2 ^ 31) (hk : k < σ.length) : (σ.take k).count σ[k] + 1 < 2 ^ 31 := by
  have hcount := count_le_length (a := σ[k]) (l := σ.take k)
  rw [length_take] at hcount
  omega

theorem room_next (hE : E.Correct) (hle : σ.dedup.length ≤ SRTP_MAX_STREAMS) {k : ℕ}
    (hk : k < σ.length) (hl : srtp.Lists (σ.take k)) : srtp.Room E σ[k] := by
  have hded := dedup_take_le σ (k + 1)
  rw [← take_append_getElem hk] at hded
  exact hl.room hE (by omega)

/-- **Sending**: the index is one more than the count. -/
theorem Session.Counts.encrypt (hE : E.Correct) (halloc : srtpAlloc E suite key = .ok srtp)
    (hσ : σ.length < 2 ^ 31) (hk : k < σ.length)
    (hinv : Session.Counts srtp (· = ·) sentRtcp (σ.take k) srtp') (hroom : srtp'.Room E σ[k])
    (hmb : RtcpPacket σ[k] mb) :
    ∃ srtp'' mb₁, srtcpEncrypt E ⟨srtp', mb, []⟩ = .ok () ⟨srtp'', mb₁, []⟩ ∧
      Session.Counts srtp (· = ·) sentRtcp (σ.take (k + 1)) srtp'' ∧
      RtcpWire E srtp.rtcp σ[k] (UInt32.ofNat ((σ.take k).count σ[k] + 1)) mb mb₁ := by
  obtain ⟨⟨strm, srtp1⟩, hget⟩ := streamGet_isOk.2 hroom
  have hlt := count_take_lt hσ hk
  have hstrm : strm.rtcpIndex.toNat = (σ.take k).count σ[k] :=
    (level_of_get sentRtcp rfl hget).trans (hinv.level _)
  have hnext : strm.nextRtcp.toNat = (σ.take k).count σ[k] + 1 := by
    rw [toNat_nextRtcp (by omega), hstrm]
  have hix : strm.nextRtcp = UInt32.ofNat ((σ.take k).count σ[k] + 1) := by
    rw [← UInt32.toNat_inj, hnext, UInt32.toNat_ofNat_of_lt']
    exact Nat.lt_trans hlt (by decide)
  have hf : ∀ s : SrtpStream, (s.setRtcpIndex strm.nextRtcp).ssrc = s.ssrc := fun _ => rfl
  obtain ⟨mb₁, hrun, hwire⟩ := srtcpEncrypt_seals hE
    (Session.of_alloc halloc hinv.rtp hinv.rtcp) hmb hget
  rw [hix, hinv.rtcp] at hwire
  obtain ⟨hrtp, hrtcp⟩ := streamGet_comps hget
  refine ⟨_, mb₁, hrun, ⟨hrtp.trans hinv.rtp, hrtcp.trans hinv.rtcp, ?_, fun y => ?_⟩, hwire⟩
  · rw [← take_append_getElem hk]
    exact (hinv.lists.streamGet hget).modStream hf
  rw [level_modStream hf hget, count_take_succ hk, hinv.level]
  split
  · exact hnext
  · rfl

/-- **Receiving** a packet whose index is ahead of the replay list. -/
theorem Session.Counts.decrypt (hE : E.Correct) (halloc : srtpAlloc E suite key = .ok srtp)
    (hσ : σ.length < 2 ^ 31) (hk : k < σ.length)
    (hinv : Session.Counts srtp (· ≤ ·) seenRtcp (σ.take k) srtp') (hroom : srtp'.Room E σ[k])
    (hmb : RtcpWire E srtp.rtcp σ[k] (UInt32.ofNat ((σ.take k).count σ[k] + 1)) mb mb₁) :
    ∃ c2, srtcpDecrypt E ⟨srtp', mb₁, []⟩ = .ok () c2 ∧
      Session.Counts srtp (· ≤ ·) seenRtcp (σ.take (k + 1)) c2.srtp ∧
      c2.mb.Holds (mb.buf.take mb.endPos) mb.pos := by
  obtain ⟨⟨strm, srtp1⟩, hget⟩ := streamGet_isOk.2 hroom
  have hlt := count_take_lt hσ hk
  have hstrm : strm.replayRtcp.lix.toNat ≤ (σ.take k).count σ[k] := by
    rw [show strm.replayRtcp.lix.toNat = srtp'.level seenRtcp σ[k] from
      level_of_get seenRtcp rfl hget]
    exact hinv.level _
  have hix := UInt32.toNat_ofNat_of_lt' (Nat.lt_trans hlt (by decide))
  obtain ⟨srtp'', mb2, evs, hrun, hsrtp, hmb2⟩ := srtcpDecrypt_opens hE
    (Session.of_alloc halloc hinv.rtp hinv.rtcp) (hinv.rtcp ▸ hmb) (by omega) hget
    (fun hblocked => by have := hblocked.1; change _ ≤ strm.replayRtcp.lix.toNat at this; omega)
  obtain ⟨hrtp, hrtcp⟩ := streamGet_comps hget
  have hlists := hinv.lists.streamGet hget
  rw [take_append_getElem hk] at hlists
  rcases hsrtp with rfl | rfl
  · refine ⟨_, hrun, ⟨hrtp.trans hinv.rtp, hrtcp.trans hinv.rtcp, hlists, fun y => ?_⟩, hmb2⟩
    rw [level_get rfl hget, count_take_succ hk]
    split
    · rename_i he
      rw [he]
      exact Nat.le_succ_of_le (hinv.level _)
    · exact hinv.level y
  have hf : ∀ s : SrtpStream, (strm.checkRtcp (UInt32.ofNat ((σ.take k).count σ[k] + 1)) s).ssrc =
      s.ssrc := fun _ => rfl
  refine ⟨_, hrun, ⟨hrtp.trans hinv.rtp, hrtcp.trans hinv.rtcp, hlists.modStream hf, fun y => ?_⟩,
    hmb2⟩
  rw [level_modStream hf hget, count_take_succ hk]
  split
  · show (srtpReplayCheck _ _).2.win.last ≤ _
    rw [srtpReplayCheck_snd, UInt32.toNat_toUInt64, hix]
    exact Window.last_check_le (Nat.le_succ_of_le hstrm) (Nat.le_refl _)
  · exact hinv.level y

theorem srtcpEncrypted_run (hE : E.Correct) (halloc : srtpAlloc E suite key = .ok srtp)
    (hle : σ.dedup.length ≤ SRTP_MAX_STREAMS) (hσ : σ.length < 2 ^ 31)
    (hpk : ∀ k (hk : k < σ.length), RtcpPacket σ[k] (pk k)) :
    ∀ k < σ.length, ∃ c, srtcpEncrypted E srtp pk k = .ok () c ∧ ∀ hk : k < σ.length,
      RtcpWire E srtp.rtcp σ[k] (UInt32.ofNat ((σ.take k).count σ[k] + 1)) (pk k) c.mb := by
  refine packets_run (I := fun k => Session.Counts srtp (· = ·) sentRtcp (σ.take k))
    (fun _ => Session.counts_alloc halloc rfl) fun k hk srtp' hinv => ?_
  obtain ⟨srtp'', mb₁, hrun, hinv', hwire⟩ := hinv.encrypt hE halloc hσ hk (room_next hE hle hk hinv.lists) (hpk k hk)
  exact ⟨_, hrun, fun _ => hinv', fun _ => hwire⟩

theorem srtcpDecrypted_run (hE : E.Correct) (halloc : srtpAlloc E suite key = .ok srtp)
    (hle : σ.dedup.length ≤ SRTP_MAX_STREAMS) (hσ : σ.length < 2 ^ 31)
    (hwire : ∀ k (hk : k < σ.length), RtcpWire E srtp.rtcp σ[k]
      (UInt32.ofNat ((σ.take k).count σ[k] + 1)) (pk k) (wire k)) :
    ∀ k < σ.length, ∃ c2, srtcpDecrypted E srtp wire k = .ok () c2 ∧
      c2.mb.Holds ((pk k).buf.take (pk k).endPos) (pk k).pos := by
  refine packets_run (I := fun k => Session.Counts srtp (· ≤ ·) seenRtcp (σ.take k))
    (fun _ => Session.counts_alloc halloc (Nat.le_refl _)) fun k hk srtp' hinv => ?_
  obtain ⟨c2, hrun, hinv', hmb2⟩ := hinv.decrypt hE halloc hσ hk (room_next hE hle hk hinv.lists) (hwire k hk)
  exact ⟨c2, hrun, fun _ => hinv', hmb2⟩

end BareRTC.Srtp
