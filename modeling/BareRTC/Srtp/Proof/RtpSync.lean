import BareRTC.Srtp.Proof.RtpSeal

/-!
# Sender and receiver in step

The packets of one SSRC are numbered without wrapping: packet `J` has the sequence number
`J % 65536`. A stream is *at* `L` (`SrtpStream.At`) if it stands for packet `L`, and a session
*takes* `J` (`Session.Takes`) if `J` is its first packet or follows within half the sequence
number space. Both sides then derive the ROC of `J` from it, the sender the index `J`
(`srtpEncrypt_takes`), the receiver `J` as a C `int` (`srtpDecrypt_index`): the same below `2 ^ 31`.
-/

namespace BareRTC.Srtp

/-- The index `J` once it has been a C `int` -/
abbrev intIndex (J : ℕ) : UInt64 := UInt64.ofInt ((J : Int).bmod (2 ^ 32))

theorem toNat_ofNat16 (J : ℕ) : (UInt16.ofNat J).toNat = J % 65536 := UInt16.toNat_ofNat'

/-- **The receiver's index**, for a ROC and a highest sequence number that are right for `J`. -/
theorem srtpGetIndex_eq {roc : UInt32} {sL seq : UInt16} {J : ℕ} (hroc : roc.toNat = J / 65536)
    (hseq : seq.toNat = J % 65536) (hle : sL.toNat ≤ seq.toNat)
    (hgap : seq.toNat ≤ sL.toNat + 32768) :
    srtpGetIndex roc sL seq = intIndex J := by
  unfold srtpGetIndex
  have hv : (if sL.toNat < 32768 then
      if (seq.toNat : Int) - sL.toNat > 32768 then ((roc - 1).toNat : Int) else roc.toNat
    else
      if (sL.toNat : Int) - 32768 > seq.toNat then ((roc + 1).toNat : Int) else roc.toNat) =
      ((J / 65536 : ℕ) : Int) := by
    rw [if_neg (show ¬ (seq.toNat : Int) - sL.toNat > 32768 by omega),
      if_neg (show ¬ (sL.toNat : Int) - 32768 > seq.toNat by omega), ite_self, hroc]
  rw [hv, hseq]
  refine congrArg UInt64.ofInt ?_
  simp only [int32]
  rw [Int.bmod_mul_bmod, Int.add_bmod_bmod, show ((J % 65536 : ℕ) : Int) + ((J / 65536 : ℕ) : Int) * 65536 = J by omega]

/-- An index survives the C `int` exactly below `2 ^ 31`. -/
theorem ofInt_bmod_eq_iff {J : ℕ} (hJ : J < 2 ^ 48) : intIndex J = UInt64.ofNat J ↔ J < 2 ^ 31 := by
  have h64 : UInt64.size = 2 ^ 64 := rfl
  have hnat : (UInt64.ofNat J).toNat = J := UInt64.toNat_ofNat_of_lt' (by omega)
  have hint : (intIndex J).toNat = (((J : Int).bmod (2 ^ 32)) % 2 ^ 64).toNat := by
    rw [intIndex, UInt64.ofInt, UInt64.toNat_ofNat_of_lt']
    omega
  rw [← UInt64.toNat_inj, hnat, hint, Int.bmod_def]
  split <;> omega

/-! ## Streams -/

structure SrtpStream.At (strm : SrtpStream) (L : ℕ) : Prop where
  roc : strm.roc.toNat = L / 65536
  sL : strm.sL.toNat = L % 65536
  sLSet : strm.sLSet
  lix : strm.replayRtp.lix.toNat ≤ L

section
variable {strm : SrtpStream} {L J : ℕ}

/-- **The roll-over**: it happens exactly when `J` lies in the next round of sequence numbers. -/
theorem SrtpStream.At.rolled (h : strm.At L) (hle : L ≤ J) (hgap : J ≤ L + 32768) (hJ : J < 2 ^ 48) :
    (strm.rolled (UInt16.ofNat J)).roc.toNat = J / 65536 ∧
      (strm.rolled (UInt16.ofNat J)).sL.toNat ≤ J % 65536 ∧
      J % 65536 ≤ (strm.rolled (UInt16.ofNat J)).sL.toNat + 32768 := by
  have hroc := h.roc
  have hsL := h.sL
  unfold SrtpStream.rolled seqDiff
  rw [toNat_ofNat16]
  split
  · have hsucc : (strm.roc + 1).toNat = strm.roc.toNat + 1 := by
      rw [UInt32.toNat_add, show (1 : UInt32).toNat = 1 from rfl]
      omega
    have hzero : (0 : UInt16).toNat = 0 := rfl
    simp only [SrtpStream.rollOver, hsucc, hroc, hzero]
    omega
  · omega

theorem SrtpStream.at_raised (hroc : strm.roc.toNat = J / 65536) (hle : strm.sL.toNat ≤ J % 65536)
    (hset : strm.sLSet) (hlix : strm.replayRtp.lix.toNat ≤ J) :
    (strm.raised (UInt16.ofNat J)).At J := by
  have hseq := toNat_ofNat16 J
  unfold SrtpStream.raised
  split
  · exact ⟨hroc, hseq, hset, hlix⟩
  rename_i hgt
  have hge := UInt16.le_iff_toNat_le.1 (UInt16.not_lt.1 hgt)
  exact ⟨hroc, by omega, hset, hlix⟩

theorem toNat_ofNat64 (hJ : J < 2 ^ 48) : (UInt64.ofNat J).toNat = J :=
  UInt64.toNat_ofNat_of_lt' (Nat.lt_trans hJ (by decide))

theorem SrtpStream.sendIndex_eq (hroc : (strm.rolled (UInt16.ofNat J)).roc.toNat = J / 65536)
    (hJ : J < 2 ^ 48) : strm.sendIndex (UInt16.ofNat J) = UInt64.ofNat J := by
  rw [← UInt64.toNat_inj, toNat_ofNat64 hJ, SrtpStream.sendIndex, UInt64.toNat_add,
    UInt64.toNat_mul, UInt32.toNat_toUInt64, UInt16.toNat_toUInt64, hroc, toNat_ofNat16,
    show (65536 : UInt64).toNat = 65536 from rfl]
  omega

end

/-! ## Sessions -/

structure Session.Takes (E : Env) (srtp : Session) (ssrc : UInt32) (J : ℕ) : Prop where
  room : srtp.Room E ssrc
  near : ∃ L, (srtp.current ssrc (UInt16.ofNat J)).At L ∧ L ≤ J ∧ J ≤ L + 32768
  free : ¬ (srtp.current ssrc (UInt16.ofNat J)).replayRtp.win.Blocked J
  lt : J < 2 ^ 48

def Session.Took (srtp : Session) (ssrc : UInt32) (J : ℕ) : Prop := ∃ strm, srtp.streamFind ssrc = some strm ∧ strm.At J

section
variable {E : Env} {srtp : Session} {ssrc : UInt32} {L J : ℕ} {suite : Suite} {mb mb₁ : Mbuf}

theorem Session.takes_first (hE : E.Correct) (hnil : srtp.streaml = []) (hJ : J < 65536) : srtp.Takes E ssrc J := by
  have hcur : srtp.current ssrc (UInt16.ofNat J) = (newStream ssrc).setSeq (UInt16.ofNat J) := by
    simp [Session.current, Session.streamFind, hnil]
  refine ⟨.inr ⟨by rw [hnil]; decide, hE.mem⟩, ⟨J, ?_, Nat.le_refl _, by omega⟩, ?_, by omega⟩
  · rw [hcur]
    refine ⟨?_, toNat_ofNat16 J, rfl, Nat.zero_le _⟩
    show 0 = _
    omega
  · rw [hcur]
    exact not_blocked_init J

theorem Session.Took.takes (h : srtp.Took ssrc L) (hlt : L < J) (hgap : J ≤ L + 32768)
    (hJ : J < 2 ^ 48) : srtp.Takes E ssrc J := by
  obtain ⟨strm, hs, hat⟩ := h
  have hcur : srtp.current ssrc (UInt16.ofNat J) = strm := by
    simp [Session.current, hs, hat.sLSet]
  refine ⟨.inl (by rw [hs]; rfl), ⟨L, hcur ▸ hat, Nat.le_of_lt hlt, hgap⟩, ?_, hJ⟩
  rw [hcur]
  rintro ⟨hle, -⟩
  have hlix := hat.lix
  change J ≤ strm.replayRtp.lix.toNat at hle
  omega

namespace Session.Takes

variable {hdr : RtpHeader} (h : srtp.Takes E hdr.ssrc J) (hseq : hdr.seq = UInt16.ofNat J)
include h hseq

theorem rolled : (srtp.entry hdr).roc.toNat = J / 65536 ∧ (srtp.entry hdr).sL.toNat ≤ J % 65536 ∧
    J % 65536 ≤ (srtp.entry hdr).sL.toNat + 32768 ∧ (srtp.entry hdr).sLSet ∧
    (srtp.entry hdr).replayRtp.lix.toNat ≤ J := by
  obtain ⟨L, hat, hle, hgap⟩ := h.near
  obtain ⟨hroc, hlow, hhigh⟩ := hat.rolled hle hgap h.lt
  rw [Session.entry, hseq, rolled_sLSet, SrtpStream.rolled_replayRtp]
  exact ⟨hroc, hlow, hhigh, hat.sLSet, Nat.le_trans hat.lix hle⟩

theorem roc : (srtp.entry hdr).roc = UInt32.ofNat (J / 65536) := by
  have hlt := h.lt
  rw [← UInt32.toNat_inj, (h.rolled hseq).1]
  exact (UInt32.toNat_ofNat_of_lt' (by simp only [UInt32.size]; omega)).symm

theorem sendIndex : (srtp.current hdr.ssrc hdr.seq).sendIndex hdr.seq = UInt64.ofNat J := by
  have hroc := (h.rolled hseq).1
  rw [Session.entry, hseq] at hroc
  rw [hseq]
  exact SrtpStream.sendIndex_eq hroc h.lt

theorem recvIndex : srtp.recvIx hdr = intIndex J := by
  obtain ⟨hroc, hlow, hhigh, -⟩ := h.rolled hseq
  have hnat : hdr.seq.toNat = J % 65536 := hseq ▸ toNat_ofNat16 J
  exact srtpGetIndex_eq hroc hnat (hnat ▸ hlow) (hnat ▸ hhigh)

theorem not_late : ¬ srtp.Late hdr := by
  obtain ⟨L, hat, hle, hgap⟩ := h.near
  have hsL := hat.sL
  unfold Session.Late seqDiff
  rw [hseq, toNat_ofNat16, hsL]
  omega

theorem fresh : (srtpReplayCheck (srtp.entry hdr).replayRtp (UInt64.ofNat J)).1 := by
  rw [srtpReplayCheck_fst, SrtpStream.rolled_replayRtp, toNat_ofNat64 h.lt, hseq]
  exact h.free

theorem sent : ((srtp.entry hdr).raised hdr.seq).At J := by
  obtain ⟨hroc, hlow, -, hset, hlix⟩ := h.rolled hseq
  exact hseq ▸ SrtpStream.at_raised hroc hlow hset hlix

theorem received : ((srtp.entry hdr).checkRtp (UInt64.ofNat J) (srtp.entry hdr) |>.raised hdr.seq).At J := by
  obtain ⟨hroc, hlow, -, hset, hlix⟩ := h.rolled hseq
  refine hseq ▸ SrtpStream.at_raised hroc hlow hset ?_
  show (srtpReplayCheck _ _).2.win.last ≤ J
  rw [srtpReplayCheck_snd, toNat_ofNat64 h.lt]
  exact Window.last_check_le hlix (Nat.le_refl _)

end Session.Takes

/-! ## One packet -/

def RtpPacket (ssrc : UInt32) (J : ℕ) (mb : Mbuf) : Prop :=
  mb.Ok ∧ ∃ hdr mb', rtpHdrDecode mb = .ok hdr mb' ∧ hdr.ssrc = ssrc ∧ hdr.seq = UInt16.ofNat J

structure Wire (E : Env) (comp : Comp) (ssrc : UInt32) (J : ℕ) (mb mb₁ : Mbuf) : Prop where
  ok : mb.Ok
  packet : ∃ hdr a p y, hdr.ssrc = ssrc ∧ hdr.seq = UInt16.ofNat J ∧
    rtpHdrDecode mb = .ok hdr (mb.setPos a.length) ∧
    rtpHdrDecode mb₁ = .ok hdr (mb₁.setPos a.length) ∧ mb.pos ≤ a.length ∧
    mb.Holds (a ++ p) mb.pos ∧ mb₁.Holds y mb.pos ∧
    Sealed E comp mb.pos ssrc (UInt32.ofNat (J / 65536)) (UInt64.ofNat J) a p y

theorem srtpEncrypt_takes (hE : E.Correct) (hs : srtp.Of suite) (hJ : srtp.Takes E ssrc J) (hmb : RtpPacket ssrc J mb) :
    ∃ srtp' mb₁, srtpEncrypt E ⟨srtp, mb, []⟩ = .ok () ⟨srtp', mb₁,
        [.index ssrc (UInt32.ofNat (J / 65536)) (UInt64.ofNat J)]⟩ ∧
      srtp'.rtp = srtp.rtp ∧ srtp'.rtcp = srtp.rtcp ∧ srtp'.Took ssrc J ∧
      Wire E srtp.rtp ssrc J mb mb₁ := by
  obtain ⟨hok, hdr, mb', hh, rfl, hseq⟩ := hmb
  obtain ⟨k, hk, rfl, -⟩ := rtpHdrDecode_reads mb hdr mb' (Nat.zero_le _) hh
  obtain ⟨a, p, ha, hx, hx'⟩ := Mbuf.exists_split (k := k) hok hk
  obtain ⟨srtp1, hget, -, hfound⟩ := exists_found hJ.room
  have hix := @encryptIndex_eq E hdr ⟨srtp, mb.setPos (mb.pos + k), []⟩
  simp only [hget] at hix
  generalize srtp1.modStream hdr.ssrc (SrtpStream.rolled hdr.seq) = srtp2 at hfound hix
  obtain ⟨y, mb1, mb2, q, hseal, hc, hm, hy⟩ := encrypt_seals hE hs.comps.1 hx'
    (show mb.pos ≤ a.length by omega) hdr.ssrc (srtp.entry hdr).roc
    ((srtp.current hdr.ssrc hdr.seq).sendIndex hdr.seq) srtp2
    [.index hdr.ssrc (srtp.entry hdr).roc ((srtp.current hdr.ssrc hdr.seq).sendIndex hdr.seq)]
  obtain ⟨hlen, htake⟩ := hseal.length_le
  have hlen' := hlen
  rw [List.length_append] at hlen'
  have hy' := hy.setPos (show mb.pos ≤ y.length by omega)
  have hwire : Wire E srtp.rtp hdr.ssrc J mb (mb2.setPos mb.pos) := by
    rw [hJ.roc hseq, hJ.sendIndex hseq] at hseal
    exact ⟨hok, hdr, a, p, y, rfl, hseq, ha.symm ▸ hh, rtpHdrDecode_sealed hh hx ha hy' hlen htake,
      by omega, hx, hy', hseal⟩
  rw [← hJ.roc hseq, ← hJ.sendIndex hseq]
  refine ⟨srtp2.modStream hdr.ssrc (SrtpStream.raised hdr.seq), _, ?_, hfound.rtp, hfound.rtcp,
    ⟨_, ?_, hJ.sent hseq⟩, hwire⟩
  · unfold srtpEncrypt
    rw [get_bind, bind_of_ok (onMb_of_ok hh), bind_of_ok hix]
    dsimp only [List.nil_append]
    rw [bind_of_ok hc, bind_of_ok hm, bind_of_ok (seqUpdate_eq hfound.find rfl)]
    rfl
  · rw [streamFind_modStream (SrtpStream.raised_ssrc _), hfound.find]
    rfl

/-- **Receiving packet `J`** below `2 ^ 31`: the same index, and the packet is back. -/
theorem srtpDecrypt_takes (hE : E.Correct) (hs : srtp.Of suite) (hJ : srtp.Takes E ssrc J)
    (hlt : J < 2 ^ 31) (hmb : Wire E srtp.rtp ssrc J mb mb₁) :
    ∃ srtp' mb2 evs, srtpDecrypt E ⟨srtp, mb₁, []⟩ = .ok () ⟨srtp', mb2,
        .index ssrc (UInt32.ofNat (J / 65536)) (UInt64.ofNat J) :: evs⟩ ∧
      srtp'.rtp = srtp.rtp ∧ srtp'.rtcp = srtp.rtcp ∧ srtp'.Took ssrc J ∧
      mb2.Holds (mb.buf.take mb.endPos) mb.pos := by
  obtain ⟨-, hdr, a, p, y, rfl, hseq, -, hh, hpos, hx, hy, hseal⟩ := hmb
  have hix := (hJ.recvIndex hseq).trans ((ofInt_bmod_eq_iff hJ.lt).2 hlt)
  have hfresh := hJ.fresh hseq
  have htook := hJ.received hseq
  rw [← hix] at hfresh hseal htook
  rw [← hJ.roc hseq] at hseal
  obtain ⟨srtp2, hfound, hfind⟩ :=
    @decryptIndex_found E srtp (mb₁.setPos a.length) [] hdr hJ.room (hJ.not_late hseq)
  have hlen := hseal.length_le.1
  rw [List.length_append] at hlen
  obtain ⟨c1, mb2, evs, hc1, hc2, hmb2⟩ := decrypt_opens hE hs.comps.1 hseal
    (hy.setPos (show a.length ≤ y.length by omega)) hpos hfresh
    [.index hdr.ssrc (srtp.entry hdr).roc (srtp.recvIx hdr)]
  rw [← hix, ← hJ.roc hseq, hx.take]
  refine ⟨(srtp2.modStream hdr.ssrc ((srtp.entry hdr).checkRtp (srtp.recvIx hdr))).modStream
      hdr.ssrc (SrtpStream.raised hdr.seq), mb2.setPos mb.pos, evs, ?_, hfound.rtp, hfound.rtcp,
    ⟨_, ?_, htook⟩, hmb2.setPos (by rw [List.length_append]; omega)⟩
  · rw [srtpDecrypt_of_hdr hh, bind_of_ok hfind]
    dsimp only [List.nil_append]
    unfold decryptBody
    rw [hy.pos, bind_of_ok hc1, bind_of_ok hc2, bind_of_ok (seqUpdate_checkRtp hfound.find rfl)]
    rfl
  · rw [streamFind_modStream (SrtpStream.raised_ssrc _), find_checkRtp hfound.find]
    rfl

/-! ## The index of a call -/

def usedIndex : List Ev → Option (UInt32 × UInt64)
  | .index _ roc ix :: _ => some (roc, ix)
  | _ => none

theorem decryptBody_grows {comp : Comp} {start : Nat} {seq : UInt16} {strm : SrtpStream}
    {ix : UInt64} : Grows (decryptBody E comp start ssrc seq strm ix) := by
  unfold decryptBody
  refine decryptHmac_tame.grows.bind fun _ => decryptCipher_tame.grows.bind fun _ => ?_
  refine Grows.bind ?_ fun _ => (Quiet.modMb _).grows
  unfold seqUpdate
  split
  · exact fun _ => List.prefix_rfl
  · exact (Quiet.pure _).grows

/-- **The index the receiver works with** on packet `J`, whatever comes of it. -/
theorem srtpDecrypt_index (hJ : srtp.Takes E ssrc J) {comp : Comp} (hmb : Wire E comp ssrc J mb mb₁) :
    usedIndex (Result.state (srtpDecrypt E ⟨srtp, mb₁, []⟩)).evs = some (UInt32.ofNat (J / 65536), intIndex J) := by
  obtain ⟨-, hdr, a, p, y, rfl, hseq, -, hh, -⟩ := hmb
  obtain ⟨srtp2, -, hix⟩ := @decryptIndex_found E srtp (mb₁.setPos a.length) [] hdr hJ.room (hJ.not_late hseq)
  rw [hJ.roc hseq, hJ.recvIndex hseq] at hix
  rw [srtpDecrypt_of_hdr hh, bind_of_ok hix]
  obtain ⟨evs, hevs⟩ := decryptBody_grows
    ⟨srtp2, mb₁.setPos a.length, [] ++ [.index hdr.ssrc (UInt32.ofNat (J / 65536)) (intIndex J)]⟩
  dsimp only
  rw [← hevs]
  rfl

end

/-! ## Sequences of packets -/

def packetStep (f : CallM Unit) (srtp : Session) (mb : Mbuf) :
    Session × EStateM.Result Errno Call Unit :=
  ((Result.state (f ⟨srtp, mb, []⟩)).srtp, f ⟨srtp, mb, []⟩)

def encrypted (E : Env) (srtp : Session) (pk : ℕ → Mbuf) (k : ℕ) :
    EStateM.Result Errno Call Unit :=
  outAt (packetStep (srtpEncrypt E)) srtp pk k

def decrypted (E : Env) (srtp : Session) (pk : ℕ → Mbuf) (k : ℕ) :
    EStateM.Result Errno Call Unit :=
  outAt (packetStep (srtpDecrypt E)) srtp pk k

structure Delivered (s n : ℕ) (κ : ℕ → ℕ) (m : ℕ) : Prop where
  lt : ∀ j < m, κ j < n
  first : 0 < m → s + κ 0 < 65536
  next : ∀ j, j + 1 < m → κ j < κ (j + 1) ∧ κ (j + 1) ≤ κ j + 32768

def Session.InStep (E : Env) (srtp₀ : Session) (ssrc : UInt32) (J : ℕ) (srtp : Session) : Prop :=
  srtp.rtp = srtp₀.rtp ∧ srtp.rtcp = srtp₀.rtcp ∧ srtp.Takes E ssrc J

section
variable {E : Env} {suite : Suite} {key : Bytes} {srtp : Session} {ssrc : UInt32} {s n m : ℕ}
  {pk wire : ℕ → Mbuf} {κ : ℕ → ℕ}

theorem Session.of_alloc {srtp' : Session} (halloc : srtpAlloc E suite key = .ok srtp)
    (hrtp : srtp'.rtp = srtp.rtp) (hrtcp : srtp'.rtcp = srtp.rtcp) : srtp'.Of suite :=
  ⟨E, key, srtp, halloc, hrtp, hrtcp⟩

/-- What every packet of a sequence gives, from what one gives and keeps. -/
theorem packets_run {f : CallM Unit} {I : ℕ → Session → Prop} {Q : ℕ → Call → Prop} (h0 : 0 < n → I 0 srtp)
    (hstep : ∀ k < n, ∀ srtp, I k srtp → ∃ c, f ⟨srtp, pk k, []⟩ = .ok () c ∧ (k + 1 < n → I (k + 1) c.srtp) ∧ Q k c) :
    ∀ k < n, ∃ c, outAt (packetStep f) srtp pk k = .ok () c ∧ Q k c := by
  intro k hk
  have hinv : I k (stateAt (packetStep f) srtp pk k) := by
    refine stateAt_inv h0 (fun k hk s hs => ?_) k hk
    obtain ⟨c, hc, hnext, -⟩ := hstep k (by omega) s hs
    rw [packetStep, hc]
    exact hnext hk
  obtain ⟨c, hc, -, hq⟩ := hstep k hk _ hinv
  exact ⟨c, hc, hq⟩

theorem encrypted_run (hE : E.Correct) (halloc : srtpAlloc E suite key = .ok srtp)
    (hs : s < 65536) (hn : s + n ≤ 2 ^ 48) (hpk : ∀ k < n, RtpPacket ssrc (s + k) (pk k)) :
    ∀ k < n, ∃ c, encrypted E srtp pk k = .ok () c ∧
      c.evs = [.index ssrc (UInt32.ofNat ((s + k) / 65536)) (UInt64.ofNat (s + k))] ∧
      Wire E srtp.rtp ssrc (s + k) (pk k) c.mb := by
  refine packets_run (I := fun k => Session.InStep E srtp ssrc (s + k)) (fun _ => ⟨rfl, rfl, ?_⟩)
    fun k hk srtp' ⟨hrtp, hrtcp, htakes⟩ => ?_
  · exact Session.takes_first hE (srtpAlloc_ok halloc).1 hs
  obtain ⟨srtp'', mb₁, hrun, hrtp', hrtcp', htook, hwire⟩ := srtpEncrypt_takes hE
    (Session.of_alloc halloc hrtp hrtcp) htakes (hpk k hk)
  exact ⟨_, hrun, fun _ => ⟨hrtp'.trans hrtp, hrtcp'.trans hrtcp,
    htook.takes (by omega) (by omega) (by omega)⟩, rfl, hrtp ▸ hwire⟩

theorem decrypted_inStep (hE : E.Correct) (halloc : srtpAlloc E suite key = .ok srtp)
    (hn : s + n ≤ 2 ^ 48) (hκ : Delivered s n κ m)
    (hwire : ∀ j < m, Wire E srtp.rtp ssrc (s + κ j) (pk j) (wire j)) {j : ℕ} (hj : j < m)
    (hbelow : ∀ k < j, s + κ k < 2 ^ 31) : Session.InStep E srtp ssrc (s + κ j)
      (stateAt (packetStep (srtpDecrypt E)) srtp wire j) := by
  suffices hinv : ∀ i < j + 1, Session.InStep E srtp ssrc (s + κ i)
      (stateAt (packetStep (srtpDecrypt E)) srtp wire i) from hinv j (by omega)
  refine stateAt_inv (fun _ => ⟨rfl, rfl, ?_⟩) fun k hk srtp' hinv => ?_
  · exact Session.takes_first hE (srtpAlloc_ok halloc).1 (hκ.first (by omega))
  obtain ⟨hrtp, hrtcp, htakes⟩ := hinv
  obtain ⟨srtp'', mb2, evs, hrun, hrtp', hrtcp', htook, -⟩ := srtpDecrypt_takes hE
    (Session.of_alloc halloc hrtp hrtcp) htakes (hbelow k (by omega))
    (hrtp ▸ hwire k (by omega))
  have hlt := hκ.lt (k + 1) (by omega)
  obtain ⟨hinc, hgap⟩ := hκ.next k (by omega)
  simp only [packetStep, hrun, Result.state_ok]
  exact ⟨hrtp'.trans hrtp, hrtcp'.trans hrtcp, htook.takes (by omega) (by omega) (by omega)⟩

theorem encrypted_wire (hE : E.Correct) (halloc : srtpAlloc E suite key = .ok srtp)
    (hs : s < 65536) (hn : s + n ≤ 2 ^ 48) (hpk : ∀ k < n, RtpPacket ssrc (s + k) (pk k))
    (hκ : Delivered s n κ m) : ∀ j < m, Wire E srtp.rtp ssrc (s + κ j) (pk (κ j))
      (Result.state (encrypted E srtp pk (κ j))).mb := by
  intro j hj
  obtain ⟨c, hrun, -, hwire⟩ := encrypted_run hE halloc hs hn hpk (κ j) (hκ.lt j hj)
  rw [hrun]
  exact hwire

/-- What each side uses for the `j`-th packet that arrives, if no index before it reached `2 ^
31`. -/
theorem usedIndex_run (hE : E.Correct) (halloc : srtpAlloc E suite key = .ok srtp)
    (hs : s < 65536) (hn : s + n ≤ 2 ^ 48) (hpk : ∀ k < n, RtpPacket ssrc (s + k) (pk k))
    (hκ : Delivered s n κ m) {j : ℕ} (hj : j < m) (hbelow : ∀ k < j, s + κ k < 2 ^ 31) :
    usedIndex (Result.state (encrypted E srtp pk (κ j))).evs =
        some (UInt32.ofNat ((s + κ j) / 65536), UInt64.ofNat (s + κ j)) ∧
      usedIndex (Result.state (decrypted E srtp (fun i => (Result.state (encrypted E srtp pk (κ i))).mb) j)).evs =
        some (UInt32.ofNat ((s + κ j) / 65536), intIndex (s + κ j)) := by
  obtain ⟨c, hrun, hevs, -⟩ := encrypted_run hE halloc hs hn hpk (κ j) (hκ.lt j hj)
  have hwire := encrypted_wire hE halloc hs hn hpk hκ
  obtain ⟨hrtp, -, htakes⟩ := decrypted_inStep hE halloc hn hκ hwire hj hbelow
  exact ⟨by rw [hrun, Result.state_ok, hevs]; rfl, srtpDecrypt_index htakes (hwire j hj)⟩

/-- **Both sides use the same index and ROC** for every packet that arrives, exactly if no index
reaches `2 ^ 31`. -/
theorem usedIndex_agree_iff {tx rx : Session} (hE : E.Correct)
    (htx : srtpAlloc E suite key = .ok tx) (hrx : srtpAlloc E suite key = .ok rx) (hs : s < 65536) (hn : s + n ≤ 2 ^ 48)
    (hpk : ∀ k < n, RtpPacket ssrc (s + k) (pk k)) (hκ : Delivered s n κ m) :
    (∀ j < m, ∃ used, usedIndex (Result.state (encrypted E tx pk (κ j))).evs = some used ∧
        usedIndex (Result.state (decrypted E rx
          (fun i => (Result.state (encrypted E tx pk (κ i))).mb) j)).evs = some used) ↔
      ∀ j < m, s + κ j < 2 ^ 31 := by
  obtain rfl : tx = rx := Except.ok.inj (htx.symm.trans hrx)
  refine ⟨fun hall j => ?_, fun hall j hj => ?_⟩
  · induction j using Nat.strong_induction_on with
    | _ j ih =>
      intro hj
      obtain ⟨hsend, hrecv⟩ := usedIndex_run hE htx hs hn hpk hκ hj fun k hk => ih k hk (by omega)
      obtain ⟨used, hu, hu'⟩ := hall j hj
      have hlt := hκ.lt j hj
      rw [hsend] at hu
      rw [hrecv, ← hu, Option.some.injEq, Prod.mk.injEq] at hu'
      exact (ofInt_bmod_eq_iff (by omega)).1 hu'.2
  · obtain ⟨hsend, hrecv⟩ := usedIndex_run hE htx hs hn hpk hκ hj fun k hk => hall k (by omega)
    have hlt := hκ.lt j hj
    rw [(ofInt_bmod_eq_iff (by omega)).2 (hall j hj)] at hrecv
    exact ⟨_, hsend, hrecv⟩

end

/-! ## A stream that gets that far -/

def plainPacket (ssrc : UInt32) (J : ℕ) : Mbuf :=
  ⟨[128, 0] ++ beBytes 2 J ++ beBytes 4 0 ++ beBytes 4 ssrc.toNat ++ [42], 0, 13⟩

theorem rtpHdrDecode_plainPacket {ssrc : UInt32} {J : ℕ} : rtpHdrDecode (plainPacket ssrc J) =
    .ok ⟨2, false, false, 0, false, 0, UInt16.ofNat (beNat (slice (plainPacket ssrc J).buf 2 2)),
      UInt32.ofNat (beNat (slice (plainPacket ssrc J).buf 4 4)),
      UInt32.ofNat (beNat (slice (plainPacket ssrc J).buf 8 4)), [], 0, 0⟩
      ((plainPacket ssrc J).setPos 12) := by
  have hlen : (plainPacket ssrc J).getLeft = 13 := rfl
  exact rtpHdrDecode_plain (by omega) rfl

theorem rtpPacket_plainPacket (ssrc : UInt32) (J : ℕ) : RtpPacket ssrc J (plainPacket ssrc J) := by
  refine ⟨⟨by simp [plainPacket], by simp [plainPacket]⟩, _, _, rtpHdrDecode_plainPacket, ?_, ?_⟩
  · have hlt := ssrc.toNat_lt
    have hslice : slice (plainPacket ssrc J).buf 8 4 = beBytes 4 ssrc.toNat := rfl
    dsimp only
    rw [hslice, beNat_beBytes, ← UInt32.toNat_inj, UInt32.toNat_ofNat']
    omega
  have hslice : slice (plainPacket ssrc J).buf 2 2 = beBytes 2 J := rfl
  dsimp only
  rw [hslice, beNat_beBytes, ← UInt16.toNat_inj, toNat_ofNat16, toNat_ofNat16]
  omega

theorem delivered_all {s n : ℕ} (hs : s < 65536) : Delivered s n id n :=
  ⟨fun _ hj => hj, fun _ => hs, fun _ _ => ⟨Nat.lt_succ_self _, by simp only [id]; omega⟩⟩

theorem usedIndex_agree_wrap :
    (∀ j < 3, ∃ used, usedIndex (Result.state (encrypted xorEnv (xorSession .AES_128_GCM)
          (fun k => plainPacket 7 (65535 + k)) (id j))).evs = some used ∧
        usedIndex (Result.state (decrypted xorEnv (xorSession .AES_128_GCM) (fun i =>
          (Result.state (encrypted xorEnv (xorSession .AES_128_GCM)
            (fun k => plainPacket 7 (65535 + k)) (id i))).mb) j)).evs = some used) ↔
      ∀ j < 3, 65535 + id j < 2 ^ 31 :=
  usedIndex_agree_iff (n := 3) xorEnv_correct (srtpAlloc_xorSession _) (srtpAlloc_xorSession _)
    (by decide) (by decide)
    (fun _ _ => rtpPacket_plainPacket _ _) (delivered_all (by decide))

theorem delivered_sparse : Delivered 0 2147483649 (32768 * ·) 65537 :=
  ⟨fun _ _ => by omega, fun _ => by omega, fun _ _ => by omega⟩

/-- Every 32768th packet arrives: packet `2 ^ 31` has that index for the sender and
`2 ^ 64 - 2 ^ 31` for the receiver. -/
theorem usedIndex_disagree :
    Delivered 0 2147483649 (32768 * ·) 65537 ∧
      usedIndex (Result.state (encrypted xorEnv (xorSession .AES_CM_128_HMAC_SHA1_80)
        (plainPacket 7) (32768 * 65536))).evs = some (32768, 2147483648) ∧
      usedIndex (Result.state (decrypted xorEnv (xorSession .AES_CM_128_HMAC_SHA1_80) (fun i =>
          (Result.state (encrypted xorEnv (xorSession .AES_CM_128_HMAC_SHA1_80)
            (plainPacket 7) (32768 * i))).mb) 65536)).evs = some (32768, 18446744071562067968) := by
  have hpk : ∀ k < 2147483649, RtpPacket 7 (0 + k) (plainPacket 7 k) := by
    intro k _
    rw [Nat.zero_add]
    exact rtpPacket_plainPacket 7 k
  obtain ⟨hsend, hrecv⟩ := usedIndex_run xorEnv_correct
    (srtpAlloc_xorSession .AES_CM_128_HMAC_SHA1_80) (by decide) (by decide) hpk delivered_sparse
    (show 65536 < 65537 by decide) fun k hk => by omega
  exact ⟨delivered_sparse, hsend, hrecv⟩

end BareRTC.Srtp
