import BareRTC.Srtp.Rtp
import BareRTC.Srtp.Proof.Call

/-!
# The packet index

The stream a packet is matched with, its roll-over (`SrtpStream.rolled`) and the index both sides
compute from it: `encryptIndex_eq` and `decryptIndex_eq` give every exit of the two index blocks,
`seqUpdate_eq` the update at the end of a call.
-/

namespace BareRTC.Srtp

def SrtpStream.rolled (seq : UInt16) (s : SrtpStream) : SrtpStream :=
  if seqDiff s.sL seq ≤ -32768 then s.rollOver else s

def SrtpStream.raised (seq : UInt16) (s : SrtpStream) : SrtpStream :=
  if seq > s.sL then { s with sL := seq } else s

def SrtpStream.sendIndex (seq : UInt16) (s : SrtpStream) : UInt64 := 65536 * (s.rolled seq).roc.toUInt64 + seq.toUInt64

def SrtpStream.recvIndex (seq : UInt16) (s : SrtpStream) : UInt64 :=
  srtpGetIndex (s.rolled seq).roc (s.rolled seq).sL seq

@[simp] theorem SrtpStream.rolled_ssrc {seq : UInt16} (s : SrtpStream) : (s.rolled seq).ssrc = s.ssrc := by
  unfold SrtpStream.rolled
  split <;> rfl

@[simp] theorem SrtpStream.rolled_replayRtp (seq : UInt16) (s : SrtpStream) :
    (s.rolled seq).replayRtp = s.replayRtp := by
  unfold SrtpStream.rolled
  split <;> rfl

@[simp] theorem SrtpStream.raised_ssrc (seq : UInt16) (s : SrtpStream) : (s.raised seq).ssrc = s.ssrc := by
  unfold SrtpStream.raised
  split <;> rfl

variable {E : Env} {c c' : Call} {hdr : RtpHeader} {strm : SrtpStream} {ssrc : UInt32} {seq : UInt16}

theorem rocUpdate_eq (hs : c.srtp.streamFind ssrc = some strm) :
    rocUpdate ssrc strm (seqDiff strm.sL seq) c =
      .ok (strm.rolled seq) { c with srtp := c.srtp.modStream ssrc (SrtpStream.rolled seq) } := by
  unfold rocUpdate
  split
  · rename_i h
    have hr : SrtpStream.rolled seq strm = strm.rollOver := if_pos h
    rw [modStream_bind, hr, modStream_congr hs hr]
    rfl
  rename_i h
  have hr : SrtpStream.rolled seq strm = strm := if_neg h
  rw [hr, modStream_eq_self hs hr]
  rfl

/-- Of the stream, `strm` has to know `s_l` only. -/
theorem seqUpdate_eq {s : Session} {mb : Mbuf} {evs : List Ev} {cur : SrtpStream}
    (hs : s.streamFind ssrc = some cur) (hl : cur.sL = strm.sL) :
    seqUpdate ssrc strm seq ⟨s, mb, evs⟩ = .ok () ⟨s.modStream ssrc (SrtpStream.raised seq), mb, evs⟩ := by
  unfold seqUpdate
  split
  · rename_i h
    have hr : cur.raised seq = { cur with sL := seq } := if_pos (hl ▸ h)
    rw [modStream_congr (g := fun s => { s with sL := seq }) hs hr]
    rfl
  rename_i h
  have hr : cur.raised seq = cur := if_neg (hl ▸ h)
  rw [modStream_eq_self hs hr]
  rfl

theorem encryptIndex_eq (c : Call) : encryptIndex E hdr c =
    match streamGetSeq E hdr.ssrc hdr.seq c.srtp with
    | .error e => .error e c
    | .ok (strm, srtp) => .ok (strm.rolled hdr.seq, strm.sendIndex hdr.seq)
        ⟨srtp.modStream hdr.ssrc (SrtpStream.rolled hdr.seq), c.mb,
          c.evs ++ [.index hdr.ssrc (strm.rolled hdr.seq).roc (strm.sendIndex hdr.seq)]⟩ := by
  unfold encryptIndex
  split
  · rename_i h
    rw [bind_of_error (onSrtp_of_error h)]
  rename_i strm srtp h
  obtain ⟨-, hs, -⟩ := streamGetSeq_ok h
  rw [bind_of_ok (onSrtp_of_ok h), bind_of_ok (rocUpdate_eq hs)]
  rfl

theorem decryptIndex_eq (c : Call) : decryptIndex E hdr c =
    match streamGetSeq E hdr.ssrc hdr.seq c.srtp with
    | .error e => .error e c
    | .ok (strm, srtp) =>
      if seqDiff strm.sL hdr.seq > 32768 then .error .ETIMEDOUT { c with srtp }
      else .ok (strm.rolled hdr.seq, strm.recvIndex hdr.seq)
        ⟨srtp.modStream hdr.ssrc (SrtpStream.rolled hdr.seq), c.mb,
          c.evs ++ [.index hdr.ssrc (strm.rolled hdr.seq).roc (strm.recvIndex hdr.seq)]⟩ := by
  unfold decryptIndex
  split
  · rename_i h
    rw [bind_of_error (onSrtp_of_error h)]
  rename_i strm srtp h
  obtain ⟨-, hs, -⟩ := streamGetSeq_ok h
  rw [bind_of_ok (onSrtp_of_ok h)]
  dsimp only
  split
  · rfl
  · rw [bind_of_ok (rocUpdate_eq hs)]
    rfl

end BareRTC.Srtp
