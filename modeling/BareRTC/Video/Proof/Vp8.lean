import BareRTC.Video.Vp8

/-!
# Whole VP8 frames

`gather` reads every packet sent, `Inv` says that a decoder that has started holds what it has
gathered.
-/

namespace BareRTC.Vp8

open List Video

theorem hdrDecode_hdrEncode (noref start : Bool) {partid : UInt8} (hid : partid < 8) (picid : UInt16) (b : Bytes) :
    hdrDecode (hdrEncode noref start partid picid ++ b) = .ok (start, partid, b) := by
  have hall : ∀ p : Fin 8, ∀ noref start : Bool, let v := hdr0 noref start (.ofNat p)
      v.toNat.testBit 7 ∧ v.toNat.testBit 4 = start ∧ v &&& 0x07 = .ofNat p := by
    decide
  have hv := hall ⟨partid.toNat, hid⟩ noref start
  have hbits : Nat.testBit 128 7 ∧ Nat.testBit 128 6 = false ∧ Nat.testBit 128 5 = false ∧
      Nat.testBit 128 4 = false := by decide
  simp only [UInt8.ofNat_toNat] at hv
  simp [hdrDecode, hdrEncode, readIf, hv, hbits, bind, Except.bind, pure, Except.pure]

def gather (a : Bytes) (p : Packet) : Bytes × Unit :=
  match hdrDecode p.data with
  | .error _ => (a, ())
  | .ok (start, partid, mb) => ((if start && partid == 0 then [] else a) ++ mb, ())

structure Sent (frames : List Frame) (pktsize : Nat) (a : Bytes) (p : Packet) : Prop where
  decodes : ∃ r, hdrDecode p.data = .ok r
  length_le : p.data.length ≤ pktsize
  whole : p.marker → ∃ f ∈ frames, (gather a p).1 = f.bytes

section
variable {frames : List Frame} {pktsize : Nat} (h : 4 < pktsize) (noref : Bool) (picid : UInt16)

theorem along_packetize (marker : Bool) {partid : UInt8} (hid : partid < 8) (a buf : Bytes)
    (hT : marker → ∃ f ∈ frames, (if partid = 0 then [] else a) ++ buf = f.bytes) :
    Along gather (Sent frames pktsize) a (packetize marker buf pktsize h noref partid picid) ∧
      exec gather a (packetize marker buf pktsize h noref partid picid) = (if partid = 0 then [] else a) ++ buf := by
  have hdec := fun st b => hdrDecode_hdrEncode noref st hid picid b
  have hgather : ∀ m a st b, (gather a ⟨m, hdrEncode noref st partid picid ++ b⟩).1 =
      (if st then (if partid = 0 then [] else a) else a) ++ b := by
    intro m a st b
    cases st <;> simp [gather, hdec]
  have hlen : ∀ st (b : Bytes), b.length ≤ pktsize - 4 → (hdrEncode noref st partid picid ++ b).length ≤ pktsize := by
    intro st b hb
    rw [length_append, hdrEncode]
    simp only [length_cons, length_nil]
    omega
  refine along_cut (g := fun a => if partid = 0 then [] else a) (hgather false) (hgather marker)
    (fun _ st b hb => ⟨⟨_, hdec st b⟩, hlen st b hb, nofun⟩)
    (fun a st b hb hlast => ⟨⟨_, hdec st b⟩, hlen st b hb, fun hm => ?_⟩) a true buf rfl
  obtain ⟨f, hf, hbytes⟩ := hT hm
  exact ⟨f, hf, hlast.trans hbytes⟩

theorem along_sendParts {f : Frame} (hf : f ∈ frames) : ∀ (ps : List (UInt8 × Bytes)) (a : Bytes),
    (∀ p ∈ ps, p.1 ≠ 0 ∧ p.1 < 8) → a ++ ps.flatMap (·.2) = f.bytes →
      Along gather (Sent frames pktsize) a (sendParts pktsize h noref picid ps)
  | [], _, _, _ => trivial
  | (partid, buf) :: ps, a, hids, hbytes => by
    obtain ⟨hne, hid⟩ := hids _ mem_cons_self
    rw [flatMap_cons, ← append_assoc] at hbytes
    obtain ⟨halong, hexec⟩ := along_packetize h noref picid ps.isEmpty hid a buf
      (fun hm => ⟨f, hf, by rw [if_neg hne, ← hbytes, isEmpty_iff.1 hm]; simp⟩)
    rw [if_neg hne] at hexec
    rw [sendParts, along_append, hexec]
    exact ⟨halong, along_sendParts hf ps _ (fun p hp => hids p (mem_cons_of_mem _ hp)) hbytes⟩

theorem along_packets {f : Frame} (hf : f ∈ frames) (a : Bytes) :
    Along gather (Sent frames pktsize) a (f.packets pktsize h) := by
  obtain ⟨halong, hexec⟩ := along_packetize h (!f.keyframe) f.picid f.rest.isEmpty (show (0 : UInt8) < 8 by decide) a
    f.first (fun hm => ⟨f, hf, by simp [Frame.bytes, isEmpty_iff.1 hm]⟩)
  rw [Frame.packets, sendParts, along_append, hexec]
  exact ⟨halong, along_sendParts h _ _ hf f.rest _ f.rest_ids rfl⟩

end

def Inv (s0 : UInt16) (a : Bytes) (n : Nat) (vds : Viddec) : Prop :=
  vds.started → vds.seq + 1 = s0 + .ofNat n ∧ vds.mb = a

theorem Inv.vp8Decode {frames : List Frame} {pktsize n j : Nat} {s0 : UInt16} {a b : Bytes} {p : Packet} {fails : Bool}
    {vds : Viddec} (hn : n ≤ j) (hj : j < n + 65535) (hab : j = n → b = a) (hp : Sent frames pktsize b p)
    (hs : Inv s0 a n vds) :
    Inv s0 (gather b p).1 (j + 1) (vp8Decode vds (s0 + .ofNat j, p, fails)).1 ∧
      ∀ buf ∈ (vp8Decode vds (s0 + .ofNat j, p, fails)).2.2, ∃ f ∈ frames, buf = f.bytes := by
  obtain ⟨⟨start, partid, mb⟩, hdec⟩ := hp.decodes
  have hwhole := hp.whole
  simp only [gather, hdec] at hwhole ⊢
  simp only [Vp8.vp8Decode, hdec]
  by_cases hidle : (!(start && partid == 0) && !vds.started)
  · rw [if_pos hidle]
    refine ⟨fun hst => ?_, nofun⟩
    rw [show vds.started from hst] at hidle
    simp at hidle
  by_cases hgap : (!(start && partid == 0) && seqDiff vds.seq (s0 + .ofNat j) != 1)
  · rw [if_neg hidle, if_pos hgap]
    exact ⟨fun hst => absurd hst Bool.false_ne_true, nofun⟩
  have hmb : (if (start && partid == 0) then [] else vds.mb) =
      if (start && partid == 0) then [] else b := by
    cases hfirst : start && partid == 0 with
    | true => rfl
    | false =>
      rw [hfirst] at hidle hgap
      obtain ⟨hseq, hmb⟩ := hs (by simpa using hidle)
      rw [hmb, hab ((seq_eq hseq hn hj).1 (by simpa [seqDiff] using hgap))]
  rw [if_neg hidle, if_neg hgap, hmb]
  generalize (if (start && partid == 0) then [] else b) ++ mb = new at hwhole ⊢
  cases hm : p.marker with
  | true =>
    refine ⟨nofun, fun buf hbuf => ?_⟩
    obtain ⟨f, hf, hbytes⟩ := hwhole hm
    exact ⟨f, hf, (Option.some.inj hbuf).symm.trans hbytes⟩
  | false =>
    rw [if_neg Bool.false_ne_true]
    split
    · exact ⟨nofun, nofun⟩
    · exact ⟨fun _ => ⟨seq_succ s0 j, rfl⟩, nofun⟩

/-- **Frames are whole.** No packet is larger than the packet size, and whatever packets are lost, a
frame that is given to the video decoder is one that was sent. -/
theorem frames_whole (frames : List Frame) {pktsize : Nat} (h : 4 < pktsize) (s0 : UInt16) {js : List (Nat × Bool)}
    (hjs : Lossy (frames.flatMap (Frame.packets pktsize h)).length 0 js) :
    (∀ p ∈ frames.flatMap (Frame.packets pktsize h), p.data.length ≤ pktsize) ∧
      ∀ o ∈ outs vp8Decode {} (arrivals s0 (frames.flatMap (Frame.packets pktsize h)) js),
        ∀ buf ∈ o.2, ∃ f ∈ frames, buf = f.bytes := by
  have hsent := along_flatMap frames (fun _ hf => along_packets h hf) []
  constructor
  · intro p hp
    obtain ⟨pre, post, heq⟩ := append_of_mem hp
    rw [heq, along_append] at hsent
    exact hsent.2.1.length_le
  · exact outs_lossy (Inv s0) hsent (fun _ _ _ _ _ _ _ hn hj hab hp hs _ => hs.vp8Decode hn hj hab hp)
      js 0 {} hjs nofun (along_of_forall _ (fun _ _ _ => trivial) _)

def keyFrame : Frame := ⟨true, 7, [1, 2], [], by simp⟩

theorem frames_whole_two : Lossy ([keyFrame].flatMap (Frame.packets 5 (by decide))).length 0 [(0, false), (1, false)] ∧
    ∀ o ∈ outs vp8Decode {} (arrivals 0 ([keyFrame].flatMap (Frame.packets 5 (by decide))) [(0, false), (1, false)]),
      ∀ buf ∈ o.2, ∃ f ∈ [keyFrame], buf = f.bytes := by
  have hjs : Lossy ([keyFrame].flatMap (Frame.packets 5 (by decide))).length 0 [(0, false), (1, false)] := by
    simp [Lossy, Frame.packets, sendParts, packetize, cut, keyFrame]
  exact ⟨hjs, (frames_whole [keyFrame] (by decide) 0 hjs).2⟩

end BareRTC.Vp8
