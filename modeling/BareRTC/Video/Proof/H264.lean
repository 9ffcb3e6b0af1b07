import BareRTC.Video.H264

/-!
# Whole H.264 NAL units

`gather` reads every packet sent, `Inv` says that a decoder that waits for a fragment holds what it
has gathered, behind NAL units that are whole. A slice that is turned away while it waits breaks
that, as the next fragment may then have the number that it waits for and be of another NAL unit.
-/

namespace BareRTC.H264

open List Video

theorem fragment_bits : ∀ hdr : UInt8, hdr < 0x80 → ∀ s e : Bool, let ind := hdr &&& 0x60 ||| 28
    let fu := s.toUInt8 <<< 7 ||| e.toUInt8 <<< 6 ||| hdr &&& 0x1f
    ind &&& 0x1f = 28 ∧ ¬ 0x80 ≤ ind ∧ ind &&& 0x60 ||| fu &&& 0x1f = hdr ∧
      fu.toNat.testBit 7 = s ∧ fu.toNat.testBit 6 = e :=
  forall_uint8 (by decide +kernel)

def gather (a : Bytes) (p : Packet) : Bytes × Unit :=
  match p.data with
  | ind :: fu :: b => ((if fu.toNat.testBit 7 then [ind &&& 0x60 ||| fu &&& 0x1f] else a) ++ b, ())
  | _ => (a, ())

theorem gather_fragment {hdr : UInt8} (hf : hdr < 0x80) (a : Bytes) (m s e : Bool) (b : Bytes) :
    (gather a ⟨m, fragment hdr s e b⟩).1 = (if s then [hdr] else a) ++ b := by
  obtain ⟨-, -, hhdr, hs, -⟩ := fragment_bits hdr hf s e
  simp only [gather, fragment, hhdr, hs]

inductive Sent (nals : List Nal) (a : Bytes) (p : Packet) : Prop
  | single {nal : Nal} (hmem : nal ∈ nals) (hdata : p.data = nal.bytes)
  | piece {hdr : UInt8} {s e : Bool} {b : Bytes} (hf : hdr < 0x80) (hdata : p.data = fragment hdr s e b)
      (hend : e → ∃ nal ∈ nals, (gather a p).1 = nal.bytes)

theorem along_packets {nals : List Nal} {nal : Nal} (hmem : nal ∈ nals) (a : Bytes) :
    Along gather (Sent nals) a nal.packets := by
  have hspell := gather_fragment nal.forbidden
  rw [Nal.packets, h264NalSend]
  split
  · exact ⟨.single hmem rfl, trivial⟩
  exact (along_cut (g := fun _ => [nal.hdr]) (T := nal.bytes) (fun a s b => hspell a _ s _ b)
    (fun a s b => hspell a _ s _ b) (fun a s b _ => .piece nal.forbidden rfl nofun)
    (fun a s b _ hlast => .piece nal.forbidden rfl fun _ => ⟨nal, hmem, hlast⟩) a true nal.buf rfl).1

def Whole (nals : List Nal) (mb : Bytes) : Prop :=
  ∃ l : List Nal, (∀ nal ∈ l, nal ∈ nals) ∧ mb = l.flatMap fun nal => nalSeq ++ nal.bytes

section
variable {nals : List Nal} {s0 : UInt16} {a b mb : Bytes} {n j : Nat} {st : Viddec} {p : Packet}

theorem Whole.add {nal : Nal} (h : Whole nals mb) (hmem : nal ∈ nals) : Whole nals (mb ++ (nalSeq ++ nal.bytes)) := by
  obtain ⟨l, hl, rfl⟩ := h
  refine ⟨l ++ [nal], fun n hn => ?_, by simp⟩
  rcases mem_append.1 hn with hn | hn
  · exact hl n hn
  · rwa [mem_singleton.1 hn]

def Inv (nals : List Nal) (s0 : UInt16) (a : Bytes) (n : Nat) (st : Viddec) : Prop :=
  if st.frag then st.fragSeq + 1 = s0 + .ofNat n ∧
    ∃ mb, Whole nals mb ∧ st.fragStart = mb.length ∧ st.mb = mb ++ (nalSeq ++ a)
  else Whole nals st.mb

theorem Inv.of_whole (hfrag : st.frag = false) (h : Whole nals st.mb) : Inv nals s0 a n st := by
  rw [Inv, if_neg (by rw [hfrag]; exact Bool.false_ne_true)]
  exact h

theorem dropFragment_idle (h : st.frag = false) : dropFragment st = st := by
  rw [dropFragment, h, if_neg Bool.false_ne_true]

theorem Inv.dropFragment (h : Inv nals s0 a n st) :
    (dropFragment st).frag = false ∧ Whole nals (dropFragment st).mb := by
  rw [H264.dropFragment]
  rw [Inv] at h
  split
  · next hfrag =>
    rw [if_pos hfrag] at h
    obtain ⟨-, mb, hwhole, hstart, hmb⟩ := h
    refine ⟨rfl, ?_⟩
    show Whole nals (st.mb.take st.fragStart)
    rwa [hmb, hstart, take_left]
  · next hfrag =>
    rw [if_neg hfrag] at h
    exact ⟨by simpa using hfrag, h⟩

def Listens (st : Viddec) : UInt16 × Packet × Except Errno Bool → Prop
  | (_, p, _) => st.frag → st.gotKeyframe ∨ p.data.headD 0 &&& 0x1f ≠ 1

theorem Inv.piece {e : Bool} {seq : UInt16} (hmb : Whole nals mb) (hseq : seq + 1 = s0 + .ofNat n)
    (hend : e → ∃ nal ∈ nals, a = nal.bytes) (key : Bool) :
    Inv nals s0 a n ⟨mb ++ (nalSeq ++ a), mb.length, !e, seq, key⟩ := by
  cases e with
  | false => exact ⟨hseq, mb, hmb, rfl, rfl⟩
  | true =>
    obtain ⟨nal, hmem, rfl⟩ := hend rfl
    exact hmb.add hmem

theorem Inv.handleNal (hn : n ≤ j) (hj : j < n + 65535) (hab : j = n → b = a) (hp : Sent nals b p)
    (h : Inv nals s0 a n st) (hok : st.frag → st.gotKeyframe ∨ p.data.headD 0 &&& 0x1f ≠ 1) :
    Inv nals s0 (gather b p).1 (j + 1) (handleNal st (s0 + .ofNat j) p.data).1 := by
  obtain ⟨hfrag, hwhole⟩ := h.dropFragment
  cases hp with
  | @single nal hmem hdata =>
    have htype := nal.type
    have hne : nal.hdr &&& 0x1f ≠ 28 := fun heq => absurd htype.2 (by rw [heq]; decide)
    rw [hdata] at hok ⊢
    simp only [Nal.bytes, H264.handleNal, if_neg (UInt8.not_le.2 nal.forbidden), if_neg hne, if_pos htype]
    split
    · next hslice =>
      -- the decoder does not wait, and stays as it is
      have hidle : st.frag = false := by
        by_contra hst
        rcases hok (by simpa using hst) with hkey | hne
        · simp [hkey] at hslice
        · exact hne hslice.1
      exact .of_whole hidle (dropFragment_idle hidle ▸ hwhole)
    · exact .of_whole hfrag (hwhole.add hmem)
  | @piece hdr s e b' hf hdata hend =>
    obtain ⟨htype, hforb, hhdr, hs, he⟩ := fragment_bits hdr hf s e
    have hspell := gather_fragment hf b p.marker s e b'
    rw [← hdata] at hspell
    rw [hspell] at hend ⊢
    rw [hdata]
    have hone : ¬ (28 : UInt8) = 1 := by decide
    simp only [fragment, H264.handleNal, htype, hforb, hhdr, hs, he, hone, false_and, reduceIte]
    cases s with
    | true => exact .piece hwhole (seq_succ s0 j) hend st.gotKeyframe
    | false =>
      simp only [Bool.false_eq_true, reduceIte] at hend ⊢
      cases hst : st.frag with
      | false => exact .of_whole hst (dropFragment_idle hst ▸ hwhole)
      | true =>
        by_cases hgap : seqDiff st.fragSeq (s0 + .ofNat j) ≠ 1
        · simp only [if_pos hgap]
          exact .of_whole hfrag hwhole
        simp only [if_neg hgap]
        rw [Inv, if_pos hst] at h
        obtain ⟨hseq, mb, hmb, hstart, heq⟩ := h
        obtain rfl := hab ((seq_eq hseq hn hj).1 (not_not.1 hgap))
        have hnext := Inv.piece hmb (seq_succ s0 j) hend st.gotKeyframe
        rwa [← hstart, ← append_assoc nalSeq, ← append_assoc mb, ← heq] at hnext

theorem Inv.avcodecDecodeH264 {codec : Except Errno Bool} (hn : n ≤ j) (hj : j < n + 65535) (hab : j = n → b = a)
    (hp : Sent nals b p) (h : Inv nals s0 a n st) (hok : Listens st (s0 + .ofNat j, p, codec)) :
    Inv nals s0 (gather b p).1 (j + 1) (avcodecDecodeH264 st (s0 + .ofNat j, p, codec)).1 ∧
      ∀ buf ∈ (avcodecDecodeH264 st (s0 + .ofNat j, p, codec)).2.2, Whole nals buf := by
  have hnext := h.handleNal hn hj hab hp hok
  have hempty : ∀ st : Viddec, Inv nals s0 (gather b p).1 (j + 1) { st with mb := [], frag := false } :=
    fun _ => ⟨[], nofun, rfl⟩
  rw [H264.avcodecDecodeH264]
  generalize H264.handleNal st (s0 + .ofNat j) p.data = r at hnext ⊢
  obtain ⟨st', _ | err⟩ := r
  · cases hm : p.marker with
    | false =>
      simp only [Bool.not_false, reduceIte]
      split
      · exact ⟨hempty st', nofun⟩
      · exact ⟨hnext, nofun⟩
    | true =>
      simp only [Bool.not_true, Bool.false_eq_true, reduceIte]
      cases hf : st'.frag with
      | true => exact ⟨hempty st', nofun⟩
      | false =>
        have hwhole : Whole nals st'.mb := by
          rwa [Inv, hf, if_neg Bool.false_ne_true] at hnext
        cases codec with
        | error err => exact ⟨hempty st', fun buf hbuf => Option.some.inj hbuf ▸ hwhole⟩
        | ok key => exact ⟨hempty _, fun buf hbuf => Option.some.inj hbuf ▸ hwhole⟩
  · exact ⟨hnext, nofun⟩

end

/-- **NAL units are whole.** Whatever packets are lost, the video decoder is given NAL units that
were sent, if it takes every slice that comes while it waits for a fragment. -/
theorem nals_whole (nals : List Nal) (s0 : UInt16) {js : List (Nat × Except Errno Bool)}
    (hjs : Lossy (nals.flatMap Nal.packets).length 0 js)
    (hok : Along avcodecDecodeH264 Listens {} (arrivals s0 (nals.flatMap Nal.packets) js)) :
    ∀ o ∈ outs avcodecDecodeH264 {} (arrivals s0 (nals.flatMap Nal.packets) js), ∀ buf ∈ o.2, Whole nals buf :=
  outs_lossy (Inv nals s0) (along_flatMap nals (fun _ h => along_packets h) [])
    (fun _ _ _ _ _ _ _ hn hj hab hp hs hok => hs.avcodecDecodeH264 hn hj hab hp hok) js 0 {} hjs ⟨[], nofun, rfl⟩ hok

def idr (x : UInt8) : Nal := ⟨0x65, [x, x, x, x, x, x], true, 5, by decide, by decide, fun h => absurd h (by decide)⟩

theorem idr_packets (x : UInt8) :
    (idr x).packets = [⟨false, [0x7c, 0x85, x, x, x]⟩, ⟨true, [0x7c, 0x45, x, x, x]⟩] := by
  simp [Nal.packets, h264NalSend, cut, idr, fragment]
  decide

def twoFragments : List (Nat × Except Errno Bool) := [(0, .ok true), (1, .ok true)]

theorem nals_whole_idr : Lossy ([idr 1].flatMap Nal.packets).length 0 twoFragments ∧
    ∀ o ∈ outs avcodecDecodeH264 {} (arrivals 0 ([idr 1].flatMap Nal.packets) twoFragments), ∀ buf ∈ o.2,
      Whole [idr 1] buf := by
  have hjs : Lossy ([idr 1].flatMap Nal.packets).length 0 twoFragments := by
    simp [Lossy, idr_packets, twoFragments]
  refine ⟨hjs, nals_whole [idr 1] 0 hjs ?_⟩
  simp [idr_packets, arrivals, twoFragments]
  exact ⟨fun h => absurd h (by decide), fun _ => .inr (by decide), trivial⟩

def aSlice : Nal := ⟨0x41, [3], true, 5, by decide, by decide, by decide⟩

/-- Of two NAL units in fragments the start of one and the end of the other arrive, and one of the
slices between, of which there are so many that the sequence numbers fit. -/
theorem mixed_nal : ∃ (nals : List Nal) (js : List (Nat × Except Errno Bool)),
    Lossy (nals.flatMap Nal.packets).length 0 js ∧
      ∃ o ∈ outs avcodecDecodeH264 {} (arrivals 0 (nals.flatMap Nal.packets) js), ∃ buf ∈ o.2, ¬ Whole nals buf := by
  obtain ⟨k, hpos, hlt, hk⟩ : ∃ k, 1 < k ∧ k < 65535 ∧ UInt16.ofNat (k + 3) = 1 := ⟨65534, by decide, by decide, rfl⟩
  have hps : (idr 1 :: (replicate k aSlice ++ [idr 2])).flatMap Nal.packets =
      (idr 1).packets ++ (replicate k ⟨true, aSlice.bytes⟩ ++ (idr 2).packets) := by
    rw [flatMap_cons, flatMap_append, flatMap_replicate, flatMap_singleton,
      show aSlice.packets = [⟨true, aSlice.bytes⟩] from rfl, flatten_replicate_singleton]
  rw [idr_packets, idr_packets] at hps
  refine ⟨idr 1 :: (replicate k aSlice ++ [idr 2]), [(0, .ok false), (3, .ok false), (k + 3, .ok false)], ?_⟩
  rw [hps, arrivals_cons rfl, arrivals_cons (p := ⟨true, aSlice.bytes⟩),
    arrivals_cons (p := ⟨true, [0x7c, 0x45, 2, 2, 2]⟩), hk]
  · refine ⟨⟨Nat.zero_le 0, by omega, by simp, by omega, by omega, by simp, by omega, by omega, by simp, trivial⟩,
      (none, some (nalSeq ++ [0x65, 1, 1, 1, 2, 2, 2])), mem_cons_of_mem _ (mem_cons_of_mem _ mem_cons_self), _, rfl, ?_⟩
    rintro ⟨_ | ⟨nal, l⟩, hl, heq⟩
    · cases heq
    have hnal := hl nal mem_cons_self
    simp only [mem_cons, mem_append, mem_replicate, mem_nil_iff, or_false] at hnal
    rcases hnal with rfl | ⟨-, rfl⟩ | rfl <;> simp [idr, aSlice, Nal.bytes] at heq
  · rw [getElem?_append_right (by simp), getElem?_append_right (by simp)]
    simp
  · rw [getElem?_append_right (by simp), getElem?_append_left (by simp; omega), getElem?_replicate_of_lt (by simp; omega)]

/-- **Packets fit**, unless a NAL unit that is sent whole has `maxsz` bytes besides its header. -/
theorem packets_fit_iff (nal : Nal) (h : 2 ≤ nal.maxsz) :
    (∀ p ∈ nal.packets, p.data.length ≤ nal.maxsz.toNat) ↔ nal.buf.length ≠ nal.maxsz.toNat := by
  have hsz : (nal.maxsz - 2).toNat + 2 = nal.maxsz.toNat := by
    rw [UInt64.toNat_sub_of_le _ _ h]
    exact Nat.sub_add_cancel h
  unfold Nal.packets h264NalSend
  split
  · simp
    omega
  · refine iff_of_true (fun p hp => ?_) (by grind)
    refine (fun st buf hp => ?_ : ∀ st buf, p ∈ cut _ _ _ _ st buf → _) _ _ hp
    fun_induction cut _ _ _ _ st buf <;> grind [fragment]

theorem packets_fit_iff_idr : 2 ≤ (idr 1).maxsz ∧ ∀ p ∈ (idr 1).packets, p.data.length ≤ 5 :=
  ⟨by decide, (packets_fit_iff (idr 1) (by decide)).2 (by decide)⟩

/-! ## The end of an access unit -/

def Taken (st : Viddec) (seq : UInt16) : Bytes → Prop
  | [] => False
  | hdr :: src => hdr < 0x80 ∧ (hdr &&& 0x1f = 1 → st.gotKeyframe) ∧
    (1 ≤ hdr &&& 0x1f ∧ hdr &&& 0x1f ≤ 23 ∨ hdr &&& 0x1f = 24 ∧ (stapA [] src).2 = none ∨
      hdr &&& 0x1f = 28 ∧ ∃ fu b, src = fu :: b ∧ (fu.toNat.testBit 7 ∨ st.frag ∧ seqDiff st.fragSeq seq = 1))

theorem stapA_err {mb src : Bytes} : (stapA mb src).2 = (stapA [] src).2 := by
  suffices h : ∀ mb' : Bytes, (stapA mb src).2 = (stapA mb' src).2 from h []
  fun_induction stapA mb src with
  | case1 mb b1 b0 src len hlen => exact fun mb' => by rw [stapA, if_pos hlen]
  | case2 mb b1 b0 src len hlen ih => exact fun mb' => by rw [ih (mb' ++ _), stapA, if_neg hlen]
  | case3 mb src hsrc => exact fun mb' => by rw [stapA.eq_def]; split <;> simp_all

theorem handleNal_of_taken {st : Viddec} {seq : UInt16} {data : Bytes} (h : Taken st seq data) :
    (handleNal st seq data).2 = none := by
  obtain - | ⟨hdr, src⟩ := data
  · exact h.elim
  obtain ⟨hforb, hkey, htype⟩ := h
  have hslice : ¬ (hdr &&& 0x1f = 1 ∧ !st.gotKeyframe) := fun hs => by simp [hkey hs.1] at hs
  unfold handleNal
  dsimp only
  rw [if_neg hslice, if_neg (UInt8.not_le.2 hforb)]
  rcases htype with hnal | ⟨hstap, hwhole⟩ | ⟨hfu, fu, b, rfl, hfrag⟩
  · rw [if_neg fun heq => absurd hnal.2 (by rw [heq]; decide), if_pos hnal]
  · rw [hstap, if_neg (by decide), if_neg (by decide), if_pos rfl]
    exact congrArg (Option.map some) ((stapA_err).trans hwhole)
  · rw [if_pos hfu]
    dsimp only
    split
    · rfl
    · next hs =>
      obtain ⟨hst, hseq⟩ := hfrag.resolve_left hs
      rw [hst, if_neg (by decide), if_neg (by simp [hseq])]

/-- The buffer is empty and no fragment is pending after every call with the marker bit, **if every
packet with the marker bit is taken**: the checks return before the buffer is reset. -/
theorem reset_of_taken (ps : List (UInt16 × Packet × Except Errno Bool)) (st : Viddec)
    (h : Along avcodecDecodeH264 (fun st p => p.2.1.marker → Taken st p.1 p.2.1.data) st ps) :
    Along avcodecDecodeH264 (fun st p => p.2.1.marker →
      (avcodecDecodeH264 st p).1.mb = [] ∧ (avcodecDecodeH264 st p).1.frag = false) st ps := by
  refine @along_of_inv _ _ _ _ _ _ (fun _ => True) (fun _ _ _ _ => trivial) (fun st p _ htaken hm => ?_) ps st trivial h
  obtain ⟨seq, p, codec⟩ := p
  have hnone := handleNal_of_taken (htaken hm)
  rw [avcodecDecodeH264]
  generalize handleNal st seq p.data = r at hnone ⊢
  obtain ⟨st', rfl⟩ : ∃ st', r = (st', none) := ⟨r.1, Prod.ext rfl hnone⟩
  dsimp only at hm ⊢
  rw [hm, if_neg (by decide)]
  split
  · exact ⟨rfl, rfl⟩
  · split <;> exact ⟨rfl, rfl⟩

def earlySlice : List (UInt16 × Packet × Except Errno Bool) :=
  [(0, ⟨false, [0x67, 1]⟩, .ok false), (1, ⟨true, [0x41, 2]⟩, .ok false)]

theorem reset_of_taken_idr : Along avcodecDecodeH264 (fun st p => p.2.1.marker →
    (avcodecDecodeH264 st p).1.mb = [] ∧ (avcodecDecodeH264 st p).1.frag = false) {}
    [(0, ⟨true, [0x65, 1]⟩, .ok true)] :=
  reset_of_taken _ {} ⟨fun _ => ⟨by decide, fun h => absurd h (by decide), .inl (by decide)⟩, trivial⟩

/-- The slice is turned away and the parameter set stays in the buffer, in front of the next access
unit. -/
theorem left_in_buffer : (exec avcodecDecodeH264 {} earlySlice).mb = nalSeq ++ [0x67, 1] ∧
    (outs avcodecDecodeH264 {} (earlySlice ++ [(2, ⟨true, [0x65, 3]⟩, .ok true)]))[2]? =
      some (none, some (nalSeq ++ [0x67, 1] ++ (nalSeq ++ [0x65, 3]))) := by
  decide +kernel

end BareRTC.H264
