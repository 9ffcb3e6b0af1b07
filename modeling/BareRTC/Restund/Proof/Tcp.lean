import BareRTC.Lib.Framing
import BareRTC.Restund.Tcp
import BareRTC.Stun.Proof.Read

/-!
# Every message of a connection, once and in order

`tcp_recv` is a receiver of a stream in the sense of `Framing`: it passes over the padding of a
message with the message, whether it is there or not. So the messages are found at their places
exactly if no segment ends between a message and the end of its padding, the last message apart
(`tcp_framed_iff`). The buffer is released only after a segment that ends where a message ends
(`tcp_buffer_bounded_iff`).
-/

namespace BareRTC.Restund

open List

open Framing Mbuf Stun

def headOf (w : Bytes) : UInt16 × UInt16 := (UInt16.ofNat (numAt w 0 2), UInt16.ofNat (numAt w 2 2))

def parse (w : Bytes) : Parsed :=
  if w.length < 4 then .wait
  else match msgLen (headOf w).1 (headOf w).2 with
    | none => .bad
    | some len => if w.length < len then .wait else .msg len

theorem four_le_msgLen {typ len : UInt16} {n : Nat} (h : msgLen typ len = some n) : 4 ≤ n := by
  unfold msgLen headerSize at h
  split at h
  · cases h
  split at h
  · cases h
    omega
  split at h
  · cases h
    omega
  · cases h

def framer : Framer UInt8 where
  parse := parse
  align := pad4
  unit := 4
  short w h := if_pos h
  size := by
    intro w len h
    unfold parse at h
    split at h
    · cases h
    split at h
    · cases h
    rename_i hlen
    split at h
    · cases h
    rename_i hle
    cases h
    exact ⟨four_le_msgLen hlen, Nat.not_lt.1 hle⟩
  le_align len := by
    unfold pad4
    omega
  align_lt len := by
    unfold pad4
    omega

/-! ## `tcp_recv` is this receiver -/

def Keeps : Option Mbuf → Bytes → Prop
  | none, w => w = []
  | some mb, w => mb.Rest w

theorem readHead_ok {mb : Mbuf} {w : Bytes} (hr : mb.Rest w) (h : 4 ≤ w.length) :
    readHead mb = .ok (headOf w) (mb.setPos (mb.pos + 4)) := by
  refine (bind_of_ok (hr.readU16 0 (by omega))).trans ?_
  exact bind_of_ok (hr.readU16 2 (by omega))

structure Matches (e : Nat) (w : Bytes) (r : Conn × List Call) (d : List (Nat × Bytes) × Bytes) :
    Prop where
  kept : Keeps r.1.mb d.2
  calls : r.2.map (fun c => (c.left, c.msg)) = d.1
  fin : ∀ b ∈ r.1.mb, b.endPos = e
  gone : d.2 = [] → r.1.mb = none ∨ w = []

theorem Matches.wait {mb : Mbuf} {w : Bytes} {rxc : Nat} (hr : mb.Rest w) :
    Matches mb.endPos w (⟨some mb, rxc⟩, []) ([], w) :=
  ⟨hr, rfl, fun _ hb => congrArg _ (Option.some.inj hb).symm, .inr⟩

theorem tcpLoop_matches : ∀ (n : Nat) {mb : Mbuf} {w : Bytes} (rxc : Nat), mb.Rest w →
    Matches mb.endPos w (tcpLoop n mb rxc) (framer.drain n w)
  | 0, mb, w, rxc, hr => .wait hr
  | n + 1, mb, w, rxc, hr => by
    have hparse : framer.parse w = parse w := rfl
    unfold parse at hparse
    rw [tcpLoop, hr.getLeft]
    by_cases h4 : w.length < 4
    · rw [if_pos h4] at hparse
      rw [if_pos h4, Framer.drain_wait hparse]
      exact .wait hr
    rw [if_neg h4] at hparse
    rw [if_neg h4, readHead_ok hr (Nat.not_lt.1 h4)]
    dsimp only
    cases hlen : msgLen (headOf w).1 (headOf w).2 with
    | none =>
      rw [hlen] at hparse
      rw [Framer.drain_bad hparse]
      exact ⟨rfl, rfl, by simp, fun _ => .inl rfl⟩
    | some len =>
      have hback : (mb.setPos (mb.pos + 4)).setPos ((mb.setPos (mb.pos + 4)).pos - 4) = mb := by simp [setPos]
      rw [hlen] at hparse
      dsimp only at hparse ⊢
      rw [hback, hr.getLeft]
      by_cases hshort : w.length < len
      · rw [if_pos hshort] at hparse
        rw [if_pos hshort, Framer.drain_wait hparse]
        exact .wait hr
      rw [if_neg hshort] at hparse
      have hmsg : (mb.setEnd (mb.pos + len)).left = w.take len := by
        rw [← hr.slice (Nat.not_lt.1 hshort)]
        simp [Mbuf.left, Mbuf.getLeft, setEnd]
      have hleft := hr.getLeft
      have hok := hr.ok.pos
      unfold Mbuf.getLeft at hleft
      rw [if_neg hshort, Framer.drain_msg hparse, hmsg]
      by_cases hend : (mb.setPos (mb.pos + pad4 len)).pos ≥ (mb.setPos (mb.pos + pad4 len)).endPos
      · -- nothing is left, and the padding may be missing
        have hle : mb.endPos ≤ mb.pos + pad4 len := hend
        have hdrop : w.drop (framer.align len) = [] := drop_eq_nil_of_le (show w.length ≤ pad4 len by omega)
        rw [if_pos hend, hdrop, Framer.drain_nil (by decide)]
        exact ⟨rfl, rfl, by simp, fun _ => .inl rfl⟩
      have hlt : ¬ mb.endPos ≤ mb.pos + pad4 len := hend
      have hrest := tcpLoop_matches n (rxc + 1) (hr.drop (n := pad4 len) (by omega))
      rw [if_neg hend]
      refine ⟨hrest.kept, congrArg _ hrest.calls, hrest.fin, fun hnil => ?_⟩
      refine (hrest.gone hnil).imp_right fun hdrop => absurd (drop_eq_nil_iff.1 hdrop) ?_
      omega

theorem tcpRecv_matches {conn : Conn} {seg : Mbuf} {w d : Bytes} (hconn : Keeps conn.mb w)
    (hseg : seg.Rest d) :
    Matches (conn.mb.elim seg.endPos (·.endPos + d.length)) (w ++ d) (tcpRecv conn true seg)
      (framer.drain ((w ++ d).length + 1) (w ++ d)) := by
  unfold tcpRecv
  cases hmb : conn.mb with
  | none =>
    rw [hmb] at hconn
    rw [show w = [] from hconn, nil_append, hseg.getLeft]
    exact tcpLoop_matches _ _ hseg
  | some b =>
    rw [hmb] at hconn
    have hrest : b.Rest w := hconn
    obtain ⟨b', hwrite, hback⟩ := hrest.append d
    have hend : b'.endPos = b.endPos + d.length := by
      have h1 := hrest.getLeft
      have h2 := hback.getLeft
      have h3 := hrest.ok.pos
      have h4 : b.pos ≤ b'.endPos := hback.ok.pos
      rw [getLeft_setPos, length_append] at h2
      rw [Mbuf.getLeft] at h1
      omega
    dsimp only
    rw [hseg.left, hwrite]
    dsimp only
    rw [hback.getLeft, Option.elim, ← hend]
    exact tcpLoop_matches _ _ hback

theorem outs_eq_received : ∀ (segs : List Mbuf) (conn : Conn) (count : Nat) (w : Bytes), Keeps conn.mb w →
    (∀ seg ∈ segs, seg.Ok) →
    (outs tcpStep (conn, count) segs).flatten = framer.received ⟨count, w⟩ (segs.map Mbuf.left)
  | [], _, _, _, _, _ => rfl
  | seg :: segs, conn, count, w, hconn, hsegs => by
    have hseg : seg.Rest seg.left := ⟨hsegs seg (by simp), rfl⟩
    have hm := tcpRecv_matches hconn hseg
    have ih := outs_eq_received segs (tcpRecv conn true seg).1 (count + seg.getLeft) _ hm.kept
      fun s hs => hsegs s (mem_cons_of_mem _ hs)
    have hcalls : (tcpStep (conn, count) seg).2 = (framer.feed ⟨count, w⟩ seg.left).2 := by
      unfold tcpStep Framer.feed
      dsimp only
      rw [← hm.calls, map_map, hseg.getLeft]
      rfl
    unfold Framer.received at ih ⊢
    rw [map_cons, outs_cons, outs_cons, flatten_cons, flatten_cons, hcalls]
    refine congrArg _ (ih.trans ?_)
    rw [hseg.getLeft]
    rfl

/-! ## Messages on the connection -/

def IsMessage (m : Bytes) : Prop :=
  4 ≤ m.length ∧ (headOf m).2.toNat ≤ 2048 ∧
    ((headOf m).1 < 0x4000 ∧ m.length = 20 + (headOf m).2.toNat ∨
      0x4000 ≤ (headOf m).1 ∧ (headOf m).1 < 0x8000 ∧ m.length = 4 + (headOf m).2.toNat)

structure IsFrame (f : Frame UInt8) : Prop where
  message : IsMessage f.msg
  padded : f.all.length % 4 = 0
  pad_lt : f.pad.length < 4

theorem msgLen_of_isMessage {m : Bytes} (h : IsMessage m) : msgLen (headOf m).1 (headOf m).2 = some m.length := by
  obtain ⟨-, hmax, ⟨htyp, hlen⟩ | ⟨hmin, htyp, hlen⟩⟩ := h
  · rw [msgLen, tcpMaxLength, if_neg (Nat.not_lt.2 hmax), if_pos htyp, hlen, headerSize, Nat.add_comm]
  · rw [msgLen, tcpMaxLength, if_neg (Nat.not_lt.2 hmax), if_neg (UInt16.not_lt.2 hmin), if_pos htyp, hlen,
      Nat.add_comm]

theorem headOf_eq {u v : Bytes} (h : u <+: v) (hlen : 4 ≤ u.length) : headOf v = headOf u := by
  obtain ⟨t, rfl⟩ := h
  rw [headOf, headOf, numAt_append (by omega), numAt_append (by omega)]

theorem IsFrame.reads {f : Frame UInt8} (h : IsFrame f) : framer.Reads f where
  unit_le := h.message.1
  align := by
    have h1 := h.padded
    have h2 := h.pad_lt
    show f.all.length = pad4 f.msg.length
    rw [Frame.all, length_append] at h1 ⊢
    unfold pad4
    omega
  part w hw hlt := by
    show parse w = .wait
    unfold parse
    by_cases h4 : w.length < 4
    · exact if_pos h4
    · rw [if_neg h4, ← headOf_eq hw (Nat.not_lt.1 h4), msgLen_of_isMessage h.message]
      exact if_pos hlt
  whole w hw := by
    have hle := hw.length_le
    have h4 := h.message.1
    show parse w = .msg f.msg.length
    unfold parse
    rw [if_neg (by omega), headOf_eq hw h4, msgLen_of_isMessage h.message]
    exact if_neg (by omega)

/-- **Every message is processed once, in order and at its place** in the stream exactly if no
segment ends between a message and the end of its padding, the last message apart. -/
theorem tcp_framed_iff (fs : List (Frame UInt8)) (segs : List Mbuf) (hfs : ∀ f ∈ fs, IsFrame f)
    (hsegs : ∀ seg ∈ segs, seg.Ok) (hall : (segs.map Mbuf.left).flatten = stream fs) :
    (outs tcpStep (⟨none, 0⟩, 0) segs).flatten = placed 0 fs ↔ ¬ PadCut fs (segs.map Mbuf.left) := by
  rw [outs_eq_received segs ⟨none, 0⟩ 0 [] rfl hsegs]
  exact Framer.framed_iff (by decide) (fun f hf => (hfs f hf).reads) hall

/-! Two packets of channel data; the first has one byte and three bytes of padding. -/

def twoFrames : List (Frame UInt8) := [⟨[0x40, 0, 0, 1, 0xaa], [0, 0, 0]⟩, ⟨[0x40, 0, 0, 0], []⟩]

def lateSegs : List Mbuf := [⟨[0x40, 0, 0, 1, 0xaa], 0, 5⟩, ⟨[0, 0, 0, 0x40, 0, 0, 0], 0, 7⟩]

theorem twoFrames_ok : ∀ f ∈ twoFrames, IsFrame f := by
  have hmsg : ∀ f ∈ twoFrames, IsMessage f.msg := by
    unfold IsMessage
    decide
  have hpad : ∀ f ∈ twoFrames, f.all.length % 4 = 0 ∧ f.pad.length < 4 := by decide
  exact fun f hf => ⟨hmsg f hf, (hpad f hf).1, (hpad f hf).2⟩

theorem lateSegs_ok : ∀ seg ∈ lateSegs, seg.Ok := by
  have h : ∀ seg ∈ lateSegs, seg.pos ≤ seg.endPos ∧ seg.endPos ≤ seg.buf.length := by decide
  exact fun seg hseg => ⟨(h seg hseg).1, (h seg hseg).2⟩

theorem tcp_framed_iff_late :
    (outs tcpStep (⟨none, 0⟩, 0) lateSegs).flatten = placed 0 twoFrames ↔ ¬ PadCut twoFrames (lateSegs.map Mbuf.left) :=
  tcp_framed_iff twoFrames lateSegs twoFrames_ok lateSegs_ok (by decide)

/-- The second packet is not processed: the receiver takes the padding for the start of a long STUN
message. -/
theorem late_padding_lost :
    (lateSegs.map Mbuf.left).flatten = stream twoFrames ∧ (∀ f ∈ twoFrames, IsFrame f) ∧
    placed 0 twoFrames = [(0, [0x40, 0, 0, 1, 0xaa]), (8, [0x40, 0, 0, 0])] ∧
    (outs tcpStep (⟨none, 0⟩, 0) lateSegs).flatten = [(0, [0x40, 0, 0, 1, 0xaa])] :=
  ⟨by decide, twoFrames_ok, by decide, by decide +kernel⟩

/-! ## The size of the buffer

A message that was processed stays in the buffer until there is nothing after it. -/

def Conn.size (conn : Conn) : Nat := conn.mb.elim 0 Mbuf.endPos

theorem size_tcpRecv {conn : Conn} {seg : Mbuf} {w d : Bytes} (hconn : Keeps conn.mb w)
    (hsize : w = [] → conn.size = 0) (hseg : seg.Rest d) (hpos : seg.pos = 0) :
    (tcpRecv conn true seg).1.size =
      if (framer.drain ((w ++ d).length + 1) (w ++ d)).2 = [] then 0 else conn.size + d.length := by
  have hm := tcpRecv_matches hconn hseg
  have hlen := hseg.getLeft
  rw [Mbuf.getLeft, hpos] at hlen
  cases hmb : (tcpRecv conn true seg).1.mb with
  | none =>
    have hkept := hm.kept
    rw [hmb] at hkept
    rw [if_pos (show _ = [] from hkept), Conn.size, hmb]
    rfl
  | some b =>
    have hgrown : (tcpRecv conn true seg).1.size = conn.size + d.length := by
      rw [Conn.size, Conn.size, hmb, Option.elim, hm.fin b hmb]
      cases conn.mb with
      | none => exact hlen.trans (Nat.zero_add _).symm
      | some b' => rfl
    rw [hgrown]
    split
    · -- only an empty buffer is not released
      obtain ⟨hw, hd⟩ := append_eq_nil_iff.1 ((hm.gone ‹_›).resolve_left (by simp [hmb]))
      rw [hsize hw, hd]
      rfl
    · rfl

def stretch (fs : List (Frame UInt8)) (s : Nat × Nat) (seg : Mbuf) : (Nat × Nat) × Unit :=
  let count := s.1 + seg.getLeft
  ((count, if ∃ a ∈ fs.inits, (stream a).length = count then 0 else s.2 + seg.getLeft), ())

theorem along_size {bound : Nat} {fs : List (Frame UInt8)} {more : Bytes}
    (hfs : ∀ f ∈ fs, IsFrame f) (hmore : 4 ≤ more.length) :
    ∀ (segs : List Mbuf) (conn : Conn) (count : Nat) (w : Bytes), Keeps conn.mb w →
    Framer.Awaits fs ⟨count, w⟩ → (w = [] → conn.size = 0) →
    (∀ seg ∈ segs, seg.Ok ∧ seg.pos = 0) →
    (stream fs).drop count = (segs.map Mbuf.left).flatten ++ more →
    (∀ us, us <+: segs.map Mbuf.left → ¬ InPad fs (count + us.flatten.length)) →
    (Along tcpStep (fun s seg => (tcpStep s seg).1.1.size ≤ bound) (conn, count) segs ↔
      Along (stretch fs) (fun s seg => (stretch fs s seg).1.2 ≤ bound) (count, conn.size) segs)
  | [], _, _, _, _, _, _, _, _, _ => Iff.rfl
  | seg :: segs, conn, count, w, hconn, hawaits, hsize, hsegs, hnext, hcut => by
    obtain ⟨hok, hpos⟩ := hsegs seg mem_cons_self
    have hseg : seg.Rest seg.left := ⟨hok, rfl⟩
    rw [map_cons, flatten_cons, append_assoc] at hnext
    have hone := hcut [seg.left] (cons_prefix_cons.2 ⟨rfl, nil_prefix⟩)
    rw [flatten_cons, flatten_nil, append_nil] at hone
    have hawaits' := hawaits.feed (fun f hf => (hfs f hf).reads) (by decide) hnext
      (by rw [length_append]; exact hmore.trans (Nat.le_add_left _ _)) hone
    have hkept : (∃ a ∈ fs.inits, (stream a).length = count + seg.getLeft) ↔
        (framer.drain ((w ++ seg.left).length + 1) (w ++ seg.left)).2 = [] := by
      rw [hseg.getLeft]
      simp only [mem_inits]
      exact hawaits'.kept_eq_nil_iff.symm
    have hsize' := size_tcpRecv hconn hsize hseg hpos
    have hstate : (stretch fs (count, conn.size) seg).1 =
        (count + seg.getLeft, (tcpRecv conn true seg).1.size) := by
      refine Prod.ext rfl ?_
      rw [hsize', ← hseg.getLeft]
      simp only [stretch, hkept]
    have hrest : (stream fs).drop (count + seg.getLeft) = (segs.map Mbuf.left).flatten ++ more := by
      rw [← drop_drop, hnext, hseg.getLeft, drop_left]
    rw [Along, Along, hstate]
    refine and_congr_right fun _ => along_size hfs hmore segs _ _ _
      (tcpRecv_matches hconn hseg).kept ?_ (fun hnil => by rw [hsize', if_pos hnil])
      (fun s hs => hsegs s (mem_cons_of_mem seg hs)) hrest fun us hus hin => ?_
    · rw [hseg.getLeft]
      exact hawaits'
    · refine hcut (seg.left :: us) (cons_prefix_cons.2 ⟨rfl, hus⟩) ?_
      rwa [flatten_cons, length_append, ← hseg.getLeft, ← Nat.add_assoc]

/-- **The size of the buffer.** Segments of a stream of messages are received, and no segment ends
between a message and the end of its padding. The buffer stays within a bound exactly if no more
bytes than that come in segments one after the other none of which ends where a message ends. -/
theorem tcp_buffer_bounded_iff (bound : Nat) (fs : List (Frame UInt8)) (segs : List Mbuf)
    (more : Bytes) (hfs : ∀ f ∈ fs, IsFrame f) (hsegs : ∀ seg ∈ segs, seg.Ok ∧ seg.pos = 0)
    (hall : stream fs = (segs.map Mbuf.left).flatten ++ more) (hmore : 4 ≤ more.length)
    (hcut : ¬ PadCut fs (segs.map Mbuf.left)) :
    Along tcpStep (fun s seg => (tcpStep s seg).1.1.size ≤ bound) (⟨none, 0⟩, 0) segs ↔
      Along (stretch fs) (fun s seg => (stretch fs s seg).1.2 ≤ bound) (0, 0) segs := by
  refine along_size hfs hmore segs ⟨none, 0⟩ 0 [] rfl ?_ (fun _ => rfl) hsegs hall ?_
  · cases fs with
    | nil =>
      have hlen := congrArg List.length hall
      rw [stream_nil, length_nil, length_append] at hlen
      omega
    | cons f fs =>
      have hf := (hfs f mem_cons_self).message.1
      exact ⟨[], f, fs, rfl, Nat.zero_le _, rfl, by simpa using (by omega : 0 < f.msg.length)⟩
  · intro us hus hin
    rw [Nat.zero_add] at hin
    exact hcut ⟨us, hus, hin⟩

/-- The first of two packets of channel data comes in two segments. -/
theorem tcp_buffer_bounded_iff_two :
    let fs : List (Frame UInt8) := [⟨[0x40, 0, 0, 0], []⟩, ⟨[0x40, 0, 0, 0], []⟩]
    let segs : List Mbuf := [⟨[0x40, 0], 0, 2⟩, ⟨[0, 0], 0, 2⟩]
    Along tcpStep (fun s seg => (tcpStep s seg).1.1.size ≤ 2) (⟨none, 0⟩, 0) segs ∧
      Along (stretch fs) (fun s seg => (stretch fs s seg).1.2 ≤ 2) (0, 0) segs := by
  intro fs segs
  have hframe : ∀ f ∈ fs, IsFrame f := fun f hf => twoFrames_ok f (by simp_all [fs, twoFrames])
  have hsegs : ∀ seg ∈ segs, seg.Ok ∧ seg.pos = 0 := by
    have h : ∀ seg ∈ segs, (seg.pos ≤ seg.endPos ∧ seg.endPos ≤ seg.buf.length) ∧ seg.pos = 0 := by
      decide
    exact fun seg hseg => ⟨⟨(h seg hseg).1.1, (h seg hseg).1.2⟩, (h seg hseg).2⟩
  have hcut : ¬ PadCut fs (segs.map Mbuf.left) := by
    rintro ⟨us, -, a, f, g, b, hsplit, hle, hlt⟩
    have hpad : ∀ f ∈ fs, f.all.length = f.msg.length := by decide
    rw [hpad f (hsplit ▸ by simp)] at hlt
    omega
  have hbound : Along (stretch fs) (fun s seg => (stretch fs s seg).1.2 ≤ 2) (0, 0) segs := by decide
  exact ⟨(tcp_buffer_bounded_iff 2 fs segs [0x40, 0, 0, 0] hframe hsegs (by decide) (by decide)
    hcut).2 hbound, hbound⟩

def cutSegs (n : Nat) : List Mbuf := ⟨[0x40, 0, 0, 0, 0x40], 0, 5⟩ :: replicate n ⟨[0, 0, 0, 0x40], 0, 4⟩

theorem size_cut : ∀ (n : Nat) (s : Conn × Nat), Keeps s.1.mb [0x40] →
    (exec tcpStep s (replicate n ⟨[0, 0, 0, 0x40], 0, 4⟩)).1.size = s.1.size + 4 * n
  | 0, _, _ => rfl
  | n + 1, s, hconn => by
    have hseg : (⟨[0, 0, 0, 0x40], 0, 4⟩ : Mbuf).Rest [0, 0, 0, 0x40] := ⟨⟨by decide, by decide⟩, rfl⟩
    have hkept : Keeps (tcpRecv s.1 true ⟨[0, 0, 0, 0x40], 0, 4⟩).1.mb [0x40] :=
      (tcpRecv_matches hconn hseg).kept
    have hsize := size_tcpRecv hconn nofun hseg rfl
    rw [replicate_succ, exec_cons, size_cut n _ hkept]
    refine (congrArg (· + 4 * n) (hsize.trans (if_neg (by decide)))).trans ?_
    rw [length_cons, length_cons, length_cons, length_singleton]
    omega

theorem cut_stream : ∀ n : Nat, [0x40] ++ ((replicate n ⟨[0, 0, 0, 0x40], 0, 4⟩).map Mbuf.left).flatten ++ [0, 0, 0] =
    stream (replicate (n + 1) ⟨[0x40, 0, 0, 0], []⟩)
  | 0 => rfl
  | n + 1 => congrArg ([0x40, 0, 0, 0] ++ ·) (cut_stream n)

/-- The packets are processed as they come, in segments of five bytes at most, and the buffer grows
with each. -/
theorem size_cutSegs {n : Nat} : (exec tcpStep (⟨none, 0⟩, 0) (cutSegs n)).1.size = 4 * n + 5 ∧
    ((cutSegs n).map Mbuf.left).flatten ++ [0, 0, 0] = stream (replicate (n + 2) ⟨[0x40, 0, 0, 0], []⟩) ∧
    IsFrame ⟨[0x40, 0, 0, 0], []⟩ := by
  have hseg : (⟨[0x40, 0, 0, 0, 0x40], 0, 5⟩ : Mbuf).Rest [0x40, 0, 0, 0, 0x40] := ⟨⟨by decide, by decide⟩, rfl⟩
  have hconn : Keeps (⟨none, 0⟩ : Conn).mb [] := rfl
  refine ⟨?_, congrArg ([0x40, 0, 0, 0] ++ ·) (cut_stream n), twoFrames_ok _ (by simp [twoFrames])⟩
  rw [cutSegs, exec_cons, size_cut n _ (tcpRecv_matches hconn hseg).kept]
  exact Nat.add_comm 5 (4 * n)

theorem buffer_grows : (exec tcpStep (⟨none, 0⟩, 0) (cutSegs 20000)).1.size = 80005 ∧
    ((cutSegs 20000).map Mbuf.left).flatten ++ [0, 0, 0] = stream (replicate 20002 ⟨[0x40, 0, 0, 0], []⟩) ∧
    IsFrame ⟨[0x40, 0, 0, 0], []⟩ :=
  size_cutSegs

end BareRTC.Restund
