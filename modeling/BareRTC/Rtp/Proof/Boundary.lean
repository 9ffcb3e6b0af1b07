import BareRTC.Rtp.Proof.Read

/-!
# The boundaries of the packets of a compound datagram

The decoder moves over what the type of a packet makes it read, and not over what the length field
says. The two agree where the packet is as long as its type, its count and its items need (`Fits`):
no profile-specific extension behind the report blocks, no chunk left over in SDES, nothing behind
the reason of a BYE, no control information in a feedback format that is not known. `boundary_iff`
says that the decoder stops at the boundary, and has looked at nothing behind it, exactly for these;
where every packet of a datagram is one of them, `rtcp_recv_handler` gives them to the session at
their boundaries.
-/

namespace BareRTC.Rtcp

open List

open Mbuf

/-! ## The boundary -/

def AtBoundary (mb : Mbuf) (msg : Msg) (next : Nat) : Prop :=
  let boundary := mb.pos + 4 * (msg.hdr.length.toNat + 1)
  next = boundary ∧ rtcpDecode (mb.setEnd boundary) = .ok msg ((mb.setEnd boundary).setPos boundary)

def Fits (r : Bytes) : Prop :=
  let hdr := hdrOf r
  let count := hdr.count.toNat
  let length := hdr.length.toNat
  match Pt.ofCode hdr.pt with
  | some .sr => length = 6 + 6 * count
  | some .rr => length = 1 + 6 * count
  | some .sdes => (sizes chunkSize count (r.drop 4)).map pad4 = some (4 * length)
  | some .bye =>
    length = count ∨ count < length ∧ 4 * (length - count) = pad4 (1 + (UInt8.ofNat (numAt r (4 + count * 4) 1)).toNat)
  | some .app => 2 ≤ length
  | some .fir => length = 1
  | some .nack => length = 2
  | some .rtpfb => hdr.count = 1 ∧ 2 ≤ length ∨ length = 2
  | some .psfb => (hdr.count = 2 ∨ hdr.count = 15) ∧ 2 ≤ length ∨ length = 2
  | none => True

theorem fits_iff {r : Bytes} {n : Nat} (hn : bodySize (hdrOf r) (r.drop 4) = some n) : Fits r ↔ pad4 n = bodyLen r := by
  unfold bodySize at hn
  unfold Fits bodyLen
  dsimp only at hn ⊢
  cases hpt : Pt.ofCode (hdrOf r).pt with
  | none =>
    rw [hpt] at hn
    cases hn
    simp only [true_iff, pad4]
    omega
  | some pt =>
    rw [hpt] at hn
    cases pt with
    | sdes =>
      simp only at hn ⊢
      rw [hn, Option.map_some, Option.some_inj, Nat.mul_comm 4]
    | bye =>
      have hat : numAt (r.drop 4) ((hdrOf r).count.toNat * 4) 1 = numAt r (4 + (hdrOf r).count.toNat * 4) 1 := by
        rw [numAt, numAt, slice, slice, drop_drop]
      simp only [hat] at hn
      cases hn
      simp only [pad4]
      split <;> omega
    | sr | rr | app | fir | nack =>
      cases hn
      simp only [pad4]
      omega
    | rtpfb =>
      cases hn
      simp only [pad4, rtpfbSize]
      split
      · simp only [*, true_and]
        omega
      · simp only [*, false_and, false_or]
        omega
    | psfb =>
      cases hn
      simp only [pad4, psfbSize]
      split
      · simp only [*, true_and]
        omega
      · simp only [*, false_and, false_or]
        omega

section
variable {mb mb' : Mbuf} {r : Bytes} {msg : Msg}

theorem packet_spells {n : Nat} {b : Body} (hlen : 4 + bodyLen r ≤ r.length) (hver : (hdrOf r).version = 2)
    (hpad : pad4 n = bodyLen r) (hs : Spells (bodyDecode (hdrOf r) (bodyLen r)) ((r.drop 4).take n) b) :
    Spells rtcpDecode (r.take (4 + bodyLen r)) ⟨hdrOf r, b⟩ := by
  have hx : (r.take 4).length = 4 := length_take_of_le (by omega)
  have hhdr : hdrOf (r.take 4) = hdrOf r := by
    rw [← hdrOf_append (x := r.take 4) (t := r.drop 4) (by omega), take_append_drop]
  have hsplit : bodyLen r = n + (bodyLen r - n) := by
    have := le_pad4 n
    omega
  have htake : r.take (4 + bodyLen r) =
      r.take 4 ++ ((r.drop 4).take n ++ ((r.drop 4).drop n).take (bodyLen r - n)) := by
    rw [← take_add, ← hsplit, ← take_add]
  have hbody : bodyLen (r.take 4) = bodyLen r := by rw [bodyLen, hhdr, ← bodyLen]
  rw [htake, ← hhdr]
  refine rtcpDecode_spells hx (by rw [hhdr, hver]) ?_ ?_ (by rw [hbody, hhdr]; exact hs)
  · rw [← take_add, ← hsplit, length_take, length_drop, hbody]
    omega
  rw [length_take]
  unfold pad4 at hpad
  omega

/-- **The boundary of one packet** is kept exactly if the packet fits. -/
theorem atBoundary_iff (hr : mb.Rest r) (hok : rtcpDecode mb = .ok msg mb') : AtBoundary mb msg mb'.pos ↔ Fits r := by
  obtain ⟨hlen, hver, hhdr, n, hn, hle, rfl, hs⟩ := rtcpDecode_ok hr hok
  have hboundary : mb.pos + 4 * (msg.hdr.length.toNat + 1) = mb.pos + (4 + bodyLen r) := by
    rw [hhdr, bodyLen]
    omega
  rw [fits_iff hn, AtBoundary, hboundary]
  constructor
  · rintro ⟨hpos, -⟩
    have hpos : mb.pos + min (pad4 (4 + n)) r.length = mb.pos + (4 + bodyLen r) := hpos
    unfold pad4 bodyLen at hpos ⊢
    omega
  intro hpad
  refine ⟨?_, ?_⟩
  · show mb.pos + min (pad4 (4 + n)) r.length = mb.pos + (4 + bodyLen r)
    unfold pad4 at hpad ⊢
    omega
  by_cases hlt : 4 + n < r.length
  · have hspell := packet_spells hlen hver hpad (hs hlt)
    rw [← hhdr] at hspell
    exact hspell.apply_self (hr.setEnd hlen) (by rw [length_take]; omega)
  -- the packet is the last one: the buffer ends at the boundary anyhow
  have hlen' : r.length = 4 + bodyLen r := by
    have := le_pad4 n
    omega
  have hself : mb.setEnd (mb.pos + (4 + bodyLen r)) = mb := by
    have hpos := hr.ok.pos
    have hleft := hr.getLeft
    unfold Mbuf.getLeft at hleft
    unfold Mbuf.setEnd
    congr 1
    omega
  rw [hself, hok]
  congr 2
  unfold pad4 at hpad ⊢
  omega

end

/-! ## Compound datagrams -/

def packets (r : Bytes) : List Bytes :=
  if 4 ≤ r.length then r :: packets (r.drop (4 + bodyLen r)) else []
  termination_by r.length
  decreasing_by
    rw [length_drop]
    omega

def Chained : Nat → List Handed → Prop
  | _, [] => True
  | i, p :: ps => p.start = i ∧ Chained (i + 4 * (p.msg.hdr.length.toNat + 1)) ps

theorem recvLoop_boundaries : ∀ (n : Nat) {mb : Mbuf} {r : Bytes}, mb.Rest r → (∀ s ∈ packets r, Fits s) →
    (∀ p ∈ recvLoop n mb, AtBoundary (mb.setPos p.start) p.msg p.next) ∧ Chained mb.pos (recvLoop n mb)
  | 0, _, _, _, _ => ⟨nofun, trivial⟩
  | n + 1, mb, r, hr, hfits => by
    unfold recvLoop
    cases hok : rtcpDecode mb with
    | error err mb' => exact ⟨nofun, trivial⟩
    | ok msg mb' =>
      obtain ⟨hlen, -, hhdr, -, -, -, -, -⟩ := rtcpDecode_ok hr hok
      have hpackets : packets r = r :: packets (r.drop (4 + bodyLen r)) := by
        rw [packets, if_pos (by omega)]
      rw [hpackets] at hfits
      have hat := (atBoundary_iff hr hok).2 (hfits r mem_cons_self)
      -- the rest of the datagram starts at the boundary
      have hnext : mb' = mb.setPos (mb.pos + (4 + bodyLen r)) := by
        obtain ⟨-, -, -, m, -, -, rfl, -⟩ := rtcpDecode_ok hr hok
        have hpos := hat.1
        rw [hhdr] at hpos
        have hpos : mb.pos + min (pad4 (4 + m)) r.length = mb.pos + 4 * ((hdrOf r).length.toNat + 1) := hpos
        congr 1
        unfold bodyLen
        omega
      have hr' : mb'.Rest (r.drop (4 + bodyLen r)) := by
        rw [hnext]
        exact hr.drop hlen
      obtain ⟨hrest, hchain⟩ := recvLoop_boundaries n hr' fun s hs => hfits s (mem_cons_of_mem r hs)
      have hsame : ∀ i, mb'.setPos i = mb.setPos i := by
        intro i
        rw [hnext]
        rfl
      refine ⟨fun p hp => ?_, rfl, ?_⟩
      · rcases mem_cons.1 hp with rfl | hp
        · exact hat
        · rw [← hsame]
          exact hrest p hp
      · rw [← hat.1]
        exact hchain

/-- **Boundaries of RTCP packets.** A packet that is decoded ends at the boundary that its length
field gives, and was made from the bytes before it alone, exactly if it has the length that its type
needs. If all packets of a datagram have, the session gets each of them at its boundary. -/
theorem boundary_iff {mb : Mbuf} (hmb : mb.Ok) :
    (∀ msg mb', rtcpDecode mb = .ok msg mb' → (AtBoundary mb msg mb'.pos ↔ Fits mb.left)) ∧
      ((∀ s ∈ packets mb.left, Fits s) → (∀ p ∈ rtcpRecvHandler mb, AtBoundary (mb.setPos p.start) p.msg p.next) ∧
          Chained mb.pos (rtcpRecvHandler mb)) :=
  ⟨fun _ _ hok => atBoundary_iff ⟨hmb, rfl⟩ hok, fun hfits => recvLoop_boundaries _ ⟨hmb, rfl⟩ hfits⟩

def unknownFormat : Mbuf :=
  ⟨[0x83, 205, 0, 3, 0, 0, 0, 1, 0, 0, 0, 2, 0x80, 203, 0, 0, 0x80, 201, 0, 1, 0, 0, 0, 1], 0, 24⟩

theorem boundary_iff_unknownFormat :
    unknownFormat.Ok ∧ ∀ msg mb', rtcpDecode unknownFormat = .ok msg mb' →
      (AtBoundary unknownFormat msg mb'.pos ↔ Fits unknownFormat.left) :=
  have hok : unknownFormat.Ok := ⟨by decide, by decide⟩
  ⟨hok, (boundary_iff hok).1⟩

/-- The control information is given to the session as a packet of its own. -/
theorem fci_taken_as_packet :
    (rtcpRecvHandler unknownFormat).map (fun p => (p.start, p.msg.hdr.pt, p.msg.hdr.length, p.next)) =
      [(0, 205, 3, 12), (12, 203, 0, 16), (16, 201, 1, 24)] := by
  decide +kernel

end BareRTC.Rtcp
