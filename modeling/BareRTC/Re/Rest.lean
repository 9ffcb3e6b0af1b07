import BareRTC.Re.Content

/-!
# The rest of a buffer

`mb.Rest r`: the bytes from the position to the end are `r`. One lemma for each read, at an offset
into `r`.
-/

namespace BareRTC

open List

namespace Mbuf

structure Rest (mb : Mbuf) (r : Bytes) : Prop where
  ok : mb.Ok
  left : mb.left = r

namespace Rest

variable {mb : Mbuf} {r : Bytes} {n : Nat}

theorem getLeft (h : mb.Rest r) : mb.getLeft = r.length := by rw [← length_left h.ok, h.left]

theorem slice (h : mb.Rest r) (hn : n ≤ r.length) : slice mb.buf mb.pos n = r.take n := by
  rw [← h.left, ← Nat.add_zero mb.pos, ← slice_left (by rw [h.getLeft]; omega)]
  rfl

theorem drop (h : mb.Rest r) (hn : n ≤ r.length) : (mb.setPos (mb.pos + n)).Rest (r.drop n) := by
  have hleft := h.getLeft
  have hp := h.ok.pos
  have he := h.ok.endPos
  unfold Mbuf.getLeft at hleft
  refine ⟨⟨by show mb.pos + n ≤ mb.endPos; omega, he⟩, ?_⟩
  rw [← h.left, Mbuf.left, Mbuf.left, BareRTC.slice, BareRTC.slice, drop_take, drop_drop]
  congr 1
  show mb.endPos - (mb.pos + n) = mb.endPos - mb.pos - n
  omega

theorem setEnd (hr : mb.Rest r) (hn : n ≤ r.length) : (mb.setEnd (mb.pos + n)).Rest (r.take n) := by
  have hleft := hr.getLeft
  have he := hr.ok.endPos
  unfold Mbuf.getLeft at hleft
  refine ⟨⟨Nat.le_add_right _ _, ?_⟩, ?_⟩
  · show mb.pos + n ≤ mb.buf.length
    have := hr.ok.pos
    omega
  show BareRTC.slice mb.buf mb.pos (mb.pos + n - mb.pos) = r.take n
  rw [Nat.add_sub_cancel_left]
  exact hr.slice hn

theorem poke {a d : Bytes} (h : mb.Rest (a ++ r)) (hd : d.length = a.length) : (mb.poke mb.pos d).Rest (d ++ r) := by
  have hleft := h.getLeft
  have hpos := h.ok.pos
  have hend := h.ok.endPos
  have hafter := (h.drop (n := a.length) (by rw [length_append]; omega))
  rw [drop_left] at hafter
  have hrest := hafter.slice (le_refl r.length)
  rw [take_length] at hrest
  rw [Mbuf.getLeft, length_append] at hleft
  have hlen : (overwrite mb.buf mb.pos d).length = mb.buf.length := length_overwrite (by omega)
  refine ⟨⟨hpos, ?_⟩, ?_⟩
  · show mb.endPos ≤ (overwrite mb.buf mb.pos d).length
    omega
  show BareRTC.slice (overwrite mb.buf mb.pos d) mb.pos (mb.endPos - mb.pos) = d ++ r
  rw [hleft, ← hd, ← slice_append_slice rfl, slice_overwrite_self (by omega), slice_overwrite_after (by omega) (by omega),
    hd]
  exact congrArg _ hrest

theorem append (h : mb.Rest r) (d : Bytes) :
    ∃ mb', writeMem true d (mb.setPos mb.endPos) = .ok () mb' ∧ (mb'.setPos mb.pos).Rest (r ++ d) := by
  obtain ⟨mb', hwrite, hholds⟩ := (holds_of_ok h.ok).append d
  have hpos := h.ok.pos
  have hend := h.ok.endPos
  have hlen : (mb.buf.take mb.endPos).length = mb.endPos := length_take_of_le (by omega)
  have hback := hholds.setPos (q := mb.pos) (by rw [length_append]; omega)
  refine ⟨mb', hwrite, hback.ok, ?_⟩
  rw [hback.left, drop_append_of_le_length (by omega), drop_take, ← h.left]
  rfl

/-! Reads from an offset on. -/

section
variable (i : Nat)

section
variable (h : mb.Rest r)
include h

theorem readMem (hn : i + n ≤ r.length) :
    readMem n (mb.setPos (mb.pos + i)) = .ok (BareRTC.slice r i n) (mb.setPos (mb.pos + (i + n))) := by
  have hd := h.drop (n := i) (by omega)
  have hle : n ≤ (r.drop i).length := by rw [length_drop]; omega
  rw [readMem_of_le (by rw [hd.getLeft]; exact hle), hd.slice hle, BareRTC.slice]
  simp [setPos, Nat.add_assoc]

theorem readNat (hn : i + n ≤ r.length) :
    readNat n (mb.setPos (mb.pos + i)) = .ok (beNat (BareRTC.slice r i n)) (mb.setPos (mb.pos + (i + n))) := by
  rw [Mbuf.readNat, h.readMem i hn]

theorem readU8 (hn : i + 1 ≤ r.length) :
    readU8 (mb.setPos (mb.pos + i)) =
      .ok (UInt8.ofNat (beNat (BareRTC.slice r i 1))) (mb.setPos (mb.pos + (i + 1))) := by
  unfold Mbuf.readU8
  rw [bind_of_ok (h.readNat i hn)]
  rfl

theorem readU16 (hn : i + 2 ≤ r.length) :
    readU16 (mb.setPos (mb.pos + i)) =
      .ok (UInt16.ofNat (beNat (BareRTC.slice r i 2))) (mb.setPos (mb.pos + (i + 2))) := by
  unfold Mbuf.readU16
  rw [bind_of_ok (h.readNat i hn)]
  rfl

theorem readU32 (hn : i + 4 ≤ r.length) :
    readU32 (mb.setPos (mb.pos + i)) =
      .ok (UInt32.ofNat (beNat (BareRTC.slice r i 4))) (mb.setPos (mb.pos + (i + 4))) := by
  unfold Mbuf.readU32
  rw [bind_of_ok (h.readNat i hn)]
  rfl

theorem readU64 (hn : i + 8 ≤ r.length) :
    readU64 (mb.setPos (mb.pos + i)) =
      .ok (UInt64.ofNat (beNat (BareRTC.slice r i 8))) (mb.setPos (mb.pos + (i + 8))) := by
  unfold Mbuf.readU64
  rw [bind_of_ok (h.readNat i hn)]
  rfl

theorem getLeft_at : (mb.setPos (mb.pos + i)).getLeft = r.length - i := by
  have hleft := h.getLeft
  unfold Mbuf.getLeft at hleft
  rw [getLeft_setPos]
  omega

theorem require_of_le (hi : i ≤ r.length) (hn : i + n ≤ r.length) :
    require n (mb.setPos (mb.pos + i)) = .ok () (mb.setPos (mb.pos + i)) :=
  Mbuf.require_of_le (by rw [h.getLeft_at]; omega)

theorem require_of_lt (hi : i ≤ r.length) (hn : r.length < i + n) :
    require n (mb.setPos (mb.pos + i)) = .error .EBADMSG (mb.setPos (mb.pos + i)) :=
  Mbuf.require_of_lt (by rw [h.getLeft_at]; omega)

omit i in
theorem require_ok {α : Type} {f : Unit → MbufM α} {a : α} {mb' : Mbuf} (hok : (require n >>= f) mb = .ok a mb') :
    n ≤ r.length ∧ f () mb = .ok a mb' := by
  by_cases hn : n ≤ r.length
  · rw [bind_of_ok (Mbuf.require_of_le (h.getLeft ▸ hn))] at hok
    exact ⟨hn, hok⟩
  · rw [bind_of_error (Mbuf.require_of_lt (h.getLeft ▸ Nat.not_le.1 hn))] at hok
    cases hok

end

end

end Rest

theorem skipPadding_eq {mb : Mbuf} {r : Bytes} {n : Nat} (h : mb.Rest r) (hn : n ≤ r.length) :
    skipPadding mb.pos 3 (mb.setPos (mb.pos + n)) = mb.setPos (mb.pos + min (pad4 n) r.length) := by
  have hleft := h.getLeft_at
  have hsub : ∀ j, (mb.setPos (mb.pos + j)).pos - mb.pos = j := fun j => Nat.add_sub_cancel_left mb.pos j
  -- one step of the loop
  have hstep : ∀ m j, skipPadding mb.pos (m + 1) (mb.setPos (mb.pos + j)) =
      if j % 4 ≠ 0 ∧ r.length - j ≠ 0 then skipPadding mb.pos m (mb.setPos (mb.pos + (j + 1)))
      else mb.setPos (mb.pos + j) := by
    intro m j
    rw [skipPadding, hsub, hleft]
    rfl
  have hzero : ∀ mb', skipPadding mb.pos 0 mb' = mb' := fun _ => rfl
  rw [hstep 2, hstep 1, hstep 0, hzero]
  unfold pad4
  split_ifs
  all_goals
    congr 2
    omega

/-- What a connection has in the buffer that it keeps between two segments -/
def Kept : Option Mbuf → Bytes → Prop
  | none, r => r = []
  | some mb, r => mb.Rest r

end Mbuf

end BareRTC
