import BareRTC.Re.Rest

/-!
# Writing to a buffer

`Emits f d`: the encoder `f` writes the bytes `d` behind those that are there. It is closed under
sequencing and loops, so that what an encoder writes is read off its definition. A header that is
written last, into the gap left for it, is `Gap`.
-/

namespace BareRTC.Mbuf

open List

/-- The bytes from `s` to the position, which is the end, are `x`. -/
structure Wrote (s : Nat) (x : Bytes) (mb : Mbuf) : Prop where
  pos : mb.pos = s + x.length
  endPos : mb.endPos = s + x.length
  bytes : slice mb.buf s x.length = x

def Emits (f : Mbuf → Mbuf) (d : Bytes) : Prop :=
  ∀ ⦃s : Nat⦄ ⦃x : Bytes⦄ ⦃mb : Mbuf⦄, Wrote s x mb → Wrote s (x ++ d) (f mb)

theorem write_eq {d : Bytes} {mb : Mbuf} :
    ∃ b : Bytes, (∀ (i : Nat) (x : Bytes), slice mb.buf i x.length = x → slice b i x.length = x) ∧
      mb.pos + d.length ≤ b.length ∧
      write d mb = ⟨overwrite b mb.pos d, mb.pos + d.length, max mb.endPos (mb.pos + d.length)⟩ := by
  by_cases hgrow : mb.pos + d.length > mb.buf.length
  · have hkeep (n i : Nat) (x : Bytes) (hx : slice mb.buf i x.length = x) :
        slice (mb.buf ++ List.replicate n 0) i x.length = x := by
      by_cases hnil : x = []
      · subst hnil
        simp [slice]
      have hlen := congrArg List.length hx
      have hpos := length_pos_iff.2 hnil
      rw [slice, length_take, length_drop] at hlen
      rw [slice_append_of_le (by omega), hx]
    refine ⟨_, hkeep (max (mb.pos + d.length) (if mb.buf.length = 0 then defaultSize else 2 * mb.buf.length) -
      mb.buf.length), ?_, ?_⟩
    · rw [length_append, length_replicate]
      omega
    · unfold write writeMem
      simp only [Bool.true_eq_false, and_false, if_false, if_pos hgrow]
  · refine ⟨mb.buf, fun _ _ hx => hx, by omega, ?_⟩
    unfold write writeMem
    simp only [Bool.true_eq_false, and_false, if_false, if_neg hgrow]

namespace Emits

theorem write (d : Bytes) : Emits (write d) d := by
  intro s x mb h
  obtain ⟨b, hkeep, hlen, hw⟩ := write_eq
  have hpos := h.pos
  rw [hw]
  refine ⟨?_, ?_, ?_⟩
  · show mb.pos + d.length = _
    rw [length_append]
    omega
  · show max mb.endPos (mb.pos + d.length) = _
    rw [h.endPos, length_append]
    omega
  · show slice (overwrite b mb.pos d) s (x ++ d).length = x ++ d
    rw [length_append, ← slice_append_slice rfl, ← hpos, slice_overwrite_self (by omega),
      slice_overwrite_before (by omega) (by omega), hkeep s x h.bytes]

theorem id : Emits id [] := by
  intro s x mb h
  rw [append_nil]
  exact h

theorem comp {f g : Mbuf → Mbuf} {d e : Bytes} (hf : Emits f d) (hg : Emits g e) :
    Emits (fun mb => g (f mb)) (d ++ e) := by
  intro s x mb h
  rw [← append_assoc]
  exact hg (hf h)

theorem foldl {α : Type} {f : Mbuf → α → Mbuf} {d : α → Bytes} (hf : ∀ a, Emits (f · a) (d a)) :
    ∀ l : List α, Emits (fun mb => l.foldl f mb) (l.flatMap d)
  | [] => id
  | a :: l => by
    rw [flatMap_cons]
    exact (hf a).comp (foldl hf l)

theorem padding : ∀ n : Nat, Emits ((Mbuf.write [0])^[n]) (List.replicate n 0)
  | 0 => id
  | n + 1 => (write [0]).comp (padding n)

end Emits

/-! ## A header that is written last -/

/-- The bytes from `s` to the position are `x`, and there are bytes `y` from `e` to the end. -/
structure Gap (s e : Nat) (x y : Bytes) (mb : Mbuf) : Prop where
  pos : mb.pos = s + x.length
  le : s + x.length ≤ e
  endPos : mb.endPos = e + y.length
  front : slice mb.buf s x.length = x
  back : slice mb.buf e y.length = y

variable {e s : Nat} {y x : Bytes} {mb : Mbuf}

theorem Wrote.gap {n : Nat} (h : Wrote e y mb) (hs : e = s + n) : Gap s e [] y (mb.setPos s) :=
  ⟨rfl, by rw [length_nil]; omega, h.endPos, by simp [slice], h.bytes⟩

theorem Gap.write (h : Gap s e x y mb) (d : Bytes)
    (hd : s + (x ++ d).length ≤ e) : Gap s e (x ++ d) y (write d mb) := by
  obtain ⟨b, hkeep, hlen, hw⟩ := write_eq
  have hpos := h.pos
  have hfront := hkeep s x h.front
  have hback := hkeep e y h.back
  rw [length_append] at hd
  rw [hw]
  refine ⟨?_, by rw [length_append]; omega, ?_, ?_, ?_⟩
  · show mb.pos + d.length = _
    rw [length_append]
    omega
  · show max mb.endPos (mb.pos + d.length) = _
    rw [h.endPos]
    omega
  · show slice (overwrite b mb.pos d) s (x ++ d).length = x ++ d
    rw [length_append, ← slice_append_slice rfl, ← hpos, slice_overwrite_self (by omega),
      slice_overwrite_before (by omega) (by omega), hfront]
  · show slice (overwrite b mb.pos d) e y.length = y
    rw [slice_overwrite_after hlen (by omega), hback]

theorem Gap.wrote (h : Gap s e x y mb) (he : e = s + x.length) : Wrote s (x ++ y) (mb.setPos mb.endPos) := by
  have hend : mb.endPos = s + (x ++ y).length := by
    rw [h.endPos, length_append]
    omega
  refine ⟨hend, hend, ?_⟩
  · show slice mb.buf s (x ++ y).length = x ++ y
    rw [length_append, ← slice_append_slice rfl, h.front, ← he, h.back]

theorem Wrote.rest (h : Wrote s x mb) (hx : x ≠ []) : (mb.setPos s).Rest x := by
  have hlen := congrArg List.length h.bytes
  have hpos := length_pos_iff.2 hx
  have hend := h.endPos
  rw [slice, length_take, length_drop] at hlen
  refine ⟨⟨?_, ?_⟩, ?_⟩
  · show s ≤ mb.endPos
    omega
  · show mb.endPos ≤ mb.buf.length
    omega
  · show slice mb.buf s (mb.endPos - s) = x
    rw [hend, Nat.add_sub_cancel_left]
    exact h.bytes

end BareRTC.Mbuf
