import BareRTC.Re.Reader

/-!
# What a buffer holds

`mb.Holds x p`: the bytes of `mb` up to its end are `x` and it stands at `p`; what lies beyond the
end is not said. One lemma for each operation: packets are sealed and opened on `x` alone.
-/

namespace BareRTC.Mbuf

open List

structure Holds (mb : Mbuf) (x : Bytes) (p : Nat) : Prop where
  take : mb.buf.take mb.endPos = x
  endPos : mb.endPos = x.length
  pos : mb.pos = p
  le : p ≤ x.length

variable {mb : Mbuf} {x : Bytes} {p : Nat}

theorem holds_of_ok (h : mb.Ok) : mb.Holds (mb.buf.take mb.endPos) mb.pos := by
  have hp := h.pos
  have he := h.endPos
  have hlen : (mb.buf.take mb.endPos).length = mb.endPos := length_take_of_le (by omega)
  exact ⟨rfl, hlen.symm, rfl, by omega⟩

namespace Holds

section
variable (h : mb.Holds x p)
include h

theorem length_le : x.length ≤ mb.buf.length := by
  have := congrArg List.length h.take
  rw [length_take, h.endPos] at this
  omega

theorem ok : mb.Ok := ⟨by rw [h.pos, h.endPos]; exact h.le, by rw [h.endPos]; exact h.length_le⟩

theorem slice {i n : Nat} (hn : i + n ≤ x.length) : slice mb.buf i n = slice x i n := by
  rw [← h.take, BareRTC.slice, BareRTC.slice, drop_take, take_take, h.endPos, Nat.min_eq_left (by omega)]

theorem getLeft : mb.getLeft = x.length - p := by
  rw [Mbuf.getLeft, h.endPos, h.pos]

theorem left : mb.left = x.drop p := by
  have hle := h.le
  rw [Mbuf.left, h.getLeft, h.pos, h.slice (by omega), BareRTC.slice]
  exact take_of_length_le (by rw [length_drop])

theorem setPos {q : Nat} (hq : q ≤ x.length) : (mb.setPos q).Holds x q := ⟨h.take, h.endPos, rfl, hq⟩

theorem setEnd {n : Nat} (hn : n ≤ x.length) (hp : p ≤ n) : (mb.setEnd n).Holds (x.take n) p := by
  have hlen : (x.take n).length = n := length_take_of_le (by omega)
  refine ⟨?_, hlen.symm, h.pos, by omega⟩
  have := congrArg (List.take n) h.take
  rwa [take_take, h.endPos, Nat.min_eq_left hn] at this

theorem poke {i : Nat} {d : Bytes} (hd : i + d.length ≤ x.length) : (mb.poke i d).Holds (overwrite x i d) p := by
  have hlen := h.length_le
  have hover : (overwrite x i d).length = x.length := length_overwrite hd
  refine ⟨?_, by rw [hover]; exact h.endPos, h.pos, by rw [hover]; exact h.le⟩
  show (overwrite mb.buf i d).take mb.endPos = _
  have htake : mb.buf.take i = x.take i := by
    rw [← h.take, take_take, h.endPos, Nat.min_eq_left (by omega)]
  have hdrop : (mb.buf.drop (i + d.length)).take (x.length - (i + d.length)) = x.drop (i + d.length) := by
    have := congrArg (List.drop (i + d.length)) h.take
    rwa [drop_take, h.endPos] at this
  have hi : (x.take i).length = i := length_take_of_le (by omega)
  rw [overwrite, overwrite, htake, h.endPos, append_assoc, append_assoc, ← hdrop,
    take_append, hi, take_of_length_le (l := x.take i) (by omega), take_append,
    take_of_length_le (l := d) (by omega), Nat.sub_sub]

end

theorem overwrite_setEnd {b d : Bytes} {e n : Nat} (h : Holds ⟨b, p, e⟩ x p) (hn : n ≤ x.length)
    (hp : p ≤ n) : Holds ⟨overwrite b n d, p, n⟩ (x.take n) p := by
  have hlen := h.length_le
  have hset := h.setEnd hn hp
  refine ⟨?_, hset.endPos, rfl, hset.le⟩
  rw [← hset.take, overwrite, append_assoc]
  exact take_left' (by simp only [length_take] at hlen ⊢; omega)

theorem writeMem_end (h : mb.Holds x x.length) {d : Bytes} :
    ∃ mb', writeMem true d mb = .ok () mb' ∧ mb'.Holds (x ++ d) (x ++ d).length := by
  have hlen := h.length_le
  have key : ∀ b : Bytes, b.take x.length = x → x.length + d.length ≤ b.length →
      (⟨overwrite b x.length d, x.length + d.length, x.length + d.length⟩ : Mbuf).Holds (x ++ d) (x ++ d).length := by
    intro b hb hl
    refine ⟨?_, by simp, by simp, Nat.le_refl _⟩
    show (overwrite b x.length d).take (x.length + d.length) = x ++ d
    rw [overwrite, hb]
    exact take_left' (by simp)
  unfold writeMem
  simp only [h.pos, Bool.true_eq_false, and_false, if_false, h.endPos, Nat.max_eq_right (Nat.le_add_right _ _)]
  refine ⟨_, rfl, ?_⟩
  have htake := h.take
  rw [h.endPos] at htake
  split
  · refine key _ ?_ ?_
    · rw [take_append_of_le_length hlen, htake]
    · rw [length_append, length_replicate]
      omega
  · exact key _ htake (by omega)

theorem append (h : mb.Holds x p) (d : Bytes) :
    ∃ mb', writeMem true d (mb.setPos mb.endPos) = .ok () mb' ∧ mb'.Holds (x ++ d) (x ++ d).length := by
  rw [h.endPos]
  exact (h.setPos (Nat.le_refl _)).writeMem_end

end Holds

theorem exists_split (h : mb.Ok) {k : Nat} (hk : k ≤ mb.getLeft) : ∃ a b : Bytes, a.length = mb.pos + k ∧
    mb.Holds (a ++ b) mb.pos ∧ (mb.setPos (mb.pos + k)).Holds (a ++ b) a.length := by
  have hx := holds_of_ok h
  have hle := h.pos
  rw [Mbuf.getLeft] at hk
  have ha : ((mb.buf.take mb.endPos).take (mb.pos + k)).length = mb.pos + k := by
    rw [length_take, ← hx.endPos]
    omega
  refine ⟨_, (mb.buf.take mb.endPos).drop (mb.pos + k), ha, ?_⟩
  rw [take_append_drop, ha]
  exact ⟨hx, hx.setPos (by rw [← hx.endPos]; omega)⟩

end BareRTC.Mbuf
