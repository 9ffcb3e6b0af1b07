import BareRTC.Lib.Prog
import BareRTC.Re.Mbuf

/-!
# Parsers over a buffer

`Reads n f m` is the contract of a parser `f` that is run with at least `n` bytes left: on success
it has only moved the position forward, at least `m a` bytes are left, and the result is
determined by the bytes it moved over, whatever follows them. The two counts carry the C code's
length checks (`Mbuf.require`) to the reads they guard. The contract is closed under sequencing
(`Reads.bind`).
-/

namespace BareRTC

variable {α β : Type}

/-- Two buffers with the same `n + m` bytes at `i` and `j` have the same `n` there and the same
`m` after them. -/
theorem slice_add {b c : List α} {i j n m : Nat} (h : slice b i (n + m) = slice c j (n + m)) :
    slice b i n = slice c j n ∧ slice b (i + n) m = slice c (j + n) m := by
  constructor
  · have := congrArg (List.take n) h
    simpa [slice, List.take_take] using this
  · have := congrArg (List.drop n) h
    simpa [slice, List.drop_take, List.drop_drop] using this

namespace Mbuf

variable {mb : Mbuf} {n : Nat}

@[simp] theorem getLeft_setPos (p : Nat) : (mb.setPos p).getLeft = mb.endPos - p := rfl

theorem length_left (h : mb.Ok) : mb.left.length = mb.getLeft := by
  have := h.pos
  have := h.endPos
  exact length_slice (by simp only [getLeft]; omega)

theorem slice_left {i : Nat} (h : i + n ≤ mb.getLeft) : slice mb.left i n = slice mb.buf (mb.pos + i) n := slice_slice h

/-! ## Single reads and writes -/

theorem require_of_le (h : n ≤ mb.getLeft) : require n mb = .ok () mb := by
  rw [require, if_neg (Nat.not_lt.2 h)]

theorem require_of_lt (h : mb.getLeft < n) : require n mb = .error .EBADMSG mb := by
  rw [require, if_pos h]

theorem advance_apply : advance n mb = .ok () (mb.setPos (mb.pos + n)) := rfl

theorem readMem_of_le (h : n ≤ mb.getLeft) : readMem n mb = .ok (slice mb.buf mb.pos n) (mb.setPos (mb.pos + n)) := by
  rw [readMem, if_neg (Nat.not_lt.2 h)]

theorem readNat_of_le (h : n ≤ mb.getLeft) :
    readNat n mb = .ok (beNat (slice mb.buf mb.pos n)) (mb.setPos (mb.pos + n)) := by
  rw [readNat, readMem_of_le h]

theorem readU16_of_le (h : 2 ≤ mb.getLeft) :
    readU16 mb = .ok (UInt16.ofNat (beNat (slice mb.buf mb.pos 2))) (mb.setPos (mb.pos + 2)) := by
  unfold readU16
  rw [bind_of_ok (readNat_of_le h)]
  rfl

theorem readU32_of_le (h : 4 ≤ mb.getLeft) :
    readU32 mb = .ok (UInt32.ofNat (beNat (slice mb.buf mb.pos 4))) (mb.setPos (mb.pos + 4)) := by
  unfold readU32
  rw [bind_of_ok (readNat_of_le h)]
  rfl

theorem writeMem_of_le {mem : Bool} {d : Bytes} (h : mb.pos + d.length ≤ mb.buf.length) :
    writeMem mem d mb = .ok () ⟨overwrite mb.buf mb.pos d, mb.pos + d.length, max mb.endPos (mb.pos + d.length)⟩ := by
  have hn : ¬ mb.pos + d.length > mb.buf.length := Nat.not_lt.2 h
  unfold writeMem
  simp only [hn, false_and, if_false]

theorem writeU32_of_le {mem : Bool} {v : UInt32} (h : mb.pos + 4 ≤ mb.buf.length) :
    writeU32 mem v mb = .ok () ⟨overwrite mb.buf mb.pos (beBytes 4 v.toNat), mb.pos + 4,
      max mb.endPos (mb.pos + 4)⟩ := by
  rw [writeU32, writeMem_of_le (by rwa [length_beBytes]), length_beBytes]

end Mbuf

/-! ## The contract -/

/-- Run with `n` bytes left, on success `f` moved the position over `k` bytes, leaves `m a` more,
and does the same to every buffer with these `k` bytes at its position and no fewer left. -/
def Reads (n : Nat) (f : MbufM α) (m : α → Nat) : Prop :=
  ∀ mb a mb', n ≤ mb.getLeft → f mb = .ok a mb' →
    ∃ k, k + m a ≤ mb.getLeft ∧ mb' = mb.setPos (mb.pos + k) ∧
      ∀ mb₂ : Mbuf, mb.getLeft ≤ mb₂.getLeft →
        slice mb₂.buf mb₂.pos k = slice mb.buf mb.pos k → f mb₂ = .ok a (mb₂.setPos (mb₂.pos + k))

namespace Reads

variable {n : Nat} {m l : α → Nat} {f : MbufM α}

theorem pure {a : α} : Reads n (pure a) fun _ => n := by
  intro mb b mb' hn h
  cases h
  exact ⟨0, by dsimp only; omega, rfl, fun _ _ _ => rfl⟩

variable {k : Nat}

theorem require : Reads n (Mbuf.require k) fun _ => k := by
  intro mb a mb' _ h
  unfold Mbuf.require at h
  split at h
  · cases h
  cases h
  refine ⟨0, by dsimp only; omega, rfl, fun mb2 hl _ => ?_⟩
  rw [Mbuf.require, if_neg (by omega)]
  rfl

theorem readMem : Reads n (Mbuf.readMem k) fun _ => n - k := by
  intro mb a mb' hn h
  unfold Mbuf.readMem at h
  split at h
  · cases h
  cases h
  refine ⟨k, by dsimp only; omega, rfl, fun mb2 hl hs => ?_⟩
  rw [Mbuf.readMem, if_neg (by omega), hs]

theorem advance {k : Nat} (hk : k ≤ n) : Reads n (Mbuf.advance k) fun _ => n - k := by
  intro mb a mb' hn h
  cases h
  exact ⟨k, by dsimp only; omega, rfl, fun _ _ _ => rfl⟩

theorem bind {g : α → MbufM β} {l : β → Nat} (hf : Reads n f m)
    (hg : ∀ a, Reads (m a) (g a) l) : Reads n (f >>= g) l := by
  intro mb b mb' hn h
  obtain ⟨a, mb1, h1, h2⟩ := bind_eq_ok.1 h
  obtain ⟨k, hk, rfl, hfk⟩ := hf mb a mb1 hn h1
  have hle : mb.endPos - (mb.pos + k) = mb.getLeft - k := by simp only [Mbuf.getLeft]; omega
  obtain ⟨k', hk', rfl, hgk⟩ := hg a _ b mb' (by simp only [Mbuf.getLeft_setPos, hle]; omega) h2
  rw [Mbuf.getLeft_setPos, hle] at hk'
  refine ⟨k + k', by omega, by simp [Mbuf.setPos, Nat.add_assoc], fun mb2 hl hs => ?_⟩
  obtain ⟨hs1, hs2⟩ := slice_add hs
  rw [bind_of_ok (hfk mb2 hl hs1), hgk (mb2.setPos (mb2.pos + k)) _ hs2]
  · simp [Mbuf.setPos, Nat.add_assoc]
  simp only [Mbuf.getLeft_setPos]
  simp only [Mbuf.getLeft] at hl
  omega

theorem weaken (hf : Reads n f m) (h : ∀ a, l a ≤ m a) : Reads n f l := by
  intro mb a mb' hn hr
  obtain ⟨k, hk, he, hfk⟩ := hf mb a mb' hn hr
  exact ⟨k, by have := h a; omega, he, hfk⟩

theorem readNat {k : Nat} (hk : k ≤ n) : Reads n (Mbuf.readNat k) fun _ => n - k := by
  intro mb a mb' hn h
  rw [Mbuf.readNat_of_le (by omega)] at h
  cases h
  refine ⟨k, by dsimp only; omega, rfl, fun mb2 hl hs => ?_⟩
  rw [Mbuf.readNat_of_le (by omega), hs]

theorem readU16 (hk : 2 ≤ n) : Reads n Mbuf.readU16 fun _ => n - 2 := bind (readNat hk) fun _ => pure

theorem readU32 (hk : 4 ≤ n) : Reads n Mbuf.readU32 fun _ => n - 4 := bind (readNat hk) fun _ => pure

end Reads
end BareRTC
