import Mathlib.Tactic

/-!
# Sliding windows of received indices

A window keeps the largest index accepted so far (`last`) and a bit for each of the `w` indices up
to it: bit `d` stands for `last - d`. `check` accepts an index at most once: an index that is old
(`w` or more below `last`) or whose bit is set is *blocked* (`Blocked`), acceptance blocks the
index, and nothing unblocks one (`check_blocked`, `Blocked.check`).
-/

namespace BareRTC

structure Window (w : Nat) where
  bitmap : BitVec w
  last : Nat

namespace Window

variable {w : Nat} {W : Window w}

def check (W : Window w) (i : Nat) : Bool × Window w :=
  if W.last < i then
    if i - W.last < w then (true, ⟨W.bitmap <<< (i - W.last) ||| 1#w, i⟩)
    else (true, ⟨1#w, i⟩)
  else if w ≤ W.last - i then (false, W)
  else if W.bitmap.getLsbD (W.last - i) then (false, W)
  else (true, { W with bitmap := W.bitmap ||| 1#w <<< (W.last - i) })

def Blocked (W : Window w) (i : Nat) : Prop := i ≤ W.last ∧ (w ≤ W.last - i ∨ W.bitmap.getLsbD (W.last - i))

inductive Checked (W : Window w) (i : Nat) : Bool × Window w → Prop
  | refused : W.Blocked i → Checked W i (false, W)
  | accepted {b : BitVec w} {n : Nat} : n = max W.last i → ¬ W.Blocked i →
      (∀ j ≤ n, n - j < w →
        (b.getLsbD (n - j) ↔ j = i ∨ j ≤ W.last ∧ W.bitmap.getLsbD (W.last - j))) →
      Checked W i (true, ⟨b, n⟩)

theorem checked (W : Window w) (i : Nat) : Checked W i (W.check i) := by
  have hone : ∀ k, (1#w).getLsbD k ↔ 0 < w ∧ k = 0 := fun k => by simp
  unfold check
  split
  · rename_i hlt
    have hnot : ¬ W.Blocked i := fun h => Nat.not_le.2 hlt h.1
    split
    · refine .accepted (max_eq_right hlt.le).symm hnot fun j hj hjw => ?_
      simp only [BitVec.getLsbD_or, BitVec.getLsbD_shiftLeft, Bool.or_eq_true, hone]
      grind
    · refine .accepted (max_eq_right hlt.le).symm hnot fun j hj hjw => ?_
      rw [hone]
      grind
  rename_i hle
  rw [Nat.not_lt] at hle
  split
  · exact .refused ⟨hle, .inl ‹_›⟩
  split
  · exact .refused ⟨hle, .inr ‹_›⟩
  rename_i hw hb
  refine .accepted (max_eq_left hle).symm (fun h => h.2.elim hw hb) fun j hj hjw => ?_
  simp only [BitVec.getLsbD_or, BitVec.getLsbD_shiftLeft, Bool.or_eq_true]
  grind

theorem check_fst (i : Nat) : (W.check i).1 ↔ ¬ W.Blocked i := by
  have h := W.checked i
  generalize W.check i = r at h
  cases h with
  | refused hb => simp [hb]
  | accepted _ hb => simp [hb]

theorem check_snd_of_refused {i : Nat} (h : (W.check i).1 = false) : (W.check i).2 = W := by
  have hc := W.checked i
  generalize W.check i = r at h hc
  cases hc with
  | refused => rfl
  | accepted => cases h

theorem check_blocked (W : Window w) (i : Nat) : (W.check i).2.Blocked i := by
  have h := W.checked i
  generalize W.check i = r at h
  cases h with
  | refused hb => exact hb
  | @accepted b n hn _ hbit =>
    refine ⟨by simp only; omega, ?_⟩
    by_cases hout : w ≤ n - i
    · exact .inl hout
    · exact .inr ((hbit i (by omega) (by omega)).2 (.inl rfl))

theorem Blocked.check {j : Nat} (h : W.Blocked j) (i : Nat) : (W.check i).2.Blocked j := by
  obtain ⟨hj, hb⟩ := h
  have hc := W.checked i
  generalize W.check i = r at hc
  cases hc with
  | refused => exact ⟨hj, hb⟩
  | @accepted b n hn _ hbit =>
    refine ⟨by simp only; omega, ?_⟩
    by_cases hout : w ≤ n - j
    · exact .inl hout
    · exact .inr ((hbit j (by omega) (by omega)).2 (.inr ⟨hj, hb.resolve_left (by omega)⟩))

theorem last_check_le {i n : Nat} (hW : W.last ≤ n) (hi : i ≤ n) : (W.check i).2.last ≤ n := by
  have h := W.checked i
  generalize W.check i = r at h
  cases h with
  | refused => exact hW
  | accepted hn => exact hn.trans_le (max_le hW hi)

structure Tracks (acc : List Nat) (W : Window w) : Prop where
  le : ∀ j ∈ acc, j ≤ W.last
  last : W.last = 0 ∨ W.last ∈ acc
  bit : ∀ j ≤ W.last, W.last - j < w → (W.bitmap.getLsbD (W.last - j) ↔ j ∈ acc)

theorem Tracks.check_fst {acc : List Nat} (h : Tracks acc W) (hw : 0 < w) (i : Nat) :
    (W.check i).1 ↔ i ∉ acc ∧ ∀ j ∈ acc, j < i + w := by
  obtain ⟨hle, hlast, hbit⟩ := h
  have hout : w ≤ W.last - i → W.bitmap.getLsbD (W.last - i) = false := BitVec.getLsbD_of_ge _ _
  rw [Window.check_fst, Blocked]
  constructor
  · exact fun hb => ⟨fun hm => hb ⟨hle i hm, by grind⟩, fun j hj => by grind⟩
  rintro ⟨hnot, hall⟩ ⟨hil, hb | hb⟩
  · rcases hlast with hlast | hlast
    · omega
    · have := hall _ hlast
      omega
  · grind

theorem Tracks.check {acc : List Nat} {i : Nat} (h : Tracks acc W) (hi : (W.check i).1) :
    Tracks (acc ++ [i]) (W.check i).2 := by
  have hmem : ∀ j, j ∈ acc ++ [i] ↔ j ∈ acc ∨ j = i := fun j => by simp
  obtain ⟨hle, hlast, hbit⟩ := h
  have hc := W.checked i
  generalize W.check i = r at hi hc
  cases hc with
  | refused => cases hi
  | @accepted b n hn _ hbits =>
    refine ⟨fun j hj => ?_, ?_, fun j hj hjw => ?_⟩
    · rcases (hmem j).1 hj with hj | rfl
      · exact (hle j hj).trans (by simp only; omega)
      · simp only; omega
    · simp only [hmem]
      grind
    · have hold := hbit j
      have hjl := hle j
      rw [hbits j hj hjw, hmem]
      simp only at hj hjw
      grind

end Window
end BareRTC
