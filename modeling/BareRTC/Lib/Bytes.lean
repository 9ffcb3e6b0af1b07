import Mathlib.Tactic

/-!
# Byte strings

Big-endian numbers and in-place writes over lists of bytes. `overwrite b i d` is a `memcpy` of
`d` to offset `i` of `b`, `slice b i n` the `n` bytes read from offset `i`. The lemmas state both
on a buffer split at the offset (`overwrite_append`, `slice_append`): a proof about code that
moves through a buffer keeps the buffer as a concatenation of its fields.
-/

namespace BareRTC

open List

abbrev Bytes := List UInt8

section
variable {α : Type} {p : α → Prop} [DecidablePred p]

-- Whole Mathlib finds `Fintype UInt8` first, and enumerates the type.
instance decidableForallMemList (l : List α) : Decidable (∀ a ∈ l, p a) := l.decidableBAll p

instance decidableForallMemOption (o : Option α) : Decidable (∀ a ∈ o, p a) := o.decidableForallMem

end

/-! ## Reads and writes at an offset -/

section
variable {α : Type} {a x c d b : List α} {i n j : Nat}

def slice (b : List α) (i n : Nat) : List α := (b.drop i).take n

def overwrite (b : List α) (i : Nat) (d : List α) : List α := b.take i ++ d ++ b.drop (i + d.length)

theorem slice_eq_drop_take : slice b i n = (b.take (i + n)).drop i := by
  rw [slice, drop_take, Nat.add_sub_cancel_left]

theorem slice_append (hi : i = a.length) (hn : n = x.length) : slice (a ++ (x ++ c)) i n = x := by
  subst hi hn
  simp [slice]

theorem slice_append_right (hi : i = a.length) (hn : n = x.length) : slice (a ++ x) i n = x := by
  subst hi hn
  simp [slice]

theorem slice_append_left (hi : i ≤ a.length) (hn : n = a.length - i) : slice (a ++ x) i n = a.drop i := by
  rw [slice, drop_append_of_le_length hi]
  exact take_left' (by rw [length_drop, hn])

theorem slice_append_of_le (h : i + n ≤ a.length) : slice (a ++ x) i n = slice a i n := by
  rw [slice, slice, drop_append_of_le_length (by omega), take_append_of_le_length]
  rw [length_drop]
  omega

theorem overwrite_append (hi : i = a.length)
    (hd : d.length = x.length) : overwrite (a ++ (x ++ c)) i d = a ++ (d ++ c) := by
  subst hi
  have h1 : (a ++ (x ++ c)).take a.length = a := by simp
  have h2 : (a ++ (x ++ c)).drop (a.length + d.length) = c := by
    rw [hd, ← drop_drop]
    simp
  rw [overwrite, h1, h2, append_assoc]

theorem length_slice (h : i + n ≤ b.length) : (slice b i n).length = n := by
  simp only [slice, length_take, length_drop]
  omega

theorem length_overwrite (h : i + d.length ≤ b.length) : (overwrite b i d).length = b.length := by
  simp only [overwrite, length_append, length_take, length_drop]
  omega

theorem slice_overwrite_after (hb : i + d.length ≤ b.length)
    (h : i + d.length ≤ j) : slice (overwrite b i d) j n = slice b j n := by
  have hlen : (b.take i ++ d).length = i + d.length := by
    rw [length_append, length_take, Nat.min_eq_left (by omega)]
  have : (overwrite b i d).drop j = b.drop j := by
    rw [overwrite, drop_append, hlen, drop_eq_nil_of_le (by omega), nil_append, drop_drop, Nat.add_sub_cancel' h]
  rw [slice, slice, this]

theorem slice_overwrite_before (hb : i ≤ b.length) (h : j + n ≤ i) : slice (overwrite b i d) j n = slice b j n := by
  have htake : (overwrite b i d).take (j + n) = b.take (j + n) := by
    rw [overwrite, append_assoc, take_append_of_le_length (by rw [length_take]; omega), take_take, Nat.min_eq_left h]
  have hdrop := congrArg (List.drop j) htake
  simpa [slice, drop_take] using hdrop

theorem slice_overwrite_self (hb : i ≤ b.length) : slice (overwrite b i d) i d.length = d := by
  rw [overwrite, append_assoc]
  exact slice_append (by rw [length_take]; omega) rfl

theorem slice_append_slice {m : Nat} (hj : j = i + n) : slice b i n ++ slice b j m = slice b i (n + m) := by
  subst hj
  rw [slice, slice, slice, take_add, drop_drop]

theorem slice_overwrite_tail (hb : i ≤ b.length) (h : j ≤ i)
    (hn : n = i - j + d.length) : slice (overwrite b i d) j n = slice b j (i - j) ++ d := by
  rw [hn, ← slice_append_slice (j := i) (by omega), slice_overwrite_before hb (by omega), slice_overwrite_self hb]

theorem slice_slice {m : Nat} (h : j + m ≤ n) : slice (slice b i n) j m = slice b (i + j) m := by
  simp only [slice, drop_take, drop_drop, take_take]
  rw [Nat.min_eq_left (by omega)]

end

theorem forall_uint8 {P : UInt8 → Prop} (h : ∀ n : Fin 256, P (UInt8.ofNat n)) (b : UInt8) : P b := by
  have hb := h ⟨b.toNat, b.toNat_lt⟩
  rwa [UInt8.ofNat_toNat] at hb

def pad4 (n : Nat) : Nat := (n + 3) / 4 * 4

theorem le_pad4 (n : Nat) : n ≤ pad4 n := by
  unfold pad4
  omega

/-! ## Big-endian numbers -/

def beNat (b : Bytes) : Nat := b.foldl (fun a x => 256 * a + x.toNat) 0

def numAt (r : Bytes) (i n : Nat) : Nat := beNat (slice r i n)

theorem numAt_append {v t : Bytes} {i n : Nat} (h : i + n ≤ v.length) : numAt (v ++ t) i n = numAt v i n := by
  rw [numAt, numAt, slice_append_of_le h]

def beBytes : Nat → Nat → Bytes
  | 0, _ => []
  | n + 1, v => beBytes n (v / 256) ++ [UInt8.ofNat v]

@[simp] theorem length_beBytes : ∀ n v : Nat, (beBytes n v).length = n
  | 0, _ => rfl
  | n + 1, v => by simp [beBytes, length_beBytes n]

theorem beNat_concat (b : Bytes) (x : UInt8) : beNat (b ++ [x]) = 256 * beNat b + x.toNat := by
  simp [beNat]

theorem beNat_beBytes : ∀ n v : Nat, beNat (beBytes n v) = v % 256 ^ n
  | 0, v => by simp [beBytes, beNat, Nat.mod_one]
  | n + 1, v => by
    rw [beBytes, beNat_concat, beNat_beBytes n, UInt8.toNat_ofNat', Nat.pow_succ' (n := n), Nat.mod_mul]
    omega

theorem beBytes_beNat (b : Bytes) : beBytes b.length (beNat b) = b := by
  induction b using List.reverseRecOn with
  | nil => rfl
  | append_singleton b x ih =>
    have hx := x.toNat_lt
    have hdiv : (256 * beNat b + x.toNat) / 256 = beNat b := by omega
    have hlast : UInt8.ofNat (256 * beNat b + x.toNat) = x := by
      apply UInt8.toNat_inj.1
      rw [UInt8.toNat_ofNat']
      omega
    rw [length_append, length_singleton, beBytes, beNat_concat, hdiv, hlast, ih]

theorem beNat_lt (b : Bytes) : beNat b < 256 ^ b.length := by
  have h := beNat_beBytes b.length (beNat b)
  rw [beBytes_beNat] at h
  rw [h]
  exact Nat.mod_lt _ (Nat.pos_of_ne_zero (by simp))

def xorBytes (a b : Bytes) : Bytes := List.zipWith (· ^^^ ·) a b

end BareRTC
