import BareRTC.Re.Base64
import Mathlib.Tactic.IntervalCases

/-!
# Base64 round trips

What is encoded is decoded again (`decode_encode`), and the blocks of `base64_print` are whole
groups, so that the printed text is the encoded one (`base64Print_eq`). The size check of the
decoder counts three bytes for a group with padding as well: a buffer of the size of the data is
enough only if there is no padding (`base64_roundTrips_iff`).
-/

namespace BareRTC

open List

/-! ## Digits -/

variable (v : UInt32)

theorem b64val_digit : b64val (base64Encode.digit v) = v &&& 0x3f := by
  have hall : ∀ n < 64, b64val (b64Table.getD n 0) = UInt32.ofNat n := by decide +kernel
  have hlt : (v &&& 0x3f).toNat < 64 := by
    rw [UInt32.toNat_and]
    exact Nat.and_lt_two_pow _ (by decide : (0x3f : UInt32).toNat < 2 ^ 6)
  rw [base64Encode.digit, hall _ hlt, UInt32.ofNat_toNat]

theorem b64val_pad : b64val (chr '=') = (1 : UInt32) <<< 24 := by decide

theorem eq_of_bits {x y : UInt8} (h : ∀ i < 8, x.toBitVec.getLsbD i = y.toBitVec.getLsbD i) : x = y :=
  UInt8.toBitVec_inj.1 (BitVec.eq_of_getLsbD_eq h)

theorem and_bit_eq_zero (x : UInt32) {m : UInt32} (i : Nat) (hm : m.toBitVec = BitVec.twoPow 32 i) (hi : i < 32) :
    x &&& m = 0 ↔ x.toBitVec.getLsbD i = false := by
  rw [← UInt32.toBitVec_inj, UInt32.toBitVec_and, hm, BitVec.and_twoPow]
  cases hx : x.toBitVec.getLsbD i with
  | false => simp
  | true =>
    simp only [if_true, UInt32.toBitVec_zero, Bool.true_eq_false, iff_false]
    intro h
    have hbit := congrArg (fun y => BitVec.getLsbD y i) h
    simp [hi] at hbit

/-! ## Groups -/

def joined (v : UInt32) (pad : Nat) : UInt32 :=
  (v >>> 18 &&& 0x3f) <<< 18 ||| (v >>> 12 &&& 0x3f) <<< 12 |||
    (if pad ≥ 2 then (1 : UInt32) <<< 24 else v >>> 6 &&& 0x3f) <<< 6 |||
    (if pad ≥ 1 then (1 : UInt32) <<< 24 else v &&& 0x3f)

theorem decode_quad (pad : Nat) (rest : Bytes) :
    base64Decode.go (base64Encode.quad v pad ++ rest) =
      (joined v pad >>> 16).toUInt8 ::
        (if joined v pad &&& (1 : UInt32) <<< 30 = 0 then [(joined v pad >>> 8).toUInt8] else []) ++
        (if joined v pad &&& (1 : UInt32) <<< 24 = 0 then [(joined v pad).toUInt8] else []) ++ base64Decode.go rest := by
  have hthird : b64val (if pad ≥ 2 then chr '=' else base64Encode.digit (v >>> 6)) =
      if pad ≥ 2 then (1 : UInt32) <<< 24 else v >>> 6 &&& 0x3f := by
    split
    · exact b64val_pad
    · exact b64val_digit _
  have hfourth : b64val (if pad ≥ 1 then chr '=' else base64Encode.digit v) =
      if pad ≥ 1 then (1 : UInt32) <<< 24 else v &&& 0x3f := by
    split
    · exact b64val_pad
    · exact b64val_digit _
  simp only [base64Encode.quad, cons_append, nil_append, base64Decode.go, hthird, hfourth, b64val_digit]
  rfl

variable (a b c : UInt8) {pad : Nat}

theorem joined_first (hpad : pad ≤ 2) :
    (joined (a.toUInt32 <<< 16 ||| b.toUInt32 <<< 8 ||| c.toUInt32) pad >>> 16).toUInt8 = a := by
  refine eq_of_bits fun i hi => ?_
  interval_cases pad <;> interval_cases i <;> simp [joined]

theorem joined_second (hpad : pad ≤ 1) :
    (joined (a.toUInt32 <<< 16 ||| b.toUInt32 <<< 8 ||| c.toUInt32) pad >>> 8).toUInt8 = b := by
  refine eq_of_bits fun i hi => ?_
  interval_cases pad <;> interval_cases i <;> simp [joined]

theorem joined_third : (joined (a.toUInt32 <<< 16 ||| b.toUInt32 <<< 8 ||| c.toUInt32) 0).toUInt8 = c := by
  refine eq_of_bits fun i hi => ?_
  interval_cases i <;> simp [joined]

theorem joined_bit30 (hpad : pad ≤ 2) : joined v pad &&& (1 : UInt32) <<< 30 = 0 ↔ pad ≤ 1 := by
  rw [and_bit_eq_zero _ 30 (by decide) (by decide)]
  interval_cases pad <;> simp [joined]

theorem joined_bit24 (hpad : pad ≤ 2) : joined v pad &&& (1 : UInt32) <<< 24 = 0 ↔ pad = 0 := by
  rw [and_bit_eq_zero _ 24 (by decide) (by decide)]
  interval_cases pad <;> simp [joined]

theorem decode_group (rest : Bytes) (hpad : pad ≤ 2) :
    base64Decode.go (base64Encode.quad (a.toUInt32 <<< 16 ||| b.toUInt32 <<< 8 ||| c.toUInt32) pad ++ rest) =
      [a, b, c].take (3 - pad) ++ base64Decode.go rest := by
  rw [decode_quad, joined_first a b c hpad]
  simp only [joined_bit30 _ hpad, joined_bit24 _ hpad]
  interval_cases pad
  · simp [joined_second a b c, joined_third a b c]
  · simp [joined_second a b c]
  · simp

theorem decode_encode (b : Bytes) : base64Decode.go (base64Encode.go b) = b := by
  fun_induction base64Encode.go b with
  | case1 => rfl
  | case2 a => simpa [base64Decode.go] using decode_group a 0 0 [] (le_refl 2)
  | case3 a b => simpa [base64Decode.go] using decode_group a b 0 [] (Nat.le_succ 1)
  | case4 a b c rest ih => rw [decode_group a b c _ (Nat.zero_le 2), ih]; rfl

/-! ## Texts -/

theorem length_encode {b : Bytes} : (base64Encode.go b).length = 4 * ((b.length + 2) / 3) := by
  fun_induction base64Encode.go b with
  | case1 => rfl
  | case2 | case3 => simp [base64Encode.quad]
  | case4 a b c rest ih =>
    rw [length_append, ih]
    simp only [base64Encode.quad, length_cons, length_nil]
    omega

theorem encode_append (b c : Bytes) (h : b.length % 3 = 0) :
    base64Encode.go (b ++ c) = base64Encode.go b ++ base64Encode.go c := by
  fun_induction base64Encode.go b with
  | case1 => rfl
  | case2 | case3 => cases h
  | case4 x y z rest ih =>
    have hrest : rest.length % 3 = 0 := by
      simp only [length_cons] at h
      omega
    simp only [cons_append, base64Encode.go, ih hrest, append_assoc]

def collect (text out : Bytes) : Option Errno × Bytes := (none, out ++ text)

/-- **The printed text is the encoded one**: a block before the last has 64 whole groups. -/
theorem base64Print_eq (b out : Bytes) : base64Print collect b out = (none, out ++ base64Encode.go b) := by
  induction hn : b.length using Nat.strong_induction_on generalizing b out with
  | _ n ih =>
    rw [base64Print]
    split
    · rename_i hnil
      rw [hnil]
      simp [base64Encode.go]
    rename_i hne
    have hpos := length_pos_iff.2 hne
    have hblock : base64Encode (b.take 192) 256 = .ok (base64Encode.go (b.take 192)) := by
      rw [base64Encode, if_neg]
      rw [length_take]
      omega
    rw [hblock]
    show base64Print collect (b.drop 192) (out ++ base64Encode.go (b.take 192)) = _
    rw [ih _ (by rw [length_drop]; omega) _ _ rfl, append_assoc]
    rcases Nat.lt_or_ge b.length 192 with hlast | hmore
    · rw [drop_eq_nil_of_le hlast.le, take_of_length_le hlast.le]
      simp [base64Encode.go]
    · rw [← encode_append _ _ (by rw [length_take, min_eq_left hmore]), take_append_drop]

/-! ## Round trips -/

def Base64RoundTrips (b : Bytes) : Prop :=
  ∀ olen, 4 * ((b.length + 2) / 3) ≤ olen → ∃ text, base64Encode b olen = .ok text ∧
    text.length = 4 * ((b.length + 2) / 3) ∧ base64Print collect b [] = (none, text) ∧
    base64Decode text b.length = .ok b

theorem base64Encode_eq {b : Bytes} {olen : Nat} (h : 4 * ((b.length + 2) / 3) ≤ olen) :
    base64Encode b olen = .ok (base64Encode.go b) := by rw [base64Encode, if_neg (by omega)]

theorem base64Decode_encode (b : Bytes) (olen : Nat) :
    base64Decode (base64Encode.go b) olen = if olen < 3 * ((b.length + 2) / 3) then .error .EOVERFLOW else .ok b := by
  rw [base64Decode, length_encode, decode_encode, Nat.mul_div_cancel_left _ (by decide : 0 < 4)]

/-- **Data is encoded and decoded again**, with a buffer of its size for the result, exactly if the
size is a multiple of three: `base64_decode` wants room for the padding too. -/
theorem base64_roundTrips_iff (b : Bytes) : Base64RoundTrips b ↔ b.length % 3 = 0 := by
  constructor
  · intro h
    obtain ⟨text, henc, -, -, hdec⟩ := h _ (le_refl _)
    rw [base64Encode_eq (le_refl _)] at henc
    rw [← Except.ok.inj henc, base64Decode_encode] at hdec
    split at hdec
    · cases hdec
    · omega
  · intro h olen holen
    refine ⟨base64Encode.go b, base64Encode_eq holen, length_encode, base64Print_eq b [], ?_⟩
    rw [base64Decode_encode, if_neg (by omega)]

/-- The text of one byte is not decoded into a buffer of one byte. -/
theorem base64_one_byte_overflow : base64Encode [0x61] 4 = .ok (ascii "YQ==") ∧
    base64Decode (ascii "YQ==") 1 = .error .EOVERFLOW ∧ ¬ Base64RoundTrips [0x61] := by
  have henc : base64Encode [0x61] 4 = .ok (ascii "YQ==") := by decide
  have hdec : base64Decode (ascii "YQ==") 1 = .error .EOVERFLOW := by decide
  refine ⟨henc, hdec, fun h => ?_⟩
  obtain ⟨text, henc', -, -, hdec'⟩ := h 4 (le_refl 4)
  rw [henc] at henc'
  rw [← Except.ok.inj henc'] at hdec'
  cases hdec.symm.trans hdec'

end BareRTC
