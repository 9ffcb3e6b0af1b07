import BareRTC.Lib.Bytes

/-!
# Decimal numbers in texts

`decimal n` is the text of a natural number without leading zeros, `digitsVal` the value of a
sequence of digits.
-/

namespace BareRTC

open List

def isDigitByte (c : UInt8) : Bool := 48 ≤ c && c ≤ 57

def digitsVal (ds : Bytes) : Nat := ds.foldl (fun n c => 10 * n + (c - 48).toNat) 0

def decimal (n : Nat) : Bytes := (Nat.toDigits 10 n).map fun c => UInt8.ofNat c.toNat

def decimalInt (n : Int) : Bytes := if n < 0 then 45 :: decimal n.natAbs else decimal n.natAbs

theorem digitsVal_concat (ds : Bytes) (c : UInt8) : digitsVal (ds ++ [c]) = 10 * digitsVal ds + (c - 48).toNat := by
  simp [digitsVal]

variable {n : Nat}

theorem decimal_of_lt (h : n < 10) : decimal n = [48 + UInt8.ofNat n] := by
  rw [decimal, Nat.toDigits_of_lt_base h]
  interval_cases n <;> rfl

theorem decimal_of_le (h : 10 ≤ n) : decimal n = decimal (n / 10) ++ [48 + UInt8.ofNat (n % 10)] := by
  have hlt : n % 10 < 10 := Nat.mod_lt _ (by decide)
  rw [decimal, Nat.toDigits_of_base_le (by decide) h, map_append, ← decimal_of_lt hlt, decimal,
    decimal, Nat.toDigits_of_lt_base hlt]

theorem isDigitByte_add (h : n < 10) : isDigitByte (48 + UInt8.ofNat n) := by
  interval_cases n <;> rfl

theorem exists_digit {c : UInt8} (h : isDigitByte c) : ∃ n < 10, c = 48 + UInt8.ofNat n := by
  simp only [isDigitByte, Bool.and_eq_true, decide_eq_true_eq, UInt8.le_iff_toNat_le] at h
  have hlow : 48 ≤ c.toNat := h.1
  have hhigh : c.toNat ≤ 57 := h.2
  refine ⟨c.toNat - 48, by omega, ?_⟩
  apply UInt8.toNat_inj.1
  rw [UInt8.toNat_add, UInt8.toNat_ofNat']
  show c.toNat = (48 + _ % 256) % 256
  omega

theorem toNat_digit (h : n < 10) : (48 + UInt8.ofNat n - 48).toNat = n := by
  interval_cases n <;> rfl

structure IsDecimal (b : Bytes) (n : Nat) : Prop where
  digits : ∀ c ∈ b, isDigitByte c
  val : digitsVal b = n
  head : ∃ c ds, b = c :: ds ∧ (c = 48 → n = 0 ∧ ds = [])

theorem isDecimal_decimal (n : Nat) : IsDecimal (decimal n) n := by
  induction n using Nat.strong_induction_on with
  | _ n ih =>
    by_cases h : n < 10
    · rw [decimal_of_lt h]
      refine ⟨fun c hc => ?_, ?_, _, [], rfl, fun hc => ⟨?_, rfl⟩⟩
      · rw [mem_singleton.1 hc]
        exact isDigitByte_add h
      · simpa [digitsVal] using toNat_digit h
      · revert hc
        interval_cases n <;> decide
    rw [Nat.not_lt] at h
    have hd : n % 10 < 10 := Nat.mod_lt _ (by decide)
    obtain ⟨hdigits, hval, c, ds, hc, hzero⟩ := ih (n / 10) (by omega)
    rw [decimal_of_le h]
    refine ⟨fun c hc => ?_, ?_, c, ds ++ [48 + UInt8.ofNat (n % 10)], ?_, fun h0 => ?_⟩
    · rcases mem_append.1 hc with hc | hc
      · exact hdigits c hc
      · rw [mem_singleton.1 hc]
        exact isDigitByte_add hd
    · rw [digitsVal_concat, hval, toNat_digit hd]
      exact Nat.div_add_mod n 10
    · rw [hc]
      rfl
    · have := (hzero h0).1
      omega

end BareRTC
