import BareRTC.Re.Odict
import BareRTC.Signal.Proof.Message

/-!
# Dictionaries through their JSON text

`decoded` is the scanner with what it leaves of the text. Strings, words and numbers are read as
they were printed (`IsText`), an entry is read up to the comma or bracket after it (`Delivers`), and
by induction on the value the text of a dictionary is read as the dictionary with the arrays
numbered by `idx` (`jsonDecodeOdict_encode`).
-/

namespace BareRTC.Re

open List

open Rounding

/-! ## Strings -/

theorem utf8DecodeLoop_escape {ch : UInt8} (hu : ch ≠ chr 'u') (uhi : Option UInt32) (t : Bytes) :
    utf8DecodeLoop uhi (chr '\\' :: ch :: t) = (utf8DecodeLoop none t).map (unescape ch :: ·) := by
  rw [utf8DecodeLoop.eq_def]
  simp [hu]

theorem utf8DecodeLoop_char {c : UInt8} (hc : c ≠ 0) (uhi : Option UInt32) (t : Bytes) :
    utf8DecodeLoop uhi (Signal.utf8EncodeChar c ++ t) = (utf8DecodeLoop none t).map (c :: ·) := by
  rcases Signal.utf8EncodeChar_cases c with ⟨n, hn, rfl⟩ | (rfl | rfl | rfl) | ⟨-, -, hb, heq⟩
  · -- a control character: two characters, or four hexadecimal digits
    interval_cases n
    · exact absurd rfl hc
    all_goals first | rfl | exact utf8DecodeLoop_escape (by decide) uhi t
  · exact utf8DecodeLoop_escape (by decide) uhi t
  · exact utf8DecodeLoop_escape (by decide) uhi t
  · exact utf8DecodeLoop_escape (by decide) uhi t
  · rw [heq, singleton_append, utf8DecodeLoop.eq_def]
    exact if_neg hb

theorem utf8Decode_encode {b : Bytes} (hb : (0 : UInt8) ∉ b) : utf8Decode (Signal.utf8Encode b) = .ok b := by
  unfold utf8Decode
  induction b with
  | nil => rfl
  | cons c b ih =>
    rw [mem_cons, not_or] at hb
    rw [Signal.utf8Encode, if_neg (Ne.symm hb.1), utf8DecodeLoop_char (Ne.symm hb.1), ih hb.2]
    rfl

theorem Str.of_bytes (s : Str) : Str.of s.bytes = s := by
  have : s.bytes.takeWhile (· ≠ 0) = s.bytes :=
    takeWhile_eq_self_iff.2 fun c hc => by simpa using ne_of_mem_of_not_mem hc s.nonul
  cases s
  simpa [Str.of] using this

theorem isString_quoted (s : Str) : isString (quoted s) = some (Signal.utf8Encode s.bytes) := by
  have hlen : ¬ (quoted s).length < 2 := by simp [quoted]
  have hhead : (quoted s).head? = some (chr '"') := rfl
  have hlast : (quoted s).getLast? = some (chr '"') := getLast?_concat
  rw [isString, if_neg hlen, if_neg (by simp [hhead, hlast])]
  simp [quoted]

theorem decodeName_quoted (s : Str) : decodeName (quoted s) = .ok s.bytes := by
  rw [decodeName, isString_quoted]
  exact utf8Decode_encode s.nonul

/-! ## Integers -/

theorem localItoa_eq (n : UInt64) : localItoa n = decimal n.toNat := by
  induction hn : n.toNat using Nat.strong_induction_on generalizing n with
  | _ k ih =>
    have hdv : (n / 10).toNat = n.toNat / 10 := UInt64.toNat_div n 10
    have hc : (n - n / 10 * 10).toUInt8 = UInt8.ofNat (n.toNat % 10) := by
      apply UInt8.toNat_inj.1
      rw [UInt64.toNat_toUInt8, UInt64.toNat_sub_of_le, UInt64.toNat_mul, hdv]
      · simp; omega
      · rw [UInt64.le_iff_toNat_le, UInt64.toNat_mul, hdv]
        simp; omega
    rw [localItoa]
    simp only [hc]
    split
    · rename_i h0
      have : n.toNat / 10 = 0 := by rw [← hdv, h0]; rfl
      rw [decimal_of_lt (by omega), Nat.mod_eq_of_lt (by omega), hn]
      rfl
    rename_i h0
    have : (n / 10).toNat ≠ 0 := fun h => h0 (UInt64.toNat_inj.1 h)
    rw [ih (n / 10).toNat (by omega) _ rfl, hdv, hn, decimal_of_le (n := k) (by omega)]
    rfl

theorem toInt_lt_zero_iff (n : Int64) : n < 0 ↔ n.toInt < 0 := Int64.lt_iff_toInt_lt

theorem toNat_magnitude (n : Int64) : (if n < 0 then -n else n).toUInt64.toNat = n.toInt.natAbs := by
  have hint : n.toInt = if 2 * n.toBitVec.toNat < 2 ^ 64 then (n.toBitVec.toNat : Int)
      else n.toBitVec.toNat - (2 ^ 64 : Nat) := BitVec.toInt_eq_toNat_cond _
  have hlt : n.toBitVec.toNat < 2 ^ 64 := n.toBitVec.isLt
  split
  · rename_i h
    rw [toInt_lt_zero_iff] at h
    have hneg : (-n).toUInt64.toNat = (2 ^ 64 - n.toBitVec.toNat) % 2 ^ 64 := BitVec.toNat_neg _
    rw [hneg]
    split at hint <;> omega
  rename_i h
  rw [toInt_lt_zero_iff] at h
  have hpos : n.toUInt64.toNat = n.toBitVec.toNat := rfl
  rw [hpos]
  split at hint <;> omega

theorem lld_eq (n : Int64) : lld n = decimalInt n.toInt := by
  simp only [lld, localItoa_eq, toNat_magnitude]
  simp only [toInt_lt_zero_iff]
  rfl

variable {n : Nat}

theorem length_decimal_le {k : Nat} (hk : 0 < k) (h : n < 10 ^ k) : (decimal n).length ≤ k := by
  induction k generalizing n with
  | zero => omega
  | succ k ih =>
    by_cases hn : n < 10
    · simp [decimal_of_lt hn]
    rw [Nat.not_lt] at hn
    have hk : 0 < k := by
      rcases Nat.eq_zero_or_pos k with rfl | hk
      · omega
      · exact hk
    have := ih hk (n := n / 10) (by rw [pow_succ] at h; omega)
    rw [decimal_of_le hn, length_append, length_singleton]
    omega

theorem digitsVal_cons (c : UInt8) (ds : Bytes) :
    digitsVal (c :: ds) = (c - 48).toNat * 10 ^ ds.length + digitsVal ds := by
  induction ds using List.reverseRecOn with
  | nil => simp [digitsVal]
  | append_singleton ds d ih =>
    rw [← cons_append, digitsVal_concat, ih, digitsVal_concat, length_append, length_singleton, pow_succ]
    ring

theorem digitsVal_lt {ds : Bytes} (hd : ∀ c ∈ ds, isDigitByte c) : digitsVal ds < 10 ^ ds.length := by
  induction ds with
  | nil => decide
  | cons c ds ih =>
    obtain ⟨n, hn, rfl⟩ := exists_digit (hd c mem_cons_self)
    have hrest := ih fun c hc => hd c (mem_cons_of_mem _ hc)
    have hdigit : n * 10 ^ ds.length ≤ 9 * 10 ^ ds.length := Nat.mul_le_mul_right _ (by omega)
    rw [digitsVal_cons, toNat_digit hn, length_cons, pow_succ]
    omega

section
variable {p : Nat}

theorem roundTo_natCast (h : n < 2 ^ p) (hp : 0 < p) : roundTo p (n : ℚ) = n := by
  have habs : |(n : ℤ)| < 2 ^ p := by
    rw [Nat.abs_cast]
    exact_mod_cast h
  simpa using roundTo_intCast habs hp

theorem Number.step_digit {c : UInt8} (hc : isDigitByte c) (v mul : ℚ) :
    Number.step p { v, mul } c =
      some { v := roundTo p (v + roundTo p (mul * (c - 48).toNat)), mul := roundTo p (mul * 10) } := by
  obtain ⟨n, hn, rfl⟩ := exists_digit hc
  interval_cases n <;> rfl

/-- Digits are read exactly, from the last one to the first, as long as the next power of ten is
exact. -/
theorem foldlM_digits {ds : Bytes} (hd : ∀ c ∈ ds, isDigitByte c) (hlen : 10 ^ ds.length < 2 ^ p) (hp : 0 < p) :
    ds.reverse.foldlM (Number.step p) {} = some { v := (digitsVal ds : ℚ), mul := ((10 ^ ds.length : ℕ) : ℚ) } := by
  induction ds with
  | nil => simp [digitsVal]
  | cons c ds ih =>
    have hval := digitsVal_lt hd
    rw [length_cons, pow_succ] at hlen
    rw [length_cons, pow_succ, digitsVal_cons] at hval
    have hdigit : roundTo p (((10 ^ ds.length : ℕ) : ℚ) * ((c - 48).toNat : ℚ)) =
        (((c - 48).toNat * 10 ^ ds.length : ℕ) : ℚ) := by
      rw [← Nat.cast_mul, Nat.mul_comm]
      exact roundTo_natCast (by omega) hp
    have hsum : roundTo p ((digitsVal ds : ℚ) + (((c - 48).toNat * 10 ^ ds.length : ℕ) : ℚ)) =
        (digitsVal (c :: ds) : ℚ) := by
      rw [← Nat.cast_add, Nat.add_comm, ← digitsVal_cons]
      exact roundTo_natCast (by rw [digitsVal_cons]; omega) hp
    have hmul : roundTo p (((10 ^ ds.length : ℕ) : ℚ) * 10) = ((10 ^ (c :: ds).length : ℕ) : ℚ) := by
      rw [length_cons, pow_succ]
      exact_mod_cast roundTo_natCast hlen hp
    rw [reverse_cons, foldlM_append, ih (fun d hd' => hd d (mem_cons_of_mem _ hd')) (by omega)]
    simp only [Option.bind_eq_bind, Option.bind_some, foldlM_cons, foldlM_nil,
      Number.step_digit (hd c mem_cons_self), hdigit, hsum, hmul]
    rfl

theorem isNumber_decimalInt (hp : 64 ≤ p) {n : ℤ} (hn : n.natAbs < 10 ^ 19) :
    isNumber p (decimalInt n) = some ((n : ℚ), false) := by
  have hdec := isDecimal_decimal n.natAbs
  have hlen : 10 ^ (decimal n.natAbs).length < 2 ^ p := calc
    10 ^ (decimal n.natAbs).length ≤ 10 ^ 19 := Nat.pow_le_pow_right (by decide) (length_decimal_le (by decide) hn)
    _ < 2 ^ 64 := by decide
    _ ≤ 2 ^ p := Nat.pow_le_pow_right (by decide) hp
  have hfold := foldlM_digits hdec.digits hlen (by omega)
  rw [hdec.val] at hfold
  unfold decimalInt
  split
  · have hval : (n.natAbs : ℚ) = -(n : ℚ) := by
      rw [← Int.cast_natCast, Int.ofNat_natAbs_of_nonpos (by omega), Int.cast_neg]
    rw [isNumber, if_neg (by simp), reverse_cons, foldlM_append, hfold]
    simp [Number.step, Number.value, hval, chr]
  have hval : (n.natAbs : ℚ) = (n : ℚ) := by
    rw [← Int.cast_natCast, Int.natAbs_of_nonneg (by omega)]
  obtain ⟨c, ds, hcons, -⟩ := hdec.head
  rw [isNumber, if_neg (by simp [hcons]), hfold]
  simp [Number.value, hval]

end

/-! ## The scanner -/

def decoded (p maxdepth : Nat) (bsize : UInt32) (depth : Nat) (s : Scan) (str : Bytes) : Except Errno (Bytes × Odict) :=
  (jsonDecodeLoop p maxdepth bsize depth s str).map (·.1)

variable {o oc : Odict} {k : Container} {w : Bytes} (idx : UInt32)

section
variable {p maxdepth depth : Nat} {bsize : UInt32} {s : Scan} {c : UInt8} {t : Bytes}

theorem decoded_step {s' : Scan} (h : scan p s (c :: t) c = .ok (.step s')) :
    decoded p maxdepth bsize depth s (c :: t) = decoded p maxdepth bsize depth s' t := by
  rw [decoded, jsonDecodeLoop]
  simp only [h, decoded]
  cases jsonDecodeLoop p maxdepth bsize depth s' t <;> rfl

theorem decoded_done (h : scan p s (c :: t) c = .ok (.done o)) :
    decoded p maxdepth bsize depth s (c :: t) = .ok (c :: t, o) := by
  rw [decoded, jsonDecodeLoop]
  simp only [h]
  rfl

theorem decoded_nest {key : Str} {bsize' : UInt32} {rest : Bytes}
    (h : scan p s (c :: t) c = .ok (.nest k)) (hdepth : depth < maxdepth)
    (hname : (s.inobj && s.name.isNone) = false) (hstart : containerStart bsize s.name s.idx = .ok (key, bsize'))
    (hinner : decoded p maxdepth bsize' (depth + 1) {} (c :: t) = .ok (rest, oc)) :
    decoded p maxdepth bsize depth s (c :: t) =
      decoded p maxdepth bsize depth { s with
        name := none, idx := if s.inarray then s.idx + 1 else s.idx
        arg := odictEntryAdd s.arg key (k.value oc) } (rest.drop 1) := by
  unfold decoded at hinner ⊢
  cases hloop : jsonDecodeLoop p maxdepth bsize' (depth + 1) {} (c :: t) with
  | error err => rw [hloop] at hinner; nomatch hinner
  | ok r =>
    obtain ⟨⟨rest', oc'⟩, hle⟩ := r
    rw [hloop] at hinner
    obtain ⟨rfl, rfl⟩ := Prod.mk.inj (Except.ok.inj hinner)
    rw [jsonDecodeLoop]
    simp only [h, Nat.not_le.2 hdepth, hname, hstart, hloop, dite_false, Bool.false_eq_true, if_false]
    cases jsonDecodeLoop p maxdepth bsize depth _ (List.drop 1 rest') <;> rfl

/-! ### Strings and words -/

section
variable (hs : s.inquot)
include hs

theorem decoded_scanQuoted :
    decoded p maxdepth bsize depth s (c :: t) = decoded p maxdepth bsize depth (scanQuoted s c) t :=
  decoded_step (by rw [scan, if_pos hs])

theorem decoded_quoted_plain (he : s.esc = false) (hq : c ≠ chr '"') (hb : c ≠ chr '\\') :
    decoded p maxdepth bsize depth s (c :: t) = decoded p maxdepth bsize depth s t := by
  have hstay : scanQuoted s c = s := by simp [scanQuoted, he, hq, hb]
  rw [decoded_scanQuoted hs, hstay]

theorem decoded_quoted_escape (he : s.esc = false) :
    decoded p maxdepth bsize depth s (chr '\\' :: c :: t) = decoded p maxdepth bsize depth s t := by
  have hesc : scanQuoted s (chr '\\') = { s with esc := true } := by
    rw [scanQuoted, he]
    rfl
  have hback : scanQuoted { s with esc := true } c = s := by
    cases s
    cases he
    rfl
  rw [decoded_scanQuoted hs, hesc]
  exact (decoded_scanQuoted (s := { s with esc := true }) hs).trans (by rw [hback])

theorem decoded_encodeChar (he : s.esc = false) :
    decoded p maxdepth bsize depth s (Signal.utf8EncodeChar c ++ t) = decoded p maxdepth bsize depth s t := by
  rcases Signal.utf8EncodeChar_cases c with ⟨n, hn, rfl⟩ | (rfl | rfl | rfl) | ⟨-, hq, hb, heq⟩
  · -- the four digits after `\u` are no quotes or backslashes
    have hu (a b : UInt8) (ha : a ≠ chr '"' ∧ a ≠ chr '\\') (hb : b ≠ chr '"' ∧ b ≠ chr '\\') :
        decoded p maxdepth bsize depth s (chr '\\' :: chr 'u' :: chr '0' :: chr '0' :: a :: b :: t) =
          decoded p maxdepth bsize depth s t := by
      rw [decoded_quoted_escape hs he, decoded_quoted_plain hs he (by decide) (by decide),
        decoded_quoted_plain hs he (by decide) (by decide), decoded_quoted_plain hs he ha.1 ha.2,
        decoded_quoted_plain hs he hb.1 hb.2]
    interval_cases n
    all_goals first
      | exact hu _ _ (by decide) (by decide)
      | exact decoded_quoted_escape hs he
  · exact decoded_quoted_escape hs he
  · exact decoded_quoted_escape hs he
  · exact decoded_quoted_escape hs he
  · rw [heq]
    exact decoded_quoted_plain hs he hq hb

theorem decoded_utf8Encode (he : s.esc = false) {b : Bytes} (hb : (0 : UInt8) ∉ b) :
    decoded p maxdepth bsize depth s (Signal.utf8Encode b ++ t) = decoded p maxdepth bsize depth s t := by
  induction b with
  | nil => rfl
  | cons c b ih =>
    rw [mem_cons, not_or] at hb
    rw [Signal.utf8Encode, if_neg (Ne.symm hb.1), append_assoc, decoded_encodeChar hs he, ih hb.2]

end

def special : Bytes := [chr ':', chr ',', chr '{', chr '[', chr '}', chr ']', chr ' ', chr '\t', chr '\r', chr '\n']

theorem scan_ordinary (hs : s.inquot = false) (hc : c ∉ special) (str : Bytes) :
    scan p s str c = .ok (.step
      (if s.val.isSome then s else { s with inquot := c = chr '"', val := some str, ws := 0 })) := by
  simp only [special, mem_cons, not_mem_nil, or_false, not_or] at hc
  simp only [scan, hs, hc, or_self, if_false, Bool.false_eq_true]
  split <;> rfl

theorem decoded_quoted (hs : s.inquot = false) (he : s.esc = false) (hv : s.val = none) (str : Str) :
    decoded p maxdepth bsize depth s (quoted str ++ t) =
      decoded p maxdepth bsize depth { s with val := some (quoted str ++ t), ws := 0 } t := by
  have hopen := scan_ordinary (p := p) hs (c := chr '"') (by decide) (quoted str ++ t)
  rw [hv, if_neg (by decide), decide_eq_true (by rfl)] at hopen
  have hclose : scanQuoted { s with inquot := true, val := some (quoted str ++ t), ws := 0 } (chr '"') =
      { s with val := some (quoted str ++ t), ws := 0 } := by
    cases s
    cases hs
    cases he
    rfl
  rw [← hclose]
  generalize hs' : { s with inquot := true, val := some (quoted str ++ t), ws := 0 } = s' at hopen ⊢
  have hin : s'.inquot := hs' ▸ rfl
  have hesc : s'.esc = false := hs' ▸ he
  have hsplit : quoted str ++ t = chr '"' :: (Signal.utf8Encode str.bytes ++ chr '"' :: t) := by simp [quoted]
  rw [hsplit] at hopen ⊢
  rw [decoded_step hopen, decoded_utf8Encode hin hesc str.nonul, decoded_scanQuoted hin]

theorem decoded_of_val (hs : s.inquot = false) (hv : s.val.isSome) (hw : ∀ c ∈ w, c ∉ special) :
    decoded p maxdepth bsize depth s (w ++ t) = decoded p maxdepth bsize depth s t := by
  induction w with
  | nil => rfl
  | cons c w ih =>
    have hscan := scan_ordinary (p := p) hs (hw c mem_cons_self) (c :: (w ++ t))
    rw [if_pos hv] at hscan
    rw [cons_append, decoded_step hscan]
    exact ih fun d hd => hw d (mem_cons_of_mem _ hd)

theorem decoded_word (hs : s.inquot = false) (hv : s.val = none) (hw : w ≠ [])
    (hword : ∀ c ∈ w, c ∉ special ∧ c ≠ chr '"') :
    decoded p maxdepth bsize depth s (w ++ t) =
      decoded p maxdepth bsize depth { s with val := some (w ++ t), ws := 0 } t := by
  obtain ⟨c, w, rfl⟩ := exists_cons_of_ne_nil hw
  obtain ⟨hc, hq⟩ := hword c mem_cons_self
  have hfirst : scan p s (c :: (w ++ t)) c = .ok (.step { s with val := some (c :: (w ++ t)), ws := 0 }) := by
    rw [scan_ordinary hs hc, hv, if_neg (by decide), decide_eq_false hq]
    cases s
    cases hs
    rfl
  have hrest : ∀ d ∈ w, d ∉ special := fun d hd => (hword d (mem_cons_of_mem _ hd)).1
  rw [cons_append, decoded_step hfirst]
  exact decoded_of_val (s := { s with val := some (c :: (w ++ t)), ws := 0 }) hs rfl hrest

end

/-! ## What the text of a dictionary is read as -/

mutual

def Value.depth : Value → Nat
  | .object o => depthAll o + 1
  | .array o => depthAll o + 1
  | _ => 0

def depthAll : Odict → Nat
  | [] => 0
  | (_, v) :: o => max v.depth (depthAll o)

end

mutual

def Value.Proper : Value → Prop
  | .object o => ProperAll o
  | .array o => o.map (·.1.bytes) = (List.range o.length).map decimal ∧ ProperAll o
  | .dbl _ => False
  | _ => True

def ProperAll : Odict → Prop
  | [] => True
  | (_, v) :: o => v.Proper ∧ ProperAll o

end

mutual

def Value.Fits : Value → Prop
  | .object o => FitsAll o
  | .array o => o.length ≤ 2 ^ 32 ∧ FitsAll o
  | _ => True

def FitsAll : Odict → Prop
  | [] => True
  | (_, v) :: o => v.Fits ∧ FitsAll o

end

mutual

def Value.renumber : Value → Value
  | .object o => .object (renumberMembers o)
  | .array o => .array (renumberElems 0 o)
  | v => v

def renumberMembers : Odict → Odict
  | [] => []
  | (key, v) :: o => (key, v.renumber) :: renumberMembers o

def renumberElems (idx : UInt32) : Odict → Odict
  | [] => []
  | (_, v) :: o => (index idx, v.renumber) :: renumberElems (idx + 1) o

end

section
variable {p maxdepth depth : Nat} {bsize : UInt32} {s : Scan} {t : Bytes} {v : Value} {inner : Container}

/-! ### One entry -/

def frame (k : Container) (idx : UInt32) (o : Odict) : Scan :=
  { inobj := k = .object, inarray := k = .array, idx, arg := o }

def Container.close : Container → UInt8
  | .object => chr '}'
  | .array => chr ']'

def Container.name : Container → Str → Option Bytes
  | .object, key => some (quoted key)
  | .array, _ => none

def Container.key : Container → UInt32 → Str → Str
  | .object, _, key => key
  | .array, idx, _ => index idx

def Container.next : Container → UInt32 → UInt32
  | .object, idx => idx
  | .array, idx => idx + 1

theorem chkval_append (w t : Bytes) : chkval (some (w ++ t)) t 0 = some w := by
  rw [chkval, if_neg (by simp), length_append, Nat.add_zero, Nat.add_sub_cancel, take_left]

structure Delivers (p maxdepth : Nat) (bsize : UInt32) (depth : Nat) (k : Container) (s : Scan) (w : Bytes)
    (idx : UInt32) (o : Odict) : Prop where
  more (t : Bytes) : decoded p maxdepth bsize depth s (w ++ chr ',' :: t) =
    decoded p maxdepth bsize depth (frame k idx o) t
  last (t : Bytes) : decoded p maxdepth bsize depth s (w ++ k.close :: t) = .ok (k.close :: t, o)

theorem delivers_nil (k : Container) (idx : UInt32) (o : Odict) :
    Delivers p maxdepth bsize depth k (frame k idx o) [] idx o where
  more t := decoded_step (by rfl)
  last t := by cases k <;> exact decoded_done (by rfl)

structure IsText (p : Nat) (w : Bytes) (v : Value) : Prop where
  scan {maxdepth depth : Nat} {bsize : UInt32} {s : Scan} {t : Bytes} (hs : s.inquot = false) (he : s.esc = false)
    (hv : s.val = none) : decoded p maxdepth bsize depth s (w ++ t) =
      decoded p maxdepth bsize depth { s with val := some (w ++ t), ws := 0 } t
  add (o : Odict) (name : Str) : (decodeValue p w).map (entryAdd o name) = .ok (o ++ [(name, v)])

theorem objectEntry_quoted (h : IsText p w v) (key : Str) (o : Odict) :
    objectEntry p (quoted key) w o = .ok (o ++ [(key, v)]) := by
  rw [← h.add o key, objectEntry, decodeName_quoted]
  cases decodeValue p w with
  | error err => rfl
  | ok val => simp [Except.map, bind, Except.bind, pure, Except.pure, Str.of_bytes]

theorem arrayEntry_eq (h : IsText p w v) (idx : UInt32) (o : Odict) :
    arrayEntry p idx w o = .ok (o ++ [(index idx, v)]) := by
  rw [← h.add o (index idx), arrayEntry]
  cases decodeValue p w <;> rfl

theorem delivers_text (h : IsText p w v) (k : Container) (idx : UInt32) (o : Odict) (key : Str) :
    Delivers p maxdepth bsize depth k { frame k idx o with name := k.name key } w (k.next idx)
      (o ++ [(k.key idx key, v)]) := by
  refine ⟨fun t => ?_, fun t => ?_⟩
  · rw [h.scan rfl rfl rfl]
    apply decoded_step
    cases k
    · simp +decide [scan, frame, chkval_append, Container.name, objectEntry_quoted h, Container.next, Container.key,
        bind, Except.bind, pure, Except.pure]
    · simp +decide [scan, frame, chkval_append, arrayEntry_eq h, Container.next, Container.key,
        bind, Except.bind, pure, Except.pure]
  rw [h.scan rfl rfl rfl]
  apply decoded_done
  cases k
  · simp +decide [scan, frame, chkval_append, Container.name, objectEntry_quoted h, Container.close, Container.key,
      Except.map]
  · simp +decide [scan, frame, chkval_append, arrayEntry_eq h, Container.close, Container.key, Except.map]

/-! ### Values without parts -/

theorem isText_str (str : Str) : IsText p (quoted str) (.str str) where
  scan hs he hv := decoded_quoted hs he hv str
  add o name := by
    rw [decodeValue, isString_quoted]
    simp [utf8Decode_encode str.nonul, Except.map, entryAdd, odictEntryAdd, Str.of_bytes]

theorem isString_eq_none (h : chr '"' ∉ w) : isString w = none := by
  rw [isString]
  split
  · rfl
  · have hhead : w.head? ≠ some (chr '"') := fun hw => h (mem_of_mem_head? hw)
    rw [if_pos (.inl hhead)]

theorem isText_word (hw : w ≠ []) (hword : ∀ c ∈ w, c ∉ special ∧ c ≠ chr '"')
    (hadd : ∀ o name, (decodeValue p w).map (entryAdd o name) = .ok (o ++ [(name, v)])) : IsText p w v :=
  ⟨fun hs _ hv => decoded_word hs hv hw hword, hadd⟩

theorem isText_boolean (b : Bool) : IsText p (encodeEntry (.boolean b)) (.boolean b) := by
  cases b <;> exact isText_word (by decide) (by decide +kernel) fun o name => rfl

theorem isText_null : IsText p (encodeEntry .null) .null :=
  isText_word (by decide) (by decide +kernel) fun o name => rfl

theorem isText_integer (hp : 64 ≤ p) (n : Int64) : IsText p (encodeEntry (.integer n)) (.integer n) := by
  have hdec := isDecimal_decimal n.toInt.natAbs
  have hdigit : ∀ c, isDigitByte c → c ∉ special ∧ c ≠ chr '"' := forall_uint8 (by decide +kernel)
  have hword : ∀ c ∈ decimalInt n.toInt, c ∉ special ∧ c ≠ chr '"' := by
    unfold decimalInt
    split
    · rintro c (_ | ⟨_, hc⟩)
      · decide
      · exact hdigit c (hdec.digits c hc)
    · exact fun c hc => hdigit c (hdec.digits c hc)
  have hne : decimalInt n.toInt ≠ [] := by
    obtain ⟨c, ds, hcons, -⟩ := hdec.head
    unfold decimalInt
    split <;> simp [hcons]
  have habs : n.toInt.natAbs < 10 ^ 19 := by
    have hlow := n.le_toInt
    have hhigh := n.toInt_lt
    omega
  have hstr : isString (decimalInt n.toInt) = none := isString_eq_none fun h => (hword _ h).2 rfl
  have htext : encodeEntry (.integer n) = decimalInt n.toInt := lld_eq n
  rw [htext]
  refine isText_word hne hword fun o name => ?_
  simp [decodeValue, hstr, isNumber_decimalInt hp habs, Except.map, entryAdd, odictEntryAdd]

/-! ### Containers -/

theorem hashValidSize_go (size : UInt32) (x : Nat) (hx : x ≤ 31) :
    ∃ y ≤ 31, hashValidSize.go size x = 1 <<< UInt32.ofNat y := by
  fun_induction hashValidSize.go size x with
  | case1 x h ih => exact ih h.1
  | case2 x h => exact ⟨x, hx, rfl⟩

theorem odictAlloc_ok (hb : bsize ≠ 0) : ∃ bsize' ≠ 0, odictAlloc bsize = .ok bsize' := by
  obtain ⟨y, hy, hsize⟩ := hashValidSize_go bsize 0 (by decide)
  have hpow : ∀ y : Fin 32, ¬ ((1 : UInt32) <<< UInt32.ofNat y = 0 ∨
      (1 : UInt32) <<< UInt32.ofNat y &&& ((1 : UInt32) <<< UInt32.ofNat y - 1) ≠ 0) := by decide
  have hy := hpow ⟨y, by omega⟩
  have heq : hashValidSize bsize = 1 <<< UInt32.ofNat y := hsize
  refine ⟨1 <<< UInt32.ofNat y, fun h => hy (.inl h), ?_⟩
  rw [odictAlloc, if_neg hb]
  simp only [heq]
  exact if_neg hy

def Container.open : Container → UInt8
  | .object => chr '{'
  | .array => chr '['

theorem containerStart_eq (hb : bsize ≠ 0) (k : Container) (idx : UInt32) (key : Str) :
    ∃ bsize' ≠ 0, containerStart bsize (k.name key) idx = .ok (k.key idx key, bsize') := by
  obtain ⟨bsize', hne, halloc⟩ := odictAlloc_ok hb
  refine ⟨bsize', hne, ?_⟩
  cases k
  · simp [containerStart, Container.name, Container.key, decodeName_quoted, halloc, Except.map, Str.of_bytes,
      bind, Except.bind, pure, Except.pure]
  · simp [containerStart, Container.name, Container.key, halloc, bind, Except.bind, pure, Except.pure]

theorem delivers_container (hb : bsize ≠ 0) (hdepth : depth < maxdepth)
    (hinner : ∀ bsize ≠ 0, ∀ t, decoded p maxdepth bsize (depth + 1) (frame inner 0 []) (w ++ inner.close :: t) =
      .ok (inner.close :: t, oc))
    (idx : UInt32) (o : Odict) (key : Str) :
    Delivers p maxdepth bsize depth k { frame k idx o with name := k.name key } ([inner.open] ++ w ++ [inner.close])
      (k.next idx) (o ++ [(k.key idx key, inner.value oc)]) := by
  obtain ⟨bsize', hne, hstart⟩ := containerStart_eq hb k idx key
  have hread (t : Bytes) : decoded p maxdepth bsize depth { frame k idx o with name := k.name key }
      ([inner.open] ++ w ++ [inner.close] ++ t) =
      decoded p maxdepth bsize depth (frame k (k.next idx) (o ++ [(k.key idx key, inner.value oc)])) t := by
    rw [append_assoc, append_assoc]
    have hnest : scan p { frame k idx o with name := k.name key } (inner.open :: (w ++ inner.close :: t)) inner.open =
        .ok (.nest inner) := by
      cases k <;> cases inner <;> rfl
    have hfirst : scan p {} (inner.open :: (w ++ inner.close :: t)) inner.open = .ok (.step (frame inner 0 [])) := by
      cases inner <;> rfl
    refine (decoded_nest hnest hdepth (by cases k <;> rfl) hstart
      ((decoded_step hfirst).trans (hinner bsize' hne t))).trans ?_
    cases k <;> rfl
  exact ⟨fun t => (hread _).trans ((delivers_nil ..).more t), fun t => (hread _).trans ((delivers_nil ..).last t)⟩

theorem decoded_key (o : Odict) (key : Str) (t : Bytes) :
    decoded p maxdepth bsize depth (frame .object idx o) (quoted key ++ chr ':' :: t) =
      decoded p maxdepth bsize depth { frame .object idx o with name := Container.object.name key } t := by
  rw [decoded_quoted rfl rfl rfl]
  apply decoded_step
  simp +decide [scan, frame, chkval_append, Container.name]

theorem Delivers.entries {text : Bytes} {idx : UInt32} {o' next : Odict}
    (h : Delivers p maxdepth bsize depth k s w idx o)
    (hrest : decoded p maxdepth bsize depth (frame k idx o) (text ++ k.close :: t) = .ok (k.close :: t, o ++ o'))
    (hnil : next = [] → text = [] ∧ o' = []) :
    decoded p maxdepth bsize depth s (w ++ (comma next ++ (text ++ k.close :: t))) = .ok (k.close :: t, o ++ o') := by
  cases next with
  | nil =>
    obtain ⟨rfl, rfl⟩ := hnil rfl
    rw [append_nil]
    exact h.last t
  | cons e next => exact (h.more _).trans hrest

mutual

theorem delivers_value (hp : 64 ≤ p) (v : Value) (hv : v.Proper) {bsize : UInt32} (hb : bsize ≠ 0) {depth : Nat}
    (hdepth : depth + v.depth ≤ maxdepth) (k : Container) (idx : UInt32) (o : Odict) (key : Str) :
    Delivers p maxdepth bsize depth k { frame k idx o with name := k.name key } (encodeEntry v) (k.next idx)
      (o ++ [(k.key idx key, v.renumber)]) := by
  match v with
  | .object odict =>
    rw [Value.depth] at hdepth
    rw [Value.Proper] at hv
    rw [Value.renumber, encodeEntry]
    exact delivers_container hb (by omega) (fun bsize hb t =>
      decoded_members hp odict hv hb (by omega) 0 [] t) idx o key
  | .array odict =>
    rw [Value.depth] at hdepth
    rw [Value.Proper] at hv
    rw [Value.renumber, encodeEntry]
    exact delivers_container hb (by omega) (fun bsize hb t =>
      decoded_elems hp odict hv.2 hb (by omega) 0 [] t) idx o key
  | .str str => exact delivers_text (isText_str str) k idx o key
  | .integer n => exact delivers_text (isText_integer hp n) k idx o key
  | .boolean b => exact delivers_text (isText_boolean b) k idx o key
  | .null => exact delivers_text isText_null k idx o key

theorem decoded_members (hp : 64 ≤ p) (odict : Odict) (hv : ProperAll odict) {bsize : UInt32} (hb : bsize ≠ 0)
    {depth : Nat} (hdepth : depth + depthAll odict ≤ maxdepth) (idx : UInt32) (o : Odict) (t : Bytes) :
    decoded p maxdepth bsize depth (frame .object idx o) (encodeMembers odict ++ chr '}' :: t) =
      .ok (chr '}' :: t, o ++ renumberMembers odict) := by
  match odict with
  | [] => exact ((delivers_nil ..).last t).trans (by rw [renumberMembers, append_nil]; rfl)
  | (key, v) :: next =>
    rw [ProperAll] at hv
    rw [depthAll] at hdepth
    rw [encodeMembers]
    simp only [append_assoc, cons_append]
    rw [decoded_key, renumberMembers, append_cons o]
    refine (delivers_value hp v hv.1 hb (by omega) .object idx o key).entries
      (decoded_members hp next hv.2 hb (by omega) idx _ t) ?_
    rintro rfl
    exact ⟨rfl, rfl⟩

theorem decoded_elems (hp : 64 ≤ p) (odict : Odict) (hv : ProperAll odict) {bsize : UInt32} (hb : bsize ≠ 0)
    {depth : Nat} (hdepth : depth + depthAll odict ≤ maxdepth) (idx : UInt32) (o : Odict) (t : Bytes) :
    decoded p maxdepth bsize depth (frame .array idx o) (encodeElems odict ++ chr ']' :: t) =
      .ok (chr ']' :: t, o ++ renumberElems idx odict) := by
  match odict with
  | [] => exact ((delivers_nil ..).last t).trans (by rw [renumberElems, append_nil]; rfl)
  | (key, v) :: next =>
    rw [ProperAll] at hv
    rw [depthAll] at hdepth
    rw [encodeElems]
    simp only [append_assoc]
    rw [renumberElems, append_cons o]
    refine (delivers_value hp v hv.1 hb (by omega) .array idx o key).entries
      (decoded_elems hp next hv.2 hb (by omega) (idx + 1) _ t) ?_
    rintro rfl
    exact ⟨rfl, rfl⟩

end

theorem jsonDecodeOdict_encode (hp : 64 ≤ p) {hashSize : UInt32} (hsize : hashSize ≠ 0) {d : Odict} (hd : ProperAll d)
    (hdepth : depthAll d ≤ maxdepth) :
    jsonDecodeOdict p hashSize (jsonEncodeOdict d) maxdepth = .ok (renumberMembers d) := by
  obtain ⟨bsize, hne, halloc⟩ := odictAlloc_ok hsize
  have hopen : scan p {} (jsonEncodeOdict d) (chr '{') = .ok (.step (frame .object 0 [])) := rfl
  have hread : decoded p maxdepth bsize 0 {} (jsonEncodeOdict d) = .ok ([chr '}'], renumberMembers d) :=
    (decoded_step hopen).trans (decoded_members hp d hd hne (by omega) 0 [] [])
  rw [jsonDecodeOdict, halloc]
  unfold decoded at hread
  cases hloop : jsonDecodeLoop p maxdepth bsize 0 {} (jsonEncodeOdict d) with
  | error err => rw [hloop] at hread; nomatch hread
  | ok r =>
    rw [hloop] at hread
    have ho : r.1.2 = renumberMembers d := congrArg Prod.snd (Except.ok.inj hread)
    simp [hloop, Except.map, ho]

end

/-! ## Which dictionaries are read as they are -/

theorem decimal_inj {m : Nat} (h : decimal n = decimal m) : n = m := by
  rw [← (isDecimal_decimal n).val, h, (isDecimal_decimal m).val]

theorem Str.of_decimal (n : Nat) : (Str.of (decimal n)).bytes = decimal n := by
  have hnz : ∀ c, isDigitByte c → c ≠ 0 := forall_uint8 (by decide +kernel)
  exact takeWhile_eq_self_iff.2 fun c hc => by simpa using hnz c ((isDecimal_decimal n).digits c hc)

theorem index_bytes : (index idx).bytes = decimal idx.toNat := by
  rw [index, localItoa_eq]
  exact Str.of_decimal idx.toNat

theorem index_eq_iff {key : Str} {i : Nat} (hkey : key.bytes = decimal i) :
    index (UInt32.ofNat i) = key ↔ i < 2 ^ 32 := by
  have hidx : (index (UInt32.ofNat i)).bytes = decimal (i % 2 ^ 32) := index_bytes _
  constructor
  · intro h
    rw [h, hkey] at hidx
    have := decimal_inj hidx
    omega
  intro h
  rw [Nat.mod_eq_of_lt h, ← hkey] at hidx
  cases key
  cases hi : index (UInt32.ofNat i)
  rw [hi] at hidx
  cases hidx
  rfl

mutual

theorem Value.renumber_eq_iff (v : Value) (hv : v.Proper) : v.renumber = v ↔ v.Fits := by
  match v with
  | .object o =>
    rw [Value.renumber, Value.object.injEq, Value.Fits]
    exact renumberMembers_eq_iff o hv
  | .array o =>
    rw [Value.Proper, range_eq_range'] at hv
    rw [Value.renumber, Value.array.injEq, Value.Fits]
    refine (renumberElems_eq_iff o 0 hv.2 hv.1).trans (and_congr_left fun _ => ⟨fun h => ?_, fun h j hj => ?_⟩)
    · by_contra hlong
      have := h (2 ^ 32) (by omega)
      omega
    · omega
  | .str _ | .integer _ | .boolean _ | .null => simp [Value.renumber, Value.Fits]

theorem renumberMembers_eq_iff (o : Odict) (ho : ProperAll o) : renumberMembers o = o ↔ FitsAll o := by
  match o with
  | [] => simp [renumberMembers, FitsAll]
  | (key, v) :: o =>
    rw [ProperAll] at ho
    simp [renumberMembers, FitsAll, v.renumber_eq_iff ho.1, renumberMembers_eq_iff o ho.2]

theorem renumberElems_eq_iff (o : Odict) (i : Nat) (ho : ProperAll o)
    (hkeys : o.map (·.1.bytes) = (List.range' i o.length).map decimal) :
    renumberElems (UInt32.ofNat i) o = o ↔ (∀ j < o.length, i + j < 2 ^ 32) ∧ FitsAll o := by
  match o with
  | [] => simp [renumberElems, FitsAll]
  | (key, v) :: o =>
    rw [ProperAll] at ho
    rw [length_cons, range'_succ, map_cons, map_cons] at hkeys
    obtain ⟨hkey, hkeys⟩ := List.cons.inj hkeys
    have hidx : UInt32.ofNat i + 1 = UInt32.ofNat (i + 1) := (UInt32.ofNat_add i 1).symm
    rw [renumberElems, hidx, List.cons.injEq, Prod.mk.injEq, index_eq_iff hkey, v.renumber_eq_iff ho.1,
      renumberElems_eq_iff o (i + 1) ho.2 hkeys, FitsAll]
    constructor
    · rintro ⟨⟨hi, hv⟩, hj, hrest⟩
      refine ⟨fun j hlt => ?_, hv, hrest⟩
      cases j with
      | zero => exact hi
      | succ j =>
        have := hj j (by simpa using hlt)
        omega
    · rintro ⟨hj, hv, hrest⟩
      refine ⟨⟨hj 0 (by simp), hv⟩, fun j hlt => ?_, hrest⟩
      have := hj (j + 1) (by simpa using hlt)
      omega

end

/-- With a `long double` of at least 64 digits, a dictionary of strings, integers, booleans, nulls,
objects and arrays is read back from its text as it was exactly if there is a size for the hash
table and `idx` does not wrap in an array. -/
theorem odict_roundTrips_iff {p : Nat} (hp : 64 ≤ p) (hashSize : UInt32) (maxdepth : Nat) (d : Odict)
    (hd : ProperAll d) (hdepth : depthAll d ≤ maxdepth) :
    jsonDecodeOdict p hashSize (jsonEncodeOdict d) maxdepth = .ok d ↔ hashSize ≠ 0 ∧ FitsAll d := by
  by_cases hsize : hashSize = 0
  · have herr : jsonDecodeOdict p hashSize (jsonEncodeOdict d) maxdepth = .error .EINVAL := by
      rw [jsonDecodeOdict, odictAlloc, if_pos hsize]
    rw [herr]
    simp [hsize]
  · rw [jsonDecodeOdict_encode hp hsize hd hdepth, Except.ok.injEq, renumberMembers_eq_iff d hd]
    simp [hsize]

def sample : Odict :=
  [(Str.of (ascii "a\"b"), .array [(Str.of (ascii "0"), .integer (-7)), (Str.of (ascii "1"), .object [])]),
    (Str.of [], .str (Str.of [9, 0x7f, 0xc3]))]

theorem odict_roundTrips_sample : jsonDecodeOdict 64 32 (jsonEncodeOdict sample) 2 = .ok sample :=
  (odict_roundTrips_iff (by decide) 32 2 sample (by simp [sample, ProperAll, Value.Proper]; decide +kernel)
    (by decide)).2 ⟨by decide, by simp [sample, FitsAll, Value.Fits]⟩

-- with the 53 digits that some platforms have an integer is not read as it is
example : isNumber 53 (ascii "9007199254740993") = some (9007199254740992, false) := by decide +kernel

def nulls (n : Nat) : Odict := (List.range n).map fun i => (Str.of (decimal i), .null)

theorem properAll_of_forall (h : ∀ e ∈ o, e.2 = .null) : ProperAll o ∧ depthAll o = 0 := by
  induction o with
  | nil => exact ⟨trivial, rfl⟩
  | cons e o ih =>
    obtain ⟨key, v⟩ := e
    obtain rfl : v = .null := h _ mem_cons_self
    obtain ⟨hproper, hdepth⟩ := ih fun e he => h e (mem_cons_of_mem _ he)
    rw [ProperAll, depthAll, hdepth]
    exact ⟨⟨trivial, hproper⟩, rfl⟩

def wideDict (n : Nat) : Odict := [(Str.of (ascii "a"), .array (nulls n))]

theorem wideDict_proper (n : Nat) : ProperAll (wideDict n) ∧ depthAll (wideDict n) ≤ 1 := by
  have hnull : ∀ e ∈ nulls n, e.2 = .null := by simp [nulls]
  obtain ⟨hproper, hdepth⟩ := properAll_of_forall hnull
  have hkeys : (nulls n).map (·.1.bytes) = (List.range (nulls n).length).map decimal := by
    simp [nulls, Str.of_decimal]
  refine ⟨⟨⟨hkeys, hproper⟩, trivial⟩, ?_⟩
  simp [wideDict, depthAll, Value.depth, hdepth]

theorem wideDict_misread (hn : 2 ^ 32 < n) :
    jsonDecodeOdict 64 32 (jsonEncodeOdict (wideDict n)) 1 ≠ .ok (wideDict n) := by
  obtain ⟨hproper, hdepth⟩ := wideDict_proper n
  intro h
  rw [jsonDecodeOdict_encode (by decide) (by decide) hproper hdepth, Except.ok.injEq,
    renumberMembers_eq_iff _ hproper] at h
  have hlen : (nulls n).length ≤ 2 ^ 32 := h.1.1
  rw [nulls, length_map, length_range] at hlen
  omega

/-- The entry after `2 ^ 32` others of an array is read with the key of the first one. -/
theorem odict_index_wraps : ProperAll (wideDict (2 ^ 32 + 1)) ∧ depthAll (wideDict (2 ^ 32 + 1)) ≤ 1 ∧
    jsonDecodeOdict 64 32 (jsonEncodeOdict (wideDict (2 ^ 32 + 1))) 1 ≠ .ok (wideDict (2 ^ 32 + 1)) :=
  ⟨(wideDict_proper _).1, (wideDict_proper _).2, wideDict_misread (Nat.lt_succ_self _)⟩

end BareRTC.Re
