import BareRTC.Lib.Decimal
import Mathlib.Data.Rat.Defs

/-!
# JSON texts

A text is read byte by byte into tokens (`run`, `lex`). `Denotes t v`: the text is UTF-8 and its
tokens are those of the value; a text denotes at most one value, `denotes_unique`.
-/

namespace BareRTC.Json

open List

/-! ## UTF-8 -/

inductive Utf8
  | start | tail1 | tail2 | tail3 | afterE0 | afterED | afterF0 | afterF4
  deriving DecidableEq

def within (low high c : UInt8) (next : Utf8) : Option Utf8 := if low ≤ c ∧ c ≤ high then some next else none

def Utf8.step : Utf8 → UInt8 → Option Utf8
  | .start, c =>
    if c < 0x80 then some .start
    else if 0xC2 ≤ c ∧ c ≤ 0xDF then some .tail1
    else if c = 0xE0 then some .afterE0
    else if c = 0xED then some .afterED
    else if 0xE1 ≤ c ∧ c ≤ 0xEF then some .tail2
    else if c = 0xF0 then some .afterF0
    else if 0xF1 ≤ c ∧ c ≤ 0xF3 then some .tail3
    else if c = 0xF4 then some .afterF4
    else none
  | .tail1, c => within 0x80 0xBF c .start
  | .tail2, c => within 0x80 0xBF c .tail1
  | .tail3, c => within 0x80 0xBF c .tail2
  | .afterE0, c => within 0xA0 0xBF c .tail1
  | .afterED, c => within 0x80 0x9F c .tail1
  | .afterF0, c => within 0x90 0xBF c .tail2
  | .afterF4, c => within 0x80 0x8F c .tail2

def Utf8.run : Utf8 → Bytes → Option Utf8
  | q, [] => some q
  | q, c :: b => (q.step c).bind (·.run b)

def isUtf8 (b : Bytes) : Bool := Utf8.start.run b == some .start

def utf8Bytes (n : Nat) : Bytes :=
  if n < 0x80 then [UInt8.ofNat n]
  else if n < 0x800 then [UInt8.ofNat (0xC0 + n / 0x40), UInt8.ofNat (0x80 + n % 0x40)]
  else if n < 0x10000 then
    [UInt8.ofNat (0xE0 + n / 0x1000), UInt8.ofNat (0x80 + n / 0x40 % 0x40), UInt8.ofNat (0x80 + n % 0x40)]
  else
    [UInt8.ofNat (0xF0 + n / 0x40000), UInt8.ofNat (0x80 + n / 0x1000 % 0x40),
      UInt8.ofNat (0x80 + n / 0x40 % 0x40), UInt8.ofNat (0x80 + n % 0x40)]

/-! ## Tokens -/

inductive Atom
  | null
  | bool (b : Bool)
  | num (q : ℚ)
  | str (s : Bytes)
  deriving DecidableEq

inductive Token
  | lbrace | rbrace | lbrack | rbrack | comma | colon
  | atom (a : Atom)
  deriving DecidableEq

abbrev Token.num (q : ℚ) : Token := .atom (.num q)

abbrev Token.str (s : Bytes) : Token := .atom (.str s)

inductive Mode
  | normal
  | str (acc : Bytes)
  | esc (acc : Bytes)
  | hex (acc : Bytes) (hi : Option Nat) (ds : Bytes)
  | pair (acc : Bytes) (hi : Nat)
  | pairEsc (acc : Bytes) (hi : Nat)
  | num (acc : Bytes)
  | word (acc : Bytes)
  deriving DecidableEq

structure Lex where
  toks : List Token
  mode : Mode
  deriving DecidableEq

def isWs (c : UInt8) : Bool := c == 32 || c == 9 || c == 10 || c == 13

def isLetter (c : UInt8) : Bool := 97 ≤ c && c ≤ 122

def isNum (c : UInt8) : Bool := isDigitByte c || c == 45 || c == 43 || c == 46 || c == 101 || c == 69

def punct (c : UInt8) : Option Token :=
  if c = 123 then some .lbrace
  else if c = 125 then some .rbrace
  else if c = 91 then some .lbrack
  else if c = 93 then some .rbrack
  else if c = 44 then some .comma
  else if c = 58 then some .colon
  else none

def hexDigit (c : UInt8) : Option Nat :=
  if isDigitByte c then some (c - 48).toNat
  else if 65 ≤ c ∧ c ≤ 70 then some (c - 55).toNat
  else if 97 ≤ c ∧ c ≤ 102 then some (c - 87).toNat
  else none

def hexVal (ds : Bytes) : Nat := ds.foldl (fun n c => 16 * n + (hexDigit c).getD 0) 0

def escape (c : UInt8) : Option UInt8 :=
  if c = 34 ∨ c = 92 ∨ c = 47 then some c
  else if c = 98 then some 8
  else if c = 102 then some 12
  else if c = 110 then some 10
  else if c = 114 then some 13
  else if c = 116 then some 9
  else none

/-! ### Numbers -/

def fraction : Bytes → Option (Nat × Nat × Bytes)
  | 46 :: b =>
    let ds := b.takeWhile isDigitByte
    if ds = [] then none else some (digitsVal ds, ds.length, b.dropWhile isDigitByte)
  | b => some (0, 0, b)

def exponentDigits (b : Bytes) : Option Nat :=
  if b ≠ [] ∧ b.all isDigitByte then some (digitsVal b) else none

def exponent : Bytes → Option Int
  | [] => some 0
  | c :: b =>
    if c ≠ 101 ∧ c ≠ 69 then none
    else match b with
      | 45 :: b => (exponentDigits b).map fun e => -(e : Int)
      | 43 :: b => (exponentDigits b).map fun e => (e : Int)
      | b => (exponentDigits b).map fun e => (e : Int)

def signed (neg : Bool) (n : Nat) : Int := if neg then -(n : Int) else n

def magnitude (neg : Bool) (b : Bytes) : Option ℚ :=
  let ds := b.takeWhile isDigitByte
  if ds = [] ∨ ds.head? = some 48 ∧ ds.length ≠ 1 then none
  else match b.dropWhile isDigitByte with
    | [] => some (signed neg (digitsVal ds) : ℚ)
    | rest =>
      (fraction rest).bind fun (fr, k, rest) => (exponent rest).map fun e =>
        (signed neg (digitsVal ds * 10 ^ k + fr) : ℚ) * 10 ^ (e - (k : Int))

def numValue : Bytes → Option ℚ
  | 45 :: b => magnitude true b
  | b => magnitude false b

def wordValue (b : Bytes) : Option Atom :=
  if b = [116, 114, 117, 101] then some (.bool true)
  else if b = [102, 97, 108, 115, 101] then some (.bool false)
  else if b = [110, 117, 108, 108] then some .null
  else none

/-! ### One byte -/

def flush (st : Lex) : Option Lex :=
  match st.mode with
  | .normal => some st
  | .num acc => (numValue acc).map fun q => ⟨st.toks ++ [.num q], .normal⟩
  | .word acc => (wordValue acc).map fun a => ⟨st.toks ++ [.atom a], .normal⟩
  | _ => none

def normalStep (toks : List Token) (c : UInt8) : Option Lex :=
  if isWs c then some ⟨toks, .normal⟩
  else match punct c with
    | some t => some ⟨toks ++ [t], .normal⟩
    | none =>
      if c = 34 then some ⟨toks, .str []⟩
      else if isDigitByte c || c == 45 then some ⟨toks, .num [c]⟩
      else if isLetter c then some ⟨toks, .word [c]⟩
      else none

def codeUnit (acc : Bytes) (hi : Option Nat) (u : Nat) : Option Mode :=
  match hi with
  | none =>
    if 0xD800 ≤ u ∧ u < 0xDC00 then some (.pair acc u)
    else if 0xDC00 ≤ u ∧ u < 0xE000 then none
    else some (.str (acc ++ utf8Bytes u))
  | some h =>
    if 0xDC00 ≤ u ∧ u < 0xE000 then
      some (.str (acc ++ utf8Bytes (0x10000 + (h - 0xD800) * 0x400 + (u - 0xDC00))))
    else none

def Mode.strStep : Mode → UInt8 → Option Mode
  | .str acc, c =>
    if c = 92 then some (.esc acc) else if c < 32 then none else some (.str (acc ++ [c]))
  | .esc acc, c =>
    if c = 117 then some (.hex acc none [])
    else (escape c).map fun e => .str (acc ++ [e])
  | .hex acc hi ds, c =>
    if (hexDigit c).isNone then none
    else if ds.length < 3 then some (.hex acc hi (ds ++ [c]))
    else codeUnit acc hi (hexVal (ds ++ [c]))
  | .pair acc hi, c => if c = 92 then some (.pairEsc acc hi) else none
  | .pairEsc acc hi, c => if c = 117 then some (.hex acc (some hi) []) else none
  | _, _ => none

def step (st : Lex) (c : UInt8) : Option Lex :=
  match st.mode with
  | .normal => normalStep st.toks c
  | .num acc =>
    if isNum c then some ⟨st.toks, .num (acc ++ [c])⟩ else (flush st).bind fun st => normalStep st.toks c
  | .word acc =>
    if isLetter c then some ⟨st.toks, .word (acc ++ [c])⟩ else (flush st).bind fun st => normalStep st.toks c
  | .str acc => if c = 34 then some ⟨st.toks ++ [.str acc], .normal⟩ else (st.mode.strStep c).map (⟨st.toks, ·⟩)
  | m => (m.strStep c).map (⟨st.toks, ·⟩)

def run : Lex → Bytes → Option Lex
  | st, [] => some st
  | st, c :: b => (step st c).bind (run · b)

def finish (st : Lex) : Option (List Token) := (flush st).map (·.toks)

def lex (b : Bytes) : Option (List Token) := (run ⟨[], .normal⟩ b).bind finish

/-! ## Values -/

mutual

inductive Value
  | atom (a : Atom)
  | arr (vs : Elems)
  | obj (ms : Members)

inductive Elems
  | nil
  | cons (v : Value) (vs : Elems)

inductive Members
  | nil
  | cons (k : Bytes) (v : Value) (ms : Members)

end

def Value.object (ms : List (Bytes × Value)) : Value := .obj (ms.foldr (fun m => .cons m.1 m.2) .nil)

mutual

def Value.tokens : Value → List Token
  | .atom a => [.atom a]
  | .arr .nil => [.lbrack, .rbrack]
  | .arr (.cons v vs) => .lbrack :: (v.tokens ++ vs.tokens)
  | .obj .nil => [.lbrace, .rbrace]
  | .obj (.cons k v ms) => .lbrace :: .str k :: .colon :: (v.tokens ++ ms.tokens)

def Elems.tokens : Elems → List Token
  | .nil => [.rbrack]
  | .cons v vs => .comma :: (v.tokens ++ vs.tokens)

def Members.tokens : Members → List Token
  | .nil => [.rbrace]
  | .cons k v ms => .comma :: .str k :: .colon :: (v.tokens ++ ms.tokens)

end

def Denotes (t : Bytes) (v : Value) : Prop := isUtf8 t ∧ lex t = some v.tokens

def Reads (t : Bytes) (v : Value) : Prop := ∀ v', Denotes t v' ↔ v' = v

/-! ### A text has one value -/

theorem Value.tokens_ne_rbrack {v : Value} {r r' : List Token} : v.tokens ++ r ≠ .rbrack :: r' := by
  cases v with
  | atom a => simp [Value.tokens]
  | arr vs => cases vs <;> simp [Value.tokens]
  | obj ms => cases ms <;> simp [Value.tokens]

theorem Value.arr_tokens {vs vs' : Elems} {r r' : List Token} (h : (arr vs).tokens ++ r = (arr vs').tokens ++ r') :
    vs.tokens ++ r = vs'.tokens ++ r' := by
  cases vs <;> cases vs' <;>
    simp only [Value.tokens, Elems.tokens, cons_append, List.cons.injEq, true_and, append_assoc] at h ⊢
  · exact h
  · exact absurd h.symm (tokens_ne_rbrack)
  · exact absurd h (tokens_ne_rbrack)
  · exact h

theorem Value.obj_tokens {ms ms' : Members} {r r' : List Token} (h : (obj ms).tokens ++ r = (obj ms').tokens ++ r') :
    ms.tokens ++ r = ms'.tokens ++ r' := by
  cases ms <;> cases ms' <;> simp [Value.tokens, Members.tokens] at h ⊢ <;> exact h

mutual

theorem Value.tokens_inj {r r' : List Token} :
    ∀ v v' : Value, v.tokens ++ r = v'.tokens ++ r' → v = v' ∧ r = r'
  | .atom a, .atom a', h => by simpa [Value.tokens] using h
  | .arr vs, .arr vs', h => (Elems.tokens_inj vs vs' (Value.arr_tokens h)).imp_left (congrArg Value.arr)
  | .obj ms, .obj ms', h => (Members.tokens_inj ms ms' (Value.obj_tokens h)).imp_left (congrArg Value.obj)
  | .atom a, .arr vs, h | .arr vs, .atom a, h => by cases vs <;> simp [Value.tokens] at h
  | .atom a, .obj ms, h | .obj ms, .atom a, h => by cases ms <;> simp [Value.tokens] at h
  | .arr vs, .obj ms, h | .obj ms, .arr vs, h => by cases vs <;> cases ms <;> simp [Value.tokens] at h

theorem Elems.tokens_inj {r r' : List Token} : ∀ vs vs' : Elems, vs.tokens ++ r = vs'.tokens ++ r' → vs = vs' ∧ r = r'
  | .nil, .nil, h => ⟨rfl, by simpa [Elems.tokens] using h⟩
  | .nil, .cons _ _, h | .cons _ _, .nil, h => by simp [Elems.tokens] at h
  | .cons v vs, .cons v' vs', h => by
    simp only [Elems.tokens, cons_append, List.cons.injEq, true_and, append_assoc] at h
    obtain ⟨rfl, hv⟩ := Value.tokens_inj v v' h
    obtain ⟨rfl, hr⟩ := Elems.tokens_inj vs vs' hv
    exact ⟨rfl, hr⟩

theorem Members.tokens_inj {r r' : List Token} :
    ∀ ms ms' : Members, ms.tokens ++ r = ms'.tokens ++ r' → ms = ms' ∧ r = r'
  | .nil, .nil, h => ⟨rfl, by simpa [Members.tokens] using h⟩
  | .nil, .cons _ _ _, h | .cons _ _ _, .nil, h => by simp [Members.tokens] at h
  | .cons k v ms, .cons k' v' ms', h => by
    simp only [Members.tokens, cons_append, List.cons.injEq, true_and, append_assoc,
      Token.atom.injEq, Atom.str.injEq] at h
    obtain ⟨rfl, hk⟩ := h
    obtain ⟨rfl, hv⟩ := Value.tokens_inj v v' hk
    obtain ⟨rfl, hr⟩ := Members.tokens_inj ms ms' hv
    exact ⟨rfl, hr⟩

end

theorem denotes_unique {t : Bytes} {v v' : Value} (h : Denotes t v) (h' : Denotes t v') : v = v' := by
  have htok : v.tokens = v'.tokens := Option.some.inj (h.2.symm.trans h'.2)
  exact (Value.tokens_inj v v' (congrArg (· ++ []) htok)).1

theorem reads_iff {t : Bytes} {v : Value} : Reads t v ↔ Denotes t v :=
  ⟨fun h => (h v).2 rfl, fun h _ => ⟨fun h' => denotes_unique h' h, fun hv => hv ▸ h⟩⟩

end BareRTC.Json
