import BareRTC.Re.Mbuf

/-!
# Strings and `re_regex` (`re/src/fmt`: `regex.c`, `pl.c`, `str.c`)

C strings and pointer-length objects are the bytes they stand for. `re_regex` walks through the
expression once for each start in the text: literal characters match themselves up to case, a class
`[..]` with a count takes as many characters as it can, and a failure moves the start on. It never
goes back in the text for a shorter match.
-/

namespace BareRTC

def ascii (s : String) : Bytes := s.toList.map fun c => UInt8.ofNat c.toNat

def chr (c : Char) : UInt8 := UInt8.ofNat c.toNat

/-- In the C locale. -/
def tolower (c : UInt8) : UInt8 := if chr 'A' ≤ c ∧ c ≤ chr 'Z' then c + 32 else c

/-- `0 == str_casecmp(a, b)` -/
def strCaseEq (a b : Bytes) : Bool := a.map tolower == b.map tolower

/-- The digits from the last to the first; any other character gives `0`. -/
def plU32 (pl : Bytes) : UInt32 := go pl.reverse 0 1
where
  go : Bytes → UInt32 → UInt32 → UInt32
    | [], v, _ => v
    | c :: cs, v, mul =>
      if c - chr '0' > 9 then 0 else go cs (v + mul * (c - chr '0').toUInt32) (mul * 10)

/-! ## `re_regex` -/

namespace Regex

/-- `ARRAY_SIZE(chrv)` -/
def maxChr : Nat := 64

structure St where
  /-- Inside a class .. -/
  fm : Bool
  /-- .. and past its closing bracket. -/
  ec : Bool
  range : Bool
  neg : Bool
  qesc : Bool
  eesc : Bool
  /-- The first `n` entries of `chrv`, .. -/
  chrv : List (UInt8 × UInt8)
  /-- .. and the lower end of the next one, if `range`. -/
  lo : UInt8
  /-- The text from `p` on. -/
  rest : Bytes
  /-- The matches stored so far. -/
  pls : List Bytes

def exprMatch (chrv : List (UInt8 × UInt8)) (c : UInt8) (neg : Bool) : Bool :=
  chrv.any (fun r => r.1 ≤ c && c ≤ r.2) != neg

/-- The count after a class: at least, at most. -/
def count (e : UInt8) : Option (Nat × Nat) :=
  if e = chr '*' then some (0, 2 ^ 32 - 1)
  else if e = chr '+' then some (1, 2 ^ 32 - 1)
  else if chr '1' ≤ e ∧ e ≤ chr '9' then some ((e - chr '0').toNat, (e - chr '0').toNat)
  else none

/-- The loop that takes the characters of a class, at most `nmax`; the result is what it took and
what is left. -/
def take (r : St) (nmax : Nat) (quote esc : Bool) : Bytes → Bytes × Bytes
  | [] => ([], [])
  | c :: t =>
    let next (quote esc : Bool) :=
      let (m, t) := take r (nmax - 1) quote esc t
      (c :: m, t)
    if nmax = 0 then ([], c :: t)
    else if r.qesc ∧ esc then next quote false
    else if r.qesc ∧ c = 92 then next quote true
    else if r.qesc ∧ c = 34 then next (!quote) false
    else if r.qesc ∧ quote then next quote false
    else if exprMatch r.chrv (tolower c) r.neg then next quote esc
    else ([], c :: t)

def strip (r : St) (m : Bytes) : Bytes :=
  if r.qesc ∧ m.length > 1 ∧ m.head? = some 34 ∧ m.getLast? = some 34 then m.tail.dropLast else m

/-- A character of a class; `none` where `chrv` is full. -/
def addChr (r : St) (e : UInt8) : Option St :=
  if r.chrv.length ≥ maxChr then none
  else if r.range then
    some { r with range := false, eesc := false, chrv := r.chrv ++ [(r.lo, tolower e)] }
  else some { r with eesc := false, chrv := r.chrv ++ [(tolower e, tolower e)] }

/-- One pass over the expression; `none` is `goto again`. -/
def scan : Bytes → St → Option (Except Errno (List Bytes))
  | [], r => some (if r.fm then .error .EINVAL else .ok r.pls)
  | e :: ep, r =>
    if e = 92 ∧ r.eesc = false then scan ep { r with eesc := true }
    else if r.fm = false then
      -- Start of character class
      if e = chr '[' ∧ r.eesc = false then
        scan ep { r with fm := true, ec := false, range := false, neg := false, qesc := false, chrv := [] }
      else match r.rest with
        | [] => some (.error .ENOENT)
        | c :: rest =>
          if tolower e ≠ tolower c then none else scan ep { r with eesc := false, rest }
    else if r.ec then
      match count e with
      | none => some (.error .EINVAL)
      | some (nmin, nmax) =>
        let (m, rest) := take r nmax false false r.rest
        let pl := strip r m
        if pl.length < nmin ∨ pl.length > nmax then none
        else scan ep { r with fm := false, eesc := false, rest, pls := r.pls ++ [pl] }
    else
      let add := match addChr r e with
        | none => some (.error .EINVAL)
        | some r => scan ep r
      if r.eesc then add
      else if e = chr ']' then scan ep { r with ec := true }
      else if e = chr '~' ∧ r.chrv = [] then scan ep { r with qesc := true, neg := true }
      else if e = chr '^' ∧ r.chrv = [] then scan ep { r with neg := true }
      else if e = chr '-' ∧ r.range = false then
        match r.chrv.getLast? with
        | some (lo, _) => scan ep { r with range := true, lo, chrv := r.chrv.dropLast }
        | none => add
      else add

end Regex

/-- The match of each class of the expression. -/
def reRegex (expr : Bytes) : Bytes → Except Errno (List Bytes)
  | [] => if expr = [] then .ok [] else .error .ENOENT
  | c :: t =>
    match Regex.scan expr ⟨false, false, false, false, false, false, [], 0, c :: t, []⟩ with
    | some r => r
    | none => reRegex expr t

example : reRegex (ascii "[0-9]+") (ascii "foo 42 bar") = .ok [ascii "42"] := by decide +kernel

end BareRTC
