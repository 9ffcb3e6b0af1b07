import BareRTC.Lib.Rounding
import BareRTC.Signal.Message

/-!
# Ordered dictionaries and their JSON text (`re/src/odict`, `re/src/json`, `re/src/fmt/unicode.c`)

A dictionary is its list of entries; `ht`, which finds an entry by its key, is left out up to its
size. Memory is always available and the print handler takes every byte. Numbers of type `double`
and `long double` are rationals that each operation rounds: to `53` binary digits, and to `p` digits
for the `LDBL_MANT_DIG` of the platform. Their exponents have no bounds here.
-/

namespace BareRTC.Re

open List

open Rounding (roundTo truncate)

/-- A string, without the NUL that ends it. -/
structure Str where
  bytes : Bytes
  nonul : (0 : UInt8) ∉ bytes
  deriving DecidableEq

/-- The string at a pointer to these bytes and a NUL. -/
def Str.of (b : Bytes) : Str where
  bytes := b.takeWhile (· ≠ 0)
  nonul h := by simpa using mem_takeWhile_imp h

/-- The union of an `odict_entry`, with its type. -/
inductive Value
  | object (odict : List (Str × Value))
  | array (odict : List (Str × Value))
  | str (str : Str)
  | integer (integer : Int64)
  | dbl (dbl : ℚ)
  | boolean (boolean : Bool)
  | null

abbrev Odict := List (Str × Value)

/-! ## Numbers in texts (`re/src/fmt/print.c`) -/

def localItoa (n : UInt64) : Bytes :=
  let dv := n / 10
  let c := (n - dv * 10).toUInt8
  if dv = 0 then [chr '0' + c] else localItoa dv ++ [chr '0' + c]
termination_by n.toNat
decreasing_by
  rename_i h
  have hdv : dv.toNat = n.toNat / 10 := UInt64.toNat_div n 10
  have hne : dv.toNat ≠ 0 := fun h0 => h (UInt64.toNat_inj.1 h0)
  show dv.toNat < n.toNat
  omega

/-- The conversion `%lld`. The negation wraps for the least number, whose conversion to `uint64_t`
is then its absolute value. -/
def lld (sn : Int64) : Bytes :=
  let text := localItoa (if sn < 0 then -sn else sn).toUInt64
  if sn < 0 then chr '-' :: text else text

/-- The loop of `local_ftoa` over the digits after the point. -/
def ftoaDigits : Nat → ℚ → Bytes
  | 0, _ => []
  | dp + 1, b =>
    let b := roundTo 53 (b * 10)
    let v := truncate b
    (chr '0' + UInt8.ofInt v) :: ftoaDigits dp (roundTo 53 (b - v))

def localFtoa (n : ℚ) (dp : Nat) : Bytes :=
  let a := Int64.ofInt (truncate n)
  let b := roundTo 53 (n - roundTo 53 a.toInt)
  let b := if b < 0 then -b else b
  localItoa (if a < 0 then -a else a).toUInt64 ++ [chr '.'] ++ ftoaDigits dp b

def fixed (dbl : ℚ) : Bytes :=
  if dbl < 0 then chr '-' :: localFtoa dbl 6 else localFtoa dbl 6

/-- The conversion `%u`, into a buffer of its own. -/
def index (idx : UInt32) : Str := Str.of (localItoa idx.toUInt64)

/-! ## `encode.c` -/

def quoted (s : Str) : Bytes := [chr '"'] ++ Signal.utf8Encode s.bytes ++ [chr '"']

def comma (next : Odict) : Bytes := if next.isEmpty then [] else [chr ',']

mutual

def encodeEntry : Value → Bytes
  | .object odict => [chr '{'] ++ encodeMembers odict ++ [chr '}']
  | .array odict => [chr '['] ++ encodeElems odict ++ [chr ']']
  | .integer n => lld n
  | .dbl d => fixed d
  | .str s => quoted s
  | .boolean b => if b then ascii "true" else ascii "false"
  | .null => ascii "null"

def encodeMembers : Odict → Bytes
  | [] => []
  | (key, e) :: next => quoted key ++ [chr ':'] ++ encodeEntry e ++ comma next ++ encodeMembers next

def encodeElems : Odict → Bytes
  | [] => []
  | (_, ae) :: next => encodeEntry ae ++ comma next ++ encodeElems next

end

def jsonEncodeOdict (o : Odict) : Bytes := encodeEntry (.object o)

/-! ## `unicode.c` -/

def isxdigit (c : UInt8) : Bool :=
  chr '0' ≤ c && c ≤ chr '9' || chr 'A' ≤ c && c ≤ chr 'F' || chr 'a' ≤ c && c ≤ chr 'f'

def chHex (ch : UInt8) : UInt8 :=
  if chr '0' ≤ ch ∧ ch ≤ chr '9' then ch - chr '0'
  else if chr 'A' ≤ ch ∧ ch ≤ chr 'F' then ch - chr 'A' + 10
  else if chr 'a' ≤ ch ∧ ch ≤ chr 'f' then ch - chr 'a' + 10
  else 0

def utf8Byteseq (cp : UInt32) : Bytes :=
  if cp ≤ 0x7f then [cp.toUInt8]
  else if cp ≤ 0x7ff then [byte 0xc0 (cp >>> 6 &&& 0x1f), byte 0x80 (cp &&& 0x3f)]
  else if cp ≤ 0xffff then
    [byte 0xe0 (cp >>> 12 &&& 0x0f), byte 0x80 (cp >>> 6 &&& 0x3f), byte 0x80 (cp &&& 0x3f)]
  else if cp ≤ 0x10ffff then
    [byte 0xf0 (cp >>> 18 &&& 0x07), byte 0x80 (cp >>> 12 &&& 0x3f), byte 0x80 (cp >>> 6 &&& 0x3f),
      byte 0x80 (cp &&& 0x3f)]
  else [0xef, 0xbf, 0xbd]
where
  byte (mark bits : UInt32) : UInt8 := (mark ||| bits).toUInt8

/-- The character of an escape other than `\u`. -/
def unescape (ch : UInt8) : UInt8 :=
  if ch = chr 'b' then 8
  else if ch = chr 'f' then 12
  else if ch = chr 'n' then 10
  else if ch = chr 'r' then 13
  else if ch = chr 't' then 9
  else ch

/-- The loop of `utf8_decode`; `uhi` is there after the first half of a surrogate pair. -/
def utf8DecodeLoop (uhi : Option UInt32) : Bytes → Except Errno Bytes
  | [] => .ok []
  | ch :: rest =>
    if ch = chr '\\' then
      match rest with
      | [] => .error .EBADMSG
      | ch :: rest =>
        if ch = chr 'u' then
          match rest with
          | a :: b :: c :: d :: rest =>
            if !isxdigit a || !isxdigit b || !isxdigit c || !isxdigit d then .error .EBADMSG
            else
              let u := (chHex a).toUInt32 <<< 12 ||| (chHex b).toUInt32 <<< 8 |||
                (chHex c).toUInt32 <<< 4 ||| (chHex d).toUInt32
              if 0xd800 ≤ u ∧ u ≤ 0xdbff then utf8DecodeLoop (some ((u - 0xd800) * 0x400)) rest
              else if 0xdc00 ≤ u ∧ u ≤ 0xdfff then
                match uhi with
                | none => utf8DecodeLoop none rest
                | some uhi =>
                  (utf8DecodeLoop none rest).map (utf8Byteseq (uhi + u - 0xdc00 + 0x10000) ++ ·)
              else (utf8DecodeLoop none rest).map (utf8Byteseq u ++ ·)
          | _ => .error .EBADMSG
        else (utf8DecodeLoop none rest).map (unescape ch :: ·)
    else (utf8DecodeLoop none rest).map (ch :: ·)

def utf8Decode (pl : Bytes) : Except Errno Bytes := utf8DecodeLoop none pl

/-! ## `decode.c`: names and values -/

inductive JsonValue
  | str (str : Bytes)
  | integer (integer : Int64)
  | dbl (dbl : ℚ)
  | boolean (boolean : Bool)
  | null

def isString (pl : Bytes) : Option Bytes :=
  if pl.length < 2 then none
  else if pl.head? ≠ some (chr '"') ∨ pl.getLast? ≠ some (chr '"') then none
  else some (pl.drop 1).dropLast

section
variable (p : Nat)

def mypower10 (e : Nat) : ℚ := go e 10 1
where
  go (e : Nat) (q n : ℚ) : ℚ :=
    if e = 0 then n
    else go (e / 2) (roundTo p (q * q)) (if e % 2 = 1 then roundTo p (n * q) else n)

structure Number where
  neg : Bool := false
  pos : Bool := false
  frac : Bool := false
  exp : Bool := false
  v : ℚ := 0
  mul : ℚ := 1
  e : Int := 0

/-- One character of `is_number`, which reads from the last one to the first. -/
def Number.step (n : Number) (ch : UInt8) : Option Number :=
  if ch = chr 'e' ∨ ch = chr 'E' then
    if n.exp || n.frac then none
    else some { n with exp := true, e := truncate (if n.neg then -n.v else n.v), v := 0, mul := 1,
                       neg := false, pos := false }
  else if n.pos || n.neg then none
  else if ch = chr '.' then
    if n.frac then none else some { n with frac := true, v := roundTo p (n.v / n.mul), mul := 1 }
  else if chr '0' ≤ ch ∧ ch ≤ chr '9' then
    some { n with v := roundTo p (n.v + roundTo p (n.mul * (ch - chr '0').toNat)), mul := roundTo p (n.mul * 10) }
  else if ch = chr '-' then some { n with neg := true }
  else if ch = chr '+' then some { n with pos := true }
  else none

def Number.value (n : Number) : ℚ :=
  let v :=
    if n.exp then
      if n.e < 0 then roundTo p (n.v / mypower10 p n.e.natAbs) else roundTo p (n.v * mypower10 p n.e.natAbs)
    else n.v
  if n.neg then -v else v

/-- The number, and whether it is a float. -/
def isNumber (pl : Bytes) : Option (ℚ × Bool) :=
  if pl.isEmpty then none
  else (pl.reverse.foldlM (Number.step p) {}).map fun n => (n.value p, n.frac || n.exp)

def decodeName (pl : Bytes) : Except Errno Bytes :=
  match isString pl with
  | none => .error .EBADMSG
  | some pls => utf8Decode pls

def decodeValue (pl : Bytes) : Except Errno JsonValue :=
  match isString pl with
  | some pls => (utf8Decode pls).map .str
  | none =>
    match isNumber p pl with
    | some (d, isfloat) => .ok (if isfloat then .dbl (roundTo 53 d) else .integer (Int64.ofInt (truncate d)))
    | none =>
      if strCaseEq pl (ascii "false") then .ok (.boolean false)
      else if strCaseEq pl (ascii "true") then .ok (.boolean true)
      else if strCaseEq pl (ascii "null") then .ok .null
      else .error .EBADMSG

end

/-! ## `odict.c`, `decode_odict.c` -/

def hashValidSize (size : UInt32) : UInt32 := go 0
where
  go (x : Nat) : UInt32 :=
    if h : x < 31 ∧ (1 : UInt32) <<< UInt32.ofNat x < size then go (x + 1) else 1 <<< UInt32.ofNat x
  termination_by 31 - x

/-- With the check of `hash_alloc`: the size of the hash table of the new, empty dictionary. -/
def odictAlloc (hashSize : UInt32) : Except Errno UInt32 :=
  if hashSize = 0 then .error .EINVAL
  else
    let bsize := hashValidSize hashSize
    if bsize = 0 ∨ bsize &&& (bsize - 1) ≠ 0 then .error .EINVAL else .ok bsize

def odictEntryAdd (o : Odict) (key : Str) (value : Value) : Odict := o ++ [(key, value)]

def entryAdd (o : Odict) (name : Str) : JsonValue → Odict
  | .str s => odictEntryAdd o name (.str (.of s))
  | .integer n => odictEntryAdd o name (.integer n)
  | .dbl d => odictEntryAdd o name (.dbl d)
  | .boolean b => odictEntryAdd o name (.boolean b)
  | .null => odictEntryAdd o name .null

def objectEntry (p : Nat) (name val : Bytes) (o : Odict) : Except Errno Odict := do
  let name ← decodeName name
  let val ← decodeValue p val
  return entryAdd o (.of name) val

def arrayEntry (p : Nat) (idx : UInt32) (val : Bytes) (o : Odict) : Except Errno Odict := do
  let val ← decodeValue p val
  return entryAdd o (index idx) val

inductive Container
  | object | array
  deriving DecidableEq

def Container.value : Container → Odict → Value
  | .object => .object
  | .array => .array

/-- `object_start` and `array_start`, with `container_add` up to the entry of the container: its
key, and the size of its hash table for that of the dictionary around it. -/
def containerStart (bsize : UInt32) (name : Option Bytes) (idx : UInt32) : Except Errno (Str × UInt32) := do
  let key ← match name with
    | some name => (decodeName name).map Str.of
    | none => .ok (index idx)
  let bsize ← odictAlloc bsize
  return (key, bsize)

/-! ## `decode.c`: the scanner -/

/-- The variables of `_json_decode`. A pointer into the text is the text from there on. -/
structure Scan where
  esc : Bool := false
  inquot : Bool := false
  inobj : Bool := false
  inarray : Bool := false
  /-- with its length -/
  name : Option Bytes := none
  /-- `val.p`; `chkval` sets the length -/
  val : Option Bytes := none
  ws : Nat := 0
  idx : UInt32 := 0
  arg : Odict := []

/-- With `str - ws` for `p` -/
def chkval (val : Option Bytes) (str : Bytes) (ws : Nat) : Option Bytes :=
  match val with
  | none => none
  | some val => if val.length < str.length + ws then none else some (val.take (val.length - (str.length + ws)))

inductive Next
  /-- goes on to the next one -/
  | step (s : Scan)
  | nest (c : Container)
  /-- returns without an error -/
  | done (o : Odict)

def scanQuoted (s : Scan) (c : UInt8) : Scan :=
  if s.esc then { s with esc := false }
  else if c = chr '"' then { s with inquot := false }
  else if c = chr '\\' then { s with esc := true }
  else s

/-- One character, the first of `str`. -/
def scan (p : Nat) (s : Scan) (str : Bytes) (c : UInt8) : Except Errno Next :=
  if s.inquot then .ok (.step (scanQuoted s c))
  else if c = chr ':' then
    match chkval s.val str s.ws with
    | none => .error .EBADMSG
    | some val =>
      if !s.inobj || s.name.isSome then .error .EBADMSG
      else .ok (.step { s with name := some val, val := none })
  else if c = chr ',' then
    match chkval s.val str s.ws with
    | none => .ok (.step s)
    | some val =>
      if s.inobj then
        match s.name with
        | none => .error .EBADMSG
        | some name => do
          let o ← objectEntry p name val s.arg
          return .step { s with name := none, val := none, arg := o }
      else if s.inarray then do
        let o ← arrayEntry p s.idx val s.arg
        return .step { s with name := none, val := none, idx := s.idx + 1, arg := o }
      else .error .EBADMSG
  else if c = chr '{' then
    if s.inobj || s.inarray then .ok (.nest .object) else .ok (.step { s with inobj := true })
  else if c = chr '[' then
    if s.inobj || s.inarray then .ok (.nest .array) else .ok (.step { s with inarray := true, idx := 0 })
  else if c = chr '}' then
    if !s.inobj then .error .EBADMSG
    else
      match chkval s.val str s.ws with
      | none => .ok (.done s.arg)
      | some val =>
        match s.name with
        | none => .error .EBADMSG
        | some name => (objectEntry p name val s.arg).map .done
  else if c = chr ']' then
    if !s.inarray then .error .EBADMSG
    else
      match chkval s.val str s.ws with
      | none => .ok (.done s.arg)
      | some val => (arrayEntry p s.idx val s.arg).map .done
  else if c = chr ' ' ∨ c = chr '\t' ∨ c = chr '\r' ∨ c = chr '\n' then .ok (.step { s with ws := s.ws + 1 })
  else if s.val.isSome then .ok (.step s)
  else .ok (.step { s with inquot := c = chr '"', val := some str, ws := 0 })

/-- `_json_decode` with the handlers of `decode_odict.c`: what it leaves of the text, and the
dictionary. The handlers put a container into the dictionary around it before its entries are read;
nothing else is added to that one until they are. -/
def jsonDecodeLoop (p maxdepth : Nat) (bsize : UInt32) (depth : Nat) (s : Scan) (str : Bytes) :
    Except Errno { r : Bytes × Odict // r.1.length ≤ str.length } :=
  match str with
  | [] => if s.inobj || s.inarray then .error .EBADMSG else .ok ⟨([], s.arg), Nat.le_refl _⟩
  | c :: str =>
    match scan p s (c :: str) c with
    | .error err => .error err
    | .ok (.step s) =>
      (jsonDecodeLoop p maxdepth bsize depth s str).map fun r => ⟨r.1, Nat.le_succ_of_le r.2⟩
    | .ok (.done o) => .ok ⟨(c :: str, o), Nat.le_refl _⟩
    | .ok (.nest k) =>
      if _h : maxdepth ≤ depth then .error .EOVERFLOW
      else if s.inobj && s.name.isNone then .error .EBADMSG
      else
        match containerStart bsize s.name s.idx with
        | .error err => .error err
        | .ok (key, bsizeInner) =>
          match jsonDecodeLoop p maxdepth bsizeInner (depth + 1) {} (c :: str) with
          | .error err => .error err
          | .ok ⟨(rest, oc), hle⟩ =>
            let s := { s with
              name := none, idx := if s.inarray then s.idx + 1 else s.idx
              arg := odictEntryAdd s.arg key (k.value oc) }
            (jsonDecodeLoop p maxdepth bsize depth s (rest.drop 1)).map fun r =>
              ⟨r.1, r.2.trans ((length_drop.trans_le (Nat.sub_le ..)).trans hle)⟩
termination_by (str.length, maxdepth - depth)
decreasing_by
  · exact .left _ _ (Nat.lt_succ_self _)
  · exact .right _ (by omega)
  · refine .left _ _ ?_
    rw [length_drop, length_cons]
    simp only [length_cons] at hle
    omega

def jsonDecodeOdict (p : Nat) (hashSize : UInt32) (str : Bytes) (maxdepth : Nat) : Except Errno Odict :=
  match odictAlloc hashSize with
  | .error err => .error err
  | .ok bsize => (jsonDecodeLoop p maxdepth bsize 0 {} str).map (·.1.2)

end BareRTC.Re
