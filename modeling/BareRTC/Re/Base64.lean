import BareRTC.Re.Regex

/-!
# Base64 (`re/src/base64/b64.c`)
-/

namespace BareRTC

def b64Table : Bytes := ascii "ABCDEFGHIJKLMNOPQRSTUVWXYZabcdefghijklmnopqrstuvwxyz0123456789+/"

def base64Encode (inp : Bytes) (olen : Nat) : Except Errno Bytes :=
  if olen < 4 * ((inp.length + 2) / 3) then .error .EOVERFLOW else .ok (go inp)
where
  digit (v : UInt32) : UInt8 := b64Table.getD (v &&& 0x3f).toNat 0
  quad (v : UInt32) (pad : Nat) : Bytes :=
    [digit (v >>> 18), digit (v >>> 12), if pad ≥ 2 then chr '=' else digit (v >>> 6),
      if pad ≥ 1 then chr '=' else digit v]
  go : Bytes → Bytes
    | [] => []
    | [a] => quad (a.toUInt32 <<< 16) 2
    | [a, b] => quad (a.toUInt32 <<< 16 ||| b.toUInt32 <<< 8) 1
    | a :: b :: c :: rest =>
      quad (a.toUInt32 <<< 16 ||| b.toUInt32 <<< 8 ||| c.toUInt32) 0 ++ go rest

/-- With a print handler `vph` -/
def base64Print {σ : Type} (vph : Bytes → σ → Option Errno × σ) (b : Bytes) (arg : σ) : Option Errno × σ :=
  if _ : b = [] then (none, arg)
  else
    match base64Encode (b.take 192) 256 with
    | .error err => (some err, arg)
    | .ok text =>
      match vph text arg with
      | (some err, arg) => (some err, arg)
      | (none, arg) => base64Print vph (b.drop 192) arg
termination_by b.length
decreasing_by
  have := List.length_pos_iff.2 ‹¬ b = []›
  rw [List.length_drop]
  omega

/-- Convert char -> 6-bit value; `=` is a bit that the shifts move out of the way. -/
def b64val (c : UInt8) : UInt32 :=
  if chr 'A' ≤ c ∧ c ≤ chr 'Z' then (c - chr 'A').toUInt32
  else if chr 'a' ≤ c ∧ c ≤ chr 'z' then (c - chr 'a').toUInt32 + 26
  else if chr '0' ≤ c ∧ c ≤ chr '9' then (c - chr '0').toUInt32 + 52
  else if c = chr '+' then 62
  else if c = chr '/' then 63
  else if c = chr '=' then (1 : UInt32) <<< 24
  else 0

def base64Decode (inp : Bytes) (olen : Nat) : Except Errno Bytes :=
  if olen < 3 * (inp.length / 4) then .error .EOVERFLOW else .ok (go inp)
where
  go : Bytes → Bytes
    | a :: b :: c :: d :: rest =>
      let v := b64val a <<< 18 ||| b64val b <<< 12 ||| b64val c <<< 6 ||| b64val d
      (v >>> 16).toUInt8 :: (if v &&& (1 : UInt32) <<< 30 = 0 then [(v >>> 8).toUInt8] else []) ++
        (if v &&& (1 : UInt32) <<< 24 = 0 then [v.toUInt8] else []) ++ go rest
    | _ => []

end BareRTC
