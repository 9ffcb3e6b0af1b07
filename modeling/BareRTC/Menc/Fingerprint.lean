import BareRTC.Re.Regex

/-!
# Certificate fingerprints in SDP (`baresip/src/sdp.c`, `baresip/modules/dtls_srtp/dtls.c`)

`sdp_fingerprint_decode` reads what `dtls_print_sha256_fingerprint` prints.
-/

namespace BareRTC


def chHex (c : UInt8) : UInt8 :=
  if chr '0' ≤ c ∧ c ≤ chr '9' then c - chr '0'
  else if chr 'A' ≤ c ∧ c ≤ chr 'F' then c - chr 'A' + 10
  else if chr 'a' ≤ c ∧ c ≤ chr 'f' then c - chr 'a' + 10
  else 0

/-- The digest `f`: two hex digits and a separator for each byte. The loop in C runs once more
where a single character is left at the end; that byte does not count in `*sz`. -/
def digestBytes : Bytes → Bytes
  | a :: b :: _ :: f => (chHex a <<< 4 ||| chHex b) :: digestBytes f
  | [a, b] => [chHex a <<< 4 ||| chHex b]
  | _ => []

/-- The hash method and, if there is a buffer of `sz` bytes for it, the digest. -/
def sdpFingerprintDecode (attr : Option Bytes) (sz : Option Nat) : Except Errno (Bytes × Bytes) :=
  match attr with
  | none => .error .EINVAL
  | some attr => do
    match ← reRegex (ascii "[^ ]+ [0-9A-F:]+") attr, sz with
    | [hash, _], none => return (hash, [])
    | [hash, f], some sz =>
      if sz < (f.length + 1) / 3 then throw .EOVERFLOW else return (hash, digestBytes f)
    | _, _ => throw .EINVAL

def hexDigit (n : UInt8) : UInt8 := if n < 10 then chr '0' + n else chr 'A' + (n - 10)

/-- `dtls_print_sha256_fingerprint`: `%02X` for each byte, with `:` between. -/
def printFingerprint : Bytes → Bytes
  | [] => []
  | [b] => [hexDigit (b >>> 4), hexDigit (b &&& 15)]
  | b :: md => hexDigit (b >>> 4) :: hexDigit (b &&& 15) :: chr ':' :: printFingerprint md

end BareRTC
