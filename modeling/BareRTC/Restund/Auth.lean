import BareRTC.Menc.Fingerprint
import BareRTC.Restund.Defs

/-!
# Authentication (`restund/modules/auth/auth.c`)

`md5` and the hash functions of STUN are not part of the repository's logic and are parameters.
-/

namespace BareRTC.Restund

open Sdp (Sa)
open Stun (Attrib AttrVal Msg stunMsgAttr stunMsgChkMi)

structure Auth where
  nonceExpiry : UInt32
  secret : UInt64
  realm : Bytes
  software : Bytes
  md5 : Bytes → { d : Bytes // d.length = 16 }
  hash : Stun.Hash

/-! ## Nonces -/

/-- A `uint64_t` in the memory of the host -/
def le64 (v : UInt64) : Bytes := (beBytes 8 v.toNat).reverse

/-- The digest of `nv`: a time, the secret and the hash of an address -/
def Auth.key (au : Auth) (time : UInt64) (hash : UInt32) : Bytes :=
  au.md5 (le64 time ++ le64 au.secret ++ le64 hash.toUInt64)

def xdigit (n : Nat) : UInt8 := if n < 10 then 48 + UInt8.ofNat n else 87 + UInt8.ofNat n

/-- What `%w` prints -/
def printBytes (d : Bytes) : Bytes := d.flatMap fun b => [xdigit (b.toNat / 16), xdigit (b.toNat % 16)]

/-- What `%llx` prints, of a number with `k` digits at most -/
def printHex : Nat → Nat → Bytes
  | 0, _ => []
  | k + 1, n => (if n / 16 = 0 then [] else printHex k (n / 16)) ++ [xdigit (n % 16)]

def mknonce (au : Auth) (now : Nat) (src : Sa) : Bytes :=
  printBytes (au.key (UInt64.ofNat now) (saHashAddr src)) ++ printHex 16 (UInt64.ofNat now).toNat

/-- The loop of `nonce_validate` that reads the digest -/
def readKey : Bytes → Bytes
  | a :: b :: p => ((chHex a <<< 4) + chHex b) :: readKey p
  | _ => []

def xvalue (c : UInt8) : Option UInt64 :=
  if chr '0' ≤ c ∧ c ≤ chr '9' ∨ chr 'A' ≤ c ∧ c ≤ chr 'F' ∨ chr 'a' ≤ c ∧ c ≤ chr 'f' then some (chHex c).toUInt64
  else none

/-- A text with another character has no value. -/
def plX64 (pl : Bytes) : UInt64 :=
  (pl.foldl (fun v c => v.bind fun v => (xvalue c).map fun d => 16 * v + d) (some 0)).getD 0

/-- The digest and the time that `nonce_validate` reads in a nonce that has a right length -/
def nonceRead (nonce : Bytes) : Option (Bytes × UInt64) :=
  let pl := cstr nonce
  if pl.length < 33 ∨ pl.length > 48 then none else some (readKey (pl.take 32), plX64 (pl.drop 32))

/-- The age is the difference as an `int64_t`. -/
def nonceValidate (au : Auth) (nonce : Bytes) (now : Nat) (src : Sa) : Bool :=
  match nonceRead nonce with
  | none => false
  | some (nkey, time) =>
    if nkey ≠ au.key time (saHashAddr src) then false
    else
      let age := (UInt64.ofNat now - time).toNat
      age < 2 ^ 63 ∧ age ≤ au.nonceExpiry.toNat

/-! ## Requests -/

variable (au : Auth) (env : Env) (ctx : Msgctx) (via : Via) (msg : Msg)

/-- An error response with the attributes before `SOFTWARE`, without a key -/
def authEreply (code : UInt16) (reason : String) (attrs : List (Attrib × AttrVal) := []) : Out :=
  .reply via msg.hdr ⟨some (code, reason), attrs ++ [(.software, .str au.software)], none, ctx.fp⟩ env.reply

def challenge : List (Attrib × AttrVal) := [(.realm, .str au.realm), (.nonce, .str (mknonce au env.now via.src))]

/-- `request_handler`: whether the request was answered. Only the key of the context changes. -/
def authRequestHandler : Bool × Msgctx × List Out :=
  if ctx.key.isSome then (false, ctx, [])
  else if (stunMsgAttr msg Attrib.msgIntegrity.code).isNone then
    (true, ctx, [authEreply au env ctx via msg 401 "Unauthorized" (challenge au env via)])
  else
    match msgAttr msg .username valStr, msgAttr msg .realm valStr, msgAttr msg .nonce valStr with
    | some user, some _, some nonce =>
      if nonceValidate au nonce env.now via.src = false then
        (true, ctx, [authEreply au env ctx via msg 438 "Stale Nonce" (challenge au env via)])
      else if env.keyMem = false then (true, ctx, [authEreply au env ctx via msg 500 "Server Error"])
      else
        match env.ha1 (cstr user) with
        | none => (true, ctx, [authEreply au env ctx via msg 401 "Unauthorized" (challenge au env via)])
        | some ha1 =>
          if (stunMsgChkMi au.hash ha1 msg).1.isSome then
            (true, ctx, [authEreply au env ctx via msg 401 "Unauthorized" (challenge au env via)])
          else (false, { ctx with key := some ha1 }, [])
    | _, _, _ => (true, ctx, [authEreply au env ctx via msg 400 "Bad Request"])

end BareRTC.Restund
