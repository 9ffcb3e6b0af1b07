import BareRTC.Re.Odict

/-!
# Components of a URI (`re/src/uri/uric.c`)

The print handler takes every byte. `char` is signed, as on x86: a byte from `0x80` on is a negative
number, which `isalnum` does not know and which becomes an `unsigned` of 32 bits for the printer.
-/

namespace BareRTC.Re

def isalnum (c : UInt8) : Bool := chr '0' ≤ c && c ≤ chr '9' || chr 'A' ≤ c && c ≤ chr 'Z' || chr 'a' ≤ c && c ≤ chr 'z'

def isMark (c : UInt8) : Bool := c ∈ ascii "-_.!~*'()"

def isUnreserved (c : UInt8) : Bool := isalnum c || isMark c

def isUserUnreserved (c : UInt8) : Bool := c ∈ ascii "&=+$,;?/"

def isHnvUnreserved (c : UInt8) : Bool := c ∈ ascii "[]/?:+$"

def isUser (c : UInt8) : Bool := isUnreserved c || isUserUnreserved c

def isPassword (c : UInt8) : Bool := c ∈ ascii "&=+$," || isUnreserved c

def isParamUnreserved (c : UInt8) : Bool := c ∈ ascii "[]/:&+$"

def isParamchar (c : UInt8) : Bool := isParamUnreserved c || isUnreserved c

def isHvalue (c : UInt8) : Bool := isHnvUnreserved c || isUnreserved c

/-! ## Numbers in texts (`re/src/fmt/print.c`) -/

/-- `local_itoa` with base sixteen and capital letters. -/
def localItoaHex (n : UInt32) : Bytes := (Nat.toDigits 16 n.toNat).map fun c => if c.isDigit then chr c else chr c - 32

def writePadded (p : Bytes) (pad : Nat) : Bytes := List.replicate (pad - p.length) (chr '0') ++ p

/-- A `char` as an `unsigned` argument. -/
def charArg (c : UInt8) : UInt32 := c.toInt8.toInt32.toUInt32

/-- What `%%%02X` prints. -/
def percentHex (c : UInt8) : Bytes := chr '%' :: writePadded (localItoaHex (charArg c)) 2

/-! ## Escaping -/

def compEscape (eh : UInt8 → Bool) (pl : Bytes) : Bytes := pl.flatMap fun c => if eh c then [c] else percentHex c

def compUnescape (eh : UInt8 → Bool) : Bytes → Except Errno Bytes
  | [] => .ok []
  | c :: t =>
    if eh c then (compUnescape eh t).map (c :: ·)
    else if c = chr '%' then
      match t with
      | hi :: lo :: t => (compUnescape eh t).map ((chHex hi <<< 4 ||| chHex lo) :: ·)
      | _ => .error .EBADMSG
    else .error .EINVAL

def uriUserEscape : Bytes → Bytes := compEscape isUser
def uriUserUnescape : Bytes → Except Errno Bytes := compUnescape isUser
def uriPasswordEscape : Bytes → Bytes := compEscape isPassword
def uriPasswordUnescape : Bytes → Except Errno Bytes := compUnescape isPassword
def uriParamEscape : Bytes → Bytes := compEscape isParamchar
def uriParamUnescape : Bytes → Except Errno Bytes := compUnescape isParamchar
def uriHeaderEscape : Bytes → Bytes := compEscape isHvalue
def uriHeaderUnescape : Bytes → Except Errno Bytes := compUnescape isHvalue

end BareRTC.Re
