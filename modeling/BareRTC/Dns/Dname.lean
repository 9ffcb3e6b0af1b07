import BareRTC.Sdp.Defs

/-!
# Domain names in DNS messages (`re/src/dns/dname.c`)

The encoder writes a name label by label, each behind a place for its length, and enters the name
and its suffixes in a table with their offsets in the message; a suffix that is in the table is
written as a pointer. The decoder follows pointers. Names are C strings, their bytes without the
final `NUL`; memory is there for what is written to the buffer.
-/

namespace BareRTC.Dns

open Mbuf

def offsetMask : Nat := 0x3fff

def compLoop : Nat := 255

/-! ## The table of names -/

structure Dname where
  name : Bytes
  pos : Nat
  deriving DecidableEq, Repr

/-- `ht_dname`, which may be `NULL`. Names that are equal up to case are in one bucket, in the order
in which they were appended. -/
abbrev Table := Option (List Dname)

/-- With the offset of `pos` in the message, which is huge for a position before the start; `mem` is
whether there is memory for the entry. -/
def dnameAppend (mem : Bytes → Bool) (start : Nat) (ht : Table) (name : Bytes) (pos : Nat) : Table :=
  if pos < start ∨ pos - start > offsetMask ∨ name = [] ∨ mem name = false then ht
  else ht.map (· ++ [⟨name, pos - start⟩])

def dnameLookup (ht : Table) (name : Bytes) : Option Dname := (ht.getD []).find? fun dn => strCaseEq dn.name name

/-! ## Encoding -/

def dnameEncodePointer (pos : Nat) (mb : Mbuf) : Mbuf := write (beBytes 2 (pos ||| 0xc000)) mb

section
variable (mem : Bytes → Bool) (start : Nat) (comp : Bool)

/-- The loop of `dns_dname_encode`; the length of the label that is being written goes to `pos`. -/
def encodeLoop : Bytes → Nat → Table → Mbuf → Option Errno × Table × Mbuf
  | [], pos, ht, mb =>
    let lablen := mb.pos - pos - 1
    if lablen = 0 then (none, ht, mb)
    else (none, ht, write [0] (mb.poke pos [UInt8.ofNat lablen]))
  | c :: name, pos, ht, mb =>
    let lablen := mb.pos - pos - 1
    if c = chr '.' then
      if lablen = 0 then (some .EINVAL, ht, mb)
      else
        let mb := mb.poke pos [UInt8.ofNat lablen]
        match dnameLookup ht name with
        | some dn =>
          if comp then (none, ht, dnameEncodePointer dn.pos mb)
          else encodeLoop name mb.pos ht (write [0] mb)
        | none => encodeLoop name mb.pos (dnameAppend mem start ht name mb.pos) (write [0] mb)
    else encodeLoop name pos ht (write [c] mb)

def dnsDnameEncode (name : Bytes) (ht : Table) (mb : Mbuf) : Option Errno × Table × Mbuf :=
  match dnameLookup ht name with
  | some dn =>
    if comp then (none, ht, dnameEncodePointer dn.pos mb)
    else labels ht
  | none => labels (dnameAppend mem start ht name mb.pos)
where
  labels (ht : Table) :=
    if name = [chr '.'] then (none, ht, write [0] mb)
    else encodeLoop mem start comp name mb.pos ht (write [0] mb)

end

/-! ## Decoding -/

def addLabel (name l : Bytes) : Bytes := name ++ (if name = [] then [] else [chr '.']) ++ l

/-- The loop of `dns_dname_decode`: the name, if there is one, and the position. `comp` is where the
first pointer ended. -/
def decodeLoop (buf : Bytes) (endPos start pos : Nat) (name : Bytes) (loopc : Nat) (comp : Option Nat) :
    Option Bytes × Nat :=
  if pos < endPos then
    let len := buf.getD pos 0
    if len = 0 then (some name, comp.getD (pos + 1))
    else if len &&& 0xc0 = 0xc0 then
      if loopc > compLoop then (none, pos + 1)
      else if endPos - pos < 2 then (none, pos)
      else
        let offset := beNat (slice buf pos 2) &&& offsetMask
        decodeLoop buf endPos start (offset + start) name (loopc + 1) (some (comp.getD (pos + 2)))
    else if len.toNat > endPos - (pos + 1) then (none, pos + 1)
    else if len.toNat + name.length + 2 > 256 then (none, pos + 1)
    else
      decodeLoop buf endPos start (pos + 1 + len.toNat) (addLabel name (slice buf (pos + 1) len.toNat)) loopc comp
  else (none, pos)
termination_by (compLoop + 1 - loopc, endPos - pos)
decreasing_by
  all_goals simp_wf; omega

/-- What is returned is a C string. -/
def dnsDnameDecode (start : Nat) : MbufM Bytes := fun mb =>
  match decodeLoop mb.buf mb.endPos start mb.pos [] 0 none with
  | (some name, pos) => .ok (Sdp.cstr name) (mb.setPos pos)
  | (none, pos) => .error .EINVAL (mb.setPos pos)

structure Writer where
  ht : Table
  mb : Mbuf

inductive Op
  | name (name : Bytes) (comp : Bool) (mem : Bytes → Bool)
  | raw (d : Bytes)

def writerStep (start : Nat) (w : Writer) : Op → Writer × Option Errno
  | .name name comp mem =>
    let r := dnsDnameEncode mem start comp name w.ht w.mb
    (⟨r.2.1, r.2.2⟩, r.1)
  | .raw d => (⟨w.ht, write d w.mb⟩, none)

end BareRTC.Dns
