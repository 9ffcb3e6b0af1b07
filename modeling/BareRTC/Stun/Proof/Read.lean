import BareRTC.Re.Rest
import BareRTC.Stun.Msg

/-!
# Reading attributes

What stands in the value of an attribute, as a table over the kinds of attributes: `valSize` is the
number of bytes that the decoder moves over and `valOf` what it makes of them. The decoder reads by
this table (`valDecode_eq`).
-/

namespace BareRTC

open List

namespace Stun

open Sdp (Sa Addr)
open Mbuf

/-! ## The format of the values -/

def family (r : Bytes) : UInt8 := UInt8.ofNat (numAt r 1 1)

def valSize (k : Kind) (len : Nat) (r : Bytes) : Option Nat :=
  match k with
  | .addr | .xorAddr =>
    if family r = 1 then some 8 else if family r = 2 then some 20 else none
  | .changeReq | .num32 => if len ≠ 4 then none else some 4
  | .str | .data | .other => some len
  | .integrity => if len ≠ 20 then none else some 20
  | .errCode => if len < 4 then none else some len
  | .unknownAttr => some (2 * (len / 2))
  | .num16 => if len < 2 then none else some 2
  | .num8 | .evenPort => if len < 1 then none else some 1
  | .flag => if len > 0 then none else some 0
  | .num64 => if len ≠ 8 then none else some 8

def saOf (tid : Option Bytes) (r : Bytes) : Sa :=
  let port := UInt16.ofNat (numAt r 2 2)
  let port := if tid.isSome then port ^^^ 0x2112 else port
  if family r = 1 then
    let addr4 := UInt32.ofNat (numAt r 4 4)
    ⟨.inet (if tid.isSome then addr4 ^^^ magicCookie else addr4), port⟩
  else
    let addr6 := slice r 4 16
    ⟨.inet6 (match tid with
      | some tid => in6XorTid addr6 tid
      | none => addr6), port⟩

def typesOf : Nat → Bytes → List UInt16
  | 0, _ => []
  | n + 1, r => UInt16.ofNat (numAt r 0 2) :: typesOf n (r.drop 2)

def valOf (k : Kind) (tid : Bytes) (len : Nat) (r : Bytes) : AttrVal :=
  match k with
  | .addr => .addr (saOf none r)
  | .xorAddr => .xorAddr (saOf (some tid) r)
  | .changeReq =>
    let n := UInt32.ofNat (numAt r 0 4)
    .changeReq ((n >>> 2) &&& 1 ≠ 0) ((n >>> 1) &&& 1 ≠ 0)
  | .str => .str (r.take len)
  | .integrity => .integrity (r.take 20)
  | .errCode =>
    let hundreds := UInt8.ofNat (numAt r 2 1)
    let code := UInt8.ofNat (numAt r 3 1)
    .errCode ((hundreds &&& 0x7).toUInt16 * 100 + code.toUInt16) (slice r 4 (len - 4))
  | .unknownAttr => .unknownAttr ((typesOf (len / 2) r).take 8)
  | .num16 => .num16 (UInt16.ofNat (numAt r 0 2))
  | .num32 => .num32 (UInt32.ofNat (numAt r 0 4))
  | .data => .data (r.take len)
  | .num8 => .num8 (UInt8.ofNat (numAt r 0 1))
  | .evenPort => .evenPort ((UInt8.ofNat (numAt r 0 1) >>> 7) &&& 1 ≠ 0)
  | .flag => .flag
  | .num64 => .num64 (UInt64.ofNat (numAt r 0 8))
  | .other => .other

/-! ## The decoder reads by the table -/

def ReadsBy {α : Type} (f : MbufM α) (mb : Mbuf) (r : Bytes) (size : Option Nat) (a : α) : Prop :=
  (∀ n, size = some n → n ≤ r.length → f mb = .ok a (mb.setPos (mb.pos + n))) ∧
  ((∀ n, size = some n → r.length < n) → ∃ err mb', f mb = .error err mb')

variable {n : Nat} {mb : Mbuf} {r : Bytes} {α β : Type} {f : MbufM α} {a : α}

theorem ReadsBy.of_error {err : Errno} {mb' : Mbuf} (h : f mb = .error err mb') : ReadsBy f mb r none a :=
  ⟨nofun, fun _ => ⟨err, mb', h⟩⟩

theorem ReadsBy.of_ok (hn : n ≤ r.length) (h : f mb = .ok a (mb.setPos (mb.pos + n))) : ReadsBy f mb r (some n) a := by
  refine ⟨fun m hm _ => ?_, fun hlt => absurd (hlt n rfl) (Nat.not_lt.2 hn)⟩
  cases hm
  exact h

theorem ReadsBy.map {size : Option Nat} (h : ReadsBy f mb r size a) {g : α → β} : ReadsBy (do return g (← f)) mb r size (g a) := by
  refine ⟨fun n hn hle => ?_, fun hlt => ?_⟩
  · rw [bind_of_ok (h.1 n hn hle)]
    rfl
  · obtain ⟨err, mb', he⟩ := h.2 hlt
    exact ⟨err, mb', bind_of_error he⟩

theorem stunAddrDecode_eq (h : mb.Rest r) {tid : Option Bytes} :
    ReadsBy (stunAddrDecode tid) mb r (valSize .addr 0 r) (saOf tid r) := by
  have hsize : ∀ n, valSize .addr 0 r = some n → 8 ≤ n := by
    intro n hn
    simp only [valSize] at hn
    split_ifs at hn <;> cases hn <;> omega
  by_cases h4 : r.length < 4
  · have herr : stunAddrDecode tid mb = .error .EBADMSG mb := bind_of_error (h.require_of_lt 0 (by omega) (by omega))
    refine ⟨fun n hn hle => ?_, fun _ => ⟨_, _, herr⟩⟩
    have := hsize n hn
    omega
  rw [Nat.not_lt] at h4
  -- the first four bytes are there
  have hhead : stunAddrDecode tid mb = (do
      let port := if tid.isSome then UInt16.ofNat (numAt r 2 2) ^^^ 0x2112 else UInt16.ofNat (numAt r 2 2)
      if family r = 1 then
        require 4
        let addr4 ← Mbuf.readU32
        return ⟨.inet (if tid.isSome then addr4 ^^^ magicCookie else addr4), port⟩
      else if family r = 2 then
        require 16
        let addr6 ← Mbuf.readMem 16
        return ⟨.inet6 (match tid with
          | some tid => in6XorTid addr6 tid
          | none => addr6), port⟩
      else throw .EAFNOSUPPORT : MbufM Sa) (mb.setPos (mb.pos + 4)) := by
    refine (bind_of_ok (h.require_of_le 0 (by omega) (by omega))).trans ?_
    refine (bind_of_ok (h.readU8 0 (by omega))).trans ?_
    refine (bind_of_ok (h.readU8 1 (by omega))).trans ?_
    exact bind_of_ok (h.readU16 2 (by omega))
  unfold ReadsBy
  rw [hhead]
  unfold valSize saOf
  dsimp only
  by_cases h1 : family r = 1
  · rw [if_pos h1, if_pos h1, if_pos h1]
    refine ⟨fun n hn hle => ?_, fun hlt => ?_⟩
    · cases hn
      rw [bind_of_ok (h.require_of_le 4 h4 hle), bind_of_ok (h.readU32 4 hle)]
      rfl
    · exact ⟨_, _, bind_of_error (h.require_of_lt 4 h4 (hlt 8 rfl))⟩
  rw [if_neg h1, if_neg h1, if_neg h1]
  by_cases h2 : family r = 2
  · rw [if_pos h2, if_pos h2]
    refine ⟨fun n hn hle => ?_, fun hlt => ?_⟩
    · cases hn
      rw [bind_of_ok (h.require_of_le 4 h4 hle), bind_of_ok (h.readMem 4 hle)]
      rfl
    · exact ⟨_, _, bind_of_error (h.require_of_lt 4 h4 (hlt 20 rfl))⟩
  · rw [if_neg h2, if_neg h2]
    exact ⟨nofun, fun _ => ⟨_, _, rfl⟩⟩

theorem readTypes_eq (h : mb.Rest r) : ∀ (n i : Nat), i + 2 * n ≤ r.length →
    readTypes n (mb.setPos (mb.pos + i)) = .ok (typesOf n (r.drop i)) (mb.setPos (mb.pos + (i + 2 * n)))
  | 0, i, _ => rfl
  | n + 1, i, hle => by
    rw [readTypes, bind_of_ok (h.readU16 i (by omega)), bind_of_ok (readTypes_eq h n (i + 2) (by omega))]
    have hdrop : (r.drop i).drop 2 = r.drop (i + 2) := by rw [drop_drop]
    have hpos : i + 2 + 2 * n = i + 2 * (n + 1) := by omega
    rw [typesOf, hdrop, hpos]
    rfl

theorem ReadsBy.guard {c : Prop} [Decidable c] {g : PUnit → MbufM α}
    (hn : ¬ c → n ≤ r.length) (h : ¬ c → f mb = .ok a (mb.setPos (mb.pos + n))) :
    ReadsBy (if c then throw .EBADMSG >>= g else f) mb r (if c then none else some n) a := by
  by_cases hc : c
  · rw [if_pos hc, if_pos hc]
    exact .of_error (bind_of_error rfl)
  · rw [if_neg hc, if_neg hc]
    exact .of_ok (hn hc) (h hc)

theorem strDecode_eq (h : mb.Rest r) (i len : Nat) (hlen : i + len ≤ r.length) :
    strDecode len (mb.setPos (mb.pos + i)) = .ok (slice r i len) (mb.setPos (mb.pos + (i + len))) := by
  unfold strDecode
  rw [bind_of_ok (h.require_of_le i (by omega) hlen), h.readMem i hlen]

theorem valDecode_eq (h : mb.Rest r) {k : Kind} (tid : Bytes) {len : Nat} (hlen : len ≤ r.length) :
    ReadsBy (valDecode k tid len) mb r (valSize k len r) (valOf k tid len r) := by
  cases k with
  | addr => exact (stunAddrDecode_eq h).map
  | xorAddr => exact (stunAddrDecode_eq h).map
  | changeReq =>
    refine .guard (fun _ => by omega) fun _ => ?_
    exact bind_of_ok (h.readU32 0 (by omega))
  | str =>
    refine .of_ok hlen ?_
    have hstr := strDecode_eq h 0 len (by omega)
    rw [Nat.zero_add] at hstr
    exact bind_of_ok hstr
  | integrity =>
    refine .guard (fun _ => by omega) fun _ => ?_
    exact bind_of_ok (h.readMem 0 (by omega))
  | errCode =>
    refine .guard (fun _ => hlen) fun hc => ?_
    have hskip : advance 2 mb = .ok () (mb.setPos (mb.pos + 2)) := rfl
    refine (bind_of_ok hskip).trans ?_
    refine (bind_of_ok (h.readU8 2 (by omega))).trans ?_
    refine (bind_of_ok (h.readU8 3 (by omega))).trans ?_
    have hstr := strDecode_eq h 4 (len - 4) (by omega)
    rw [Nat.add_sub_cancel' (by omega)] at hstr
    exact bind_of_ok hstr
  | unknownAttr =>
    refine .of_ok (by omega) ?_
    have htypes := readTypes_eq h (len / 2) 0 (by omega)
    rw [Nat.zero_add] at htypes
    exact bind_of_ok htypes
  | num16 =>
    refine .guard (fun _ => by omega) fun _ => ?_
    exact bind_of_ok (h.readU16 0 (by omega))
  | num32 =>
    refine .guard (fun _ => by omega) fun _ => ?_
    exact bind_of_ok (h.readU32 0 (by omega))
  | data =>
    refine .of_ok hlen ?_
    show EStateM.Result.ok (AttrVal.data (slice mb.buf mb.pos len)) _ = _
    rw [h.slice hlen]
    rfl
  | num8 | evenPort =>
    refine .guard (fun _ => by omega) fun _ => ?_
    exact bind_of_ok (h.readU8 0 (by omega))
  | flag =>
    refine .guard (fun _ => by omega) fun _ => ?_
    rfl
  | num64 =>
    refine .guard (fun _ => by omega) fun _ => ?_
    exact bind_of_ok (h.readU64 0 (by omega))
  | other => exact .of_ok hlen rfl

/-! ## Attributes -/

def attrType (r : Bytes) : UInt16 := UInt16.ofNat (numAt r 0 2)

def attrLen (r : Bytes) : Nat := (UInt16.ofNat (numAt r 2 2)).toNat

def attrSize (r : Bytes) : Option Nat := valSize (kind (attrType r)) (attrLen r) (r.drop 4)

def attrOf (tid r : Bytes) : Attr := ⟨attrType r, valOf (kind (attrType r)) tid (attrLen r) (r.drop 4)⟩

theorem attrLen_lt (r : Bytes) : attrLen r < 65536 := (UInt16.ofNat (numAt r 2 2)).toNat_lt

theorem stunAttrDecode_head (h : mb.Rest r) {tid : Bytes} {ua : Option (List UInt16)} (h4 : 4 ≤ r.length) :
    stunAttrDecode tid ua mb = (do
      require (attrLen r)
      let start := (← get).pos
      let v ← valDecode (kind (attrType r)) tid (attrLen r)
      modify (skipPadding start 3)
      return (⟨⟨attrType r, v⟩, start, attrLen r⟩, noteUnknown (attrType r) ua) :
        MbufM (Decoded × Option (List UInt16))) (mb.setPos (mb.pos + 4)) := by
  refine (bind_of_ok (h.require_of_le 0 (by omega) (by omega))).trans ?_
  refine (bind_of_ok (h.readU16 0 (by omega))).trans ?_
  exact bind_of_ok (h.readU16 2 (by omega))

theorem stunAttrDecode_ok (h : mb.Rest r) (tid : Bytes) (ua : Option (List UInt16)) (h4 : 4 ≤ r.length)
    (hlen : 4 + attrLen r ≤ r.length) (hn : attrSize r = some n) (hle : 4 + n ≤ r.length) :
    stunAttrDecode tid ua mb = .ok (⟨attrOf tid r, mb.pos + 4, attrLen r⟩, noteUnknown (attrType r) ua)
      (mb.setPos (mb.pos + min (4 + pad4 n) r.length)) := by
  have hlen' : attrLen r ≤ (r.drop 4).length := by rw [length_drop]; omega
  have hval := (valDecode_eq (h.drop h4) tid hlen').1 n hn (by rw [length_drop]; omega)
  have hskip := skipPadding_eq (h.drop h4) (n := n) (by rw [length_drop]; omega)
  have hend : (mb.setPos (mb.pos + 4)).setPos ((mb.setPos (mb.pos + 4)).pos + min (pad4 n) (r.drop 4).length) =
      mb.setPos (mb.pos + min (4 + pad4 n) r.length) := by
    rw [length_drop]
    show mb.setPos (mb.pos + 4 + min (pad4 n) (r.length - 4)) = _
    congr 1
    omega
  rw [stunAttrDecode_head h h4, bind_of_ok (h.require_of_le 4 h4 hlen), get_bind, bind_of_ok hval]
  exact congrArg (EStateM.Result.ok _) (hskip.trans hend)

theorem stunAttrDecode_error (h : mb.Rest r) (tid : Bytes) (ua : Option (List UInt16))
    (hbad : r.length < 4 ∨ r.length < 4 + attrLen r ∨ ∀ n, attrSize r = some n → r.length < 4 + n) :
    ∃ err mb', stunAttrDecode tid ua mb = .error err mb' := by
  by_cases h4 : r.length < 4
  · exact ⟨_, _, bind_of_error (h.require_of_lt 0 (by omega) (by omega))⟩
  rw [Nat.not_lt] at h4
  rw [stunAttrDecode_head h h4]
  by_cases hlen : r.length < 4 + attrLen r
  · exact ⟨_, _, bind_of_error (h.require_of_lt 4 h4 hlen)⟩
  rw [Nat.not_lt] at hlen
  have hsize : ∀ n, attrSize r = some n → r.length < 4 + n := by
    rcases hbad with hbad | hbad | hbad
    · omega
    · omega
    · exact hbad
  have hlen' : attrLen r ≤ (r.drop 4).length := by rw [length_drop]; omega
  obtain ⟨err, mb', herr⟩ := (valDecode_eq (h.drop h4) tid hlen').2 fun n hn => by
    have := hsize n hn
    rw [length_drop]
    omega
  refine ⟨err, mb', ?_⟩
  rw [bind_of_ok (h.require_of_le 4 h4 hlen), get_bind]
  exact bind_of_error herr

theorem stunAttrDecode_cases (h : mb.Rest r) (tid : Bytes) (ua : Option (List UInt16)) :
    (∃ n, attrSize r = some n ∧ 4 + attrLen r ≤ r.length ∧ 4 + n ≤ r.length ∧
      stunAttrDecode tid ua mb = .ok (⟨attrOf tid r, mb.pos + 4, attrLen r⟩, noteUnknown (attrType r) ua)
        (mb.setPos (mb.pos + min (4 + pad4 n) r.length))) ∨
    ∃ err mb', stunAttrDecode tid ua mb = .error err mb' := by
  by_cases hgood : ∃ n, attrSize r = some n ∧ 4 + attrLen r ≤ r.length ∧ 4 + n ≤ r.length
  · obtain ⟨n, hn, hlen, hle⟩ := hgood
    exact .inl ⟨n, hn, hlen, hle, stunAttrDecode_ok h tid ua (by omega) hlen hn hle⟩
  refine .inr (stunAttrDecode_error h tid ua ?_)
  by_cases hlen : r.length < 4 + attrLen r
  · exact .inr (.inl hlen)
  refine .inr (.inr fun n hn => ?_)
  by_contra hle
  exact hgood ⟨n, hn, Nat.not_lt.1 hlen, Nat.not_lt.1 hle⟩

/-! ## Headers -/

def hdrOf (r : Bytes) : Hdr where
  type := UInt16.ofNat (numAt r 0 2)
  len := UInt16.ofNat (numAt r 2 2)
  cookie := UInt32.ofNat (numAt r 4 4)
  tid := slice r 8 12

structure HdrOk (r : Bytes) : Prop where
  size : headerSize ≤ r.length
  type : (hdrOf r).type &&& 0xc000 = 0
  len : (hdrOf r).len &&& 0x3 = 0
  fits : headerSize + (hdrOf r).len.toNat ≤ r.length

theorem stunHdrDecode_head (h : mb.Rest r) (hsize : headerSize ≤ r.length) :
    stunHdrDecode mb = (do
      if (hdrOf r).type &&& 0xc000 ≠ 0 then throw .EBADMSG
      let len ← Mbuf.readU16
      if len &&& 0x3 ≠ 0 then throw .EBADMSG
      let cookie ← Mbuf.readU32
      let tid ← Mbuf.readMem 12
      require len.toNat
      return { type := (hdrOf r).type, len, cookie, tid } : MbufM Hdr) (mb.setPos (mb.pos + 2)) := by
  unfold headerSize at hsize
  refine (bind_of_ok (h.require_of_le 0 (by omega) (by unfold headerSize; omega))).trans ?_
  exact bind_of_ok (h.readU16 0 (by omega))

theorem stunHdrDecode_body (h : mb.Rest r) (hsize : headerSize ≤ r.length) (htype : (hdrOf r).type &&& 0xc000 = 0)
    (hlen : (hdrOf r).len &&& 0x3 = 0) :
    stunHdrDecode mb = (do
      require (hdrOf r).len.toNat
      return hdrOf r : MbufM Hdr) (mb.setPos (mb.pos + headerSize)) := by
  have hpos : 20 ≤ r.length := hsize
  rw [stunHdrDecode_head h hsize, if_neg (not_not.2 htype)]
  refine (bind_of_ok (h.readU16 2 (by omega))).trans ?_
  refine (congrFun (if_neg (not_not.2 hlen)) _).trans ?_
  refine (bind_of_ok (h.readU32 4 (by omega))).trans ?_
  exact bind_of_ok (h.readMem 8 (by omega))

theorem stunHdrDecode_ok (h : mb.Rest r) (hok : HdrOk r) :
    stunHdrDecode mb = .ok (hdrOf r) (mb.setPos (mb.pos + headerSize)) := by
  rw [stunHdrDecode_body h hok.size hok.type hok.len, bind_of_ok (h.require_of_le _ hok.size hok.fits)]
  rfl

theorem hdrOk_of_ok (h : mb.Rest r) {hdr : Hdr} {mb' : Mbuf} (hdec : stunHdrDecode mb = .ok hdr mb') :
    HdrOk r ∧ hdr = hdrOf r := by
  have hsize : headerSize ≤ r.length := by
    by_contra hlt
    have herr : stunHdrDecode mb = .error .EBADMSG mb := bind_of_error (h.require_of_lt 0 (by omega) (by omega))
    rw [herr] at hdec
    cases hdec
  have htype : (hdrOf r).type &&& 0xc000 = 0 := by
    by_contra hne
    rw [stunHdrDecode_head h hsize, if_pos hne] at hdec
    cases hdec
  have hlen : (hdrOf r).len &&& 0x3 = 0 := by
    by_contra hne
    have herr : stunHdrDecode mb = .error .EBADMSG (mb.setPos (mb.pos + 4)) := by
      rw [stunHdrDecode_head h hsize, if_neg (not_not.2 htype)]
      refine (bind_of_ok (h.readU16 2 (le_trans (by decide) hsize))).trans ?_
      exact congrFun (if_pos hne) _
    rw [herr] at hdec
    cases hdec
  rw [stunHdrDecode_body h hsize htype hlen] at hdec
  obtain ⟨hfits, hdec⟩ := (h.drop hsize).require_ok hdec
  rw [length_drop] at hfits
  refine ⟨⟨hsize, htype, hlen, by omega⟩, ?_⟩
  cases hdec
  rfl

end Stun
end BareRTC
