import BareRTC.Turn.Client
import BareRTC.Stun.Proof.Read

/-!
# What a TURN client hands on

Channel data is handed on from its header to the end of the buffer, whatever its length field says:
the receive functions compare the field with what is left and then leave the end where it was. So
the payload is right exactly if nothing follows it (`handsOn_iff`). A Data indication is handed on
by the place of its `DATA` attribute, which is right in every case (`dataInd_handsOn`).
-/

namespace BareRTC.Turn

open List

open Sdp (Sa)
open Stun Mbuf

variable {t : Turnc} {src : Sa} {mb : Mbuf} {r : Bytes} {c : Chan}

/-! ## Channel data is no STUN message -/

theorem lt_of_and_eq_zero {x : UInt16} (h : x &&& 0xc000 = 0) : x < chanNumbMin := by
  have hnat : x.toNat &&& 0xc000 = 0 := by
    have := congrArg UInt16.toNat h
    rwa [UInt16.toNat_and] at this
  have hshift : (x.toNat >>> 14) &&& (2 ^ 2 - 1) = 0 := by
    have := congrArg (· >>> 14) hnat
    rwa [Nat.shiftRight_and_distrib] at this
  rw [Nat.and_two_pow_sub_one_eq_mod, Nat.shiftRight_eq_div_pow] at hshift
  have hlt := x.toNat_lt
  rw [UInt16.lt_iff_toNat_lt]
  show x.toNat < 16384
  omega

def chanHdrOf (r : Bytes) : ChanHdr := ⟨UInt16.ofNat (numAt r 0 2), UInt16.ofNat (numAt r 2 2)⟩

structure ChannelData (t : Turnc) (r : Bytes) (c : Chan) : Prop where
  size : 4 ≤ r.length
  bound : turncChanFindNumb t.chans (chanHdrOf r).nr = some c
  fits : 4 + (chanHdrOf r).len.toNat ≤ r.length

theorem ChannelData.min_le (h : ChannelData t r c) : chanNumbMin ≤ (chanHdrOf r).nr := by
  have hmem := mem_of_find?_eq_some h.bound
  have hnr : c.nr = (chanHdrOf r).nr := by simpa using find?_some h.bound
  rw [← hnr]
  exact (t.chans.numbered c hmem).1

theorem ChannelData.not_stun (h : ChannelData t r c) (hr : mb.Rest r) {ua : Option (List UInt16)} :
    ∃ err ua', stunMsgDecode mb ua = (.error err, ua') := by
  unfold stunMsgDecode
  cases hdec : stunHdrDecode mb with
  | error err mb' => exact ⟨err, ua, rfl⟩
  | ok hdr mb' =>
    obtain ⟨hok, -⟩ := hdrOk_of_ok hr hdec
    have hlt : (chanHdrOf r).nr < chanNumbMin := lt_of_and_eq_zero hok.type
    exact absurd h.min_le (UInt16.not_le.2 hlt)

theorem turncChanHdrDecode_ok (hr : mb.Rest r) (hsize : 4 ≤ r.length) :
    turncChanHdrDecode mb = .ok (chanHdrOf r) (mb.setPos (mb.pos + 4)) := by
  have hleft : ¬ mb.getLeft < 4 := by
    rw [hr.getLeft]
    omega
  unfold turncChanHdrDecode
  rw [get_bind, if_neg hleft]
  refine (bind_of_ok (hr.readU16 0 (by omega))).trans ?_
  exact bind_of_ok (hr.readU16 2 (by omega))

/-! ## Attributes of memory -/

def InPlace (buf : Bytes) (d : Decoded) : Prop := kind d.attr.type = .data → d.attr.v = .data (slice buf d.start d.len)

theorem attrLoop_inPlace {tid : Bytes} {extra : Nat} : ∀ (fuel : Nat) {r : Bytes} {mb : Mbuf} (acc : List Decoded)
    (ua ua' : Option (List UInt16)) (l : List Decoded), mb.Rest r → (∀ d ∈ acc, InPlace mb.buf d) →
    attrLoop tid extra fuel acc ua mb = (.ok l, ua') → ∀ d ∈ l, InPlace mb.buf d := by
  intro fuel
  induction fuel with
  | zero =>
    intro r mb acc ua ua' l hr hacc hl
    cases hl
    exact hacc
  | succ fuel ih =>
    intro r mb acc ua ua' l hr hacc hl
    rw [attrLoop] at hl
    split at hl
    · rcases stunAttrDecode_cases hr tid ua with ⟨n, hn, hlen, hle, hdec⟩ | ⟨err, mb', hdec⟩
      · rw [hdec] at hl
        have hnew : InPlace mb.buf ⟨attrOf tid r, mb.pos + 4, attrLen r⟩ := by
          intro hkind
          have hslice := (hr.drop (n := 4) (by omega)).slice (n := attrLen r) (by rw [length_drop]; omega)
          show valOf (kind (attrType r)) tid (attrLen r) (r.drop 4) = _
          rw [show kind (attrType r) = .data from hkind]
          exact congrArg AttrVal.data hslice.symm
        have hrest := hr.drop (n := min (4 + pad4 n) r.length) (Nat.min_le_right _ _)
        have hall := ih (acc ++ [⟨attrOf tid r, mb.pos + 4, attrLen r⟩]) (noteUnknown (attrType r) ua) ua' l hrest
        refine hall ?_ hl
        intro d hd
        rcases mem_append.1 hd with hd | hd
        · exact hacc d hd
        · rw [mem_singleton.1 hd]
          exact hnew
      · rw [hdec] at hl
        cases hl
    · cases hl
      exact hacc

theorem stunMsgDecode_inPlace (hr : mb.Rest r) {ua ua' : Option (List UInt16)} {msg : Msg}
    (h : stunMsgDecode mb ua = (.ok msg, ua')) : ∀ d ∈ msg.attrl, InPlace mb.buf d := by
  unfold stunMsgDecode at h
  cases hdec : stunHdrDecode mb with
  | error err mb' =>
    rw [hdec] at h
    cases h
  | ok hdr mb' =>
    obtain ⟨hok, -⟩ := hdrOk_of_ok hr hdec
    have hmb : mb' = mb.setPos (mb.pos + headerSize) := by
      rw [stunHdrDecode_ok hr hok] at hdec
      cases hdec
      rfl
    rw [hdec] at h
    dsimp only at h
    cases hloop : attrLoop hdr.tid (mb'.getLeft - hdr.len.toNat) (mb'.getLeft + 1) []
        (Option.map (fun _ => []) ua) mb' with
    | mk res ua'' =>
      rw [hloop] at h
      cases res with
      | error err => cases h
      | ok l =>
        cases h
        rw [hmb] at hloop
        have hall := attrLoop_inPlace _ [] _ _ l (hr.drop hok.size) nofun hloop
        exact hall

def DataInd (mb : Mbuf) (peer : Sa) (d : Bytes) : Prop :=
  ∃ msg, stunMsgDecode mb (some []) = (.ok msg, some []) ∧ stunMsgClass msg = 1 ∧ stunMsgMethod msg = 0x007 ∧
    stunMsgAttr msg Attrib.xorPeerAddr.code = some (.xorAddr peer) ∧
    stunMsgAttr msg Attrib.data.code = some (.data d)

/-! ## Both receive functions -/

structure Hands (p : Packet) (peer : Sa) (d : Bytes) : Prop where
  src : p.src = peer
  left : p.mb.left = d

def HandsOn (t : Turnc) (src : Sa) (mb : Mbuf) (peer : Sa) (d : Bytes) : Prop :=
  ((udpRecvHandler t src mb).1 = false ∧ Hands (udpRecvHandler t src mb).2 peer d) ∧
  ((turncRecv t src mb).1 = none ∧ Hands (turncRecv t src mb).2 peer d)

theorem handsOn_of_eq {peer : Sa} {mb' : Mbuf} (hudp : udpRecvHandler t src mb = (false, ⟨peer, mb', none⟩))
    (hrecv : turncRecv t src mb = (none, ⟨peer, mb', none⟩)) (peer' : Sa) (d : Bytes) :
    HandsOn t src mb peer' d ↔ peer = peer' ∧ mb'.left = d := by
  unfold HandsOn
  rw [hudp, hrecv]
  constructor
  · rintro ⟨⟨-, h⟩, -⟩
    exact ⟨h.src, h.left⟩
  · rintro ⟨hpeer, hleft⟩
    exact ⟨⟨rfl, hpeer, hleft⟩, rfl, hpeer, hleft⟩

theorem ChannelData.handsOn_iff (h : ChannelData t r c) (hsrc : t.srv = src ∨ t.psrv = src)
    (hr : mb.Rest r) {d : Bytes} : HandsOn t src mb c.peer d ↔ r.drop 4 = d := by
  obtain ⟨err, ua, hdec⟩ := h.not_stun hr
  have hhdr := turncChanHdrDecode_ok hr h.size
  have hleft : ¬ (mb.setPos (mb.pos + 4)).getLeft < (chanHdrOf r).len.toNat := by
    have := h.fits
    rw [hr.getLeft_at]
    omega
  have hudp : udpRecvHandler t src mb = (false, ⟨c.peer, mb.setPos (mb.pos + 4), none⟩) := by
    unfold udpRecvHandler
    rw [if_neg (by tauto), hdec]
    dsimp only
    rw [hhdr]
    dsimp only
    rw [if_neg hleft, h.bound]
  have hrecv : turncRecv t src mb = (none, ⟨c.peer, mb.setPos (mb.pos + 4), none⟩) := by
    unfold turncRecv
    rw [hdec]
    dsimp only
    rw [hhdr]
    dsimp only
    rw [if_neg hleft, h.bound]
  rw [handsOn_of_eq hudp hrecv, (hr.drop h.size).left]
  exact and_iff_right rfl

theorem dataInd_handsOn {peer : Sa} {d : Bytes} (h : DataInd mb peer d) (hsrc : t.srv = src ∨ t.psrv = src)
    (hr : mb.Rest r) : HandsOn t src mb peer d := by
  obtain ⟨msg, hdec, hclass, hmethod, hpeer, hdata⟩ := h
  obtain ⟨a, ha, hv⟩ := Option.map_eq_some_iff.1 hdata
  have htype : a.attr.type = Attrib.data.code := by simpa using find?_some ha
  have hplace := stunMsgDecode_inPlace hr hdec a (mem_of_find?_eq_some ha) (by rw [htype]; decide)
  have hleft : ((mb.setPos a.start).setEnd (a.start + a.len)).left = d := by
    rw [hplace] at hv
    rw [← AttrVal.data.inj hv]
    simp [Mbuf.left, Mbuf.getLeft, setPos, setEnd]
  have hudp : udpRecvHandler t src mb = (false, ⟨peer, (mb.setPos a.start).setEnd (a.start + a.len), none⟩) := by
    unfold udpRecvHandler
    rw [if_neg (by tauto), hdec]
    dsimp only
    rw [if_pos hclass, if_neg (not_not.2 rfl), if_neg (not_not.2 hmethod), hpeer,
      show stunMsgDecoded msg Attrib.data.code = some a from ha]
  have hrecv : turncRecv t src mb = (none, ⟨peer, (mb.setPos a.start).setEnd (a.start + a.len), none⟩) := by
    unfold turncRecv
    rw [hdec]
    dsimp only
    rw [if_pos hclass, if_neg (not_not.2 rfl), if_neg (not_not.2 hmethod), hpeer,
      show stunMsgDecoded msg Attrib.data.code = some a from ha]
  rw [handsOn_of_eq hudp hrecv]
  exact ⟨rfl, hleft⟩

def Delivers (t : Turnc) (src : Sa) (mb : Mbuf) (r : Bytes) : Prop :=
  (∀ c, ChannelData t r c → HandsOn t src mb c.peer (slice r 4 (chanHdrOf r).len.toNat)) ∧
  ∀ peer d, DataInd mb peer d → HandsOn t src mb peer d

/-- **What the server sends is handed on as it is** exactly if nothing follows the payload of
channel data. -/
theorem delivers_iff (t : Turnc) (src : Sa) (mb : Mbuf) (r : Bytes) (hsrc : t.srv = src ∨ t.psrv = src)
    (hr : mb.Rest r) :
    Delivers t src mb r ↔ ∀ c, ChannelData t r c → r.length = 4 + (chanHdrOf r).len.toNat := by
  constructor
  · intro h c hc
    have hlen := congrArg List.length ((hc.handsOn_iff hsrc hr).1 (h.1 c hc))
    have := hc.fits
    rw [length_slice hc.fits, length_drop] at hlen
    omega
  intro h
  refine ⟨fun c hc => (hc.handsOn_iff hsrc hr).2 ?_, fun peer d hd => dataInd_handsOn hd hsrc hr⟩
  rw [slice, take_of_length_le]
  rw [length_drop, h c hc]
  omega

/-! A client with one channel, and three bytes in a packet padded to eight. -/

def oneChan : Turnc where
  srv := ⟨.inet 0xcb007101, 3478⟩
  psrv := ⟨.inet 0xcb007101, 3478⟩
  chans := (turncAddChan ⟨.inet 0xc0000201, 5000⟩ true none turncChanHashAlloc).2

def padded : Bytes := [0x40, 0, 0, 3, 1, 2, 3, 0]

theorem delivers_iff_padded : Delivers oneChan oneChan.srv ⟨padded, 0, 8⟩ padded ↔
    ∀ c, ChannelData oneChan padded c → padded.length = 4 + (chanHdrOf padded).len.toNat :=
  delivers_iff oneChan oneChan.srv ⟨padded, 0, 8⟩ padded (.inl rfl) ⟨⟨by decide, by decide⟩, by decide⟩

theorem padded_handed_on :
    ChannelData oneChan padded ⟨0x4000, ⟨.inet 0xc0000201, 5000⟩⟩ ∧
    slice padded 4 (chanHdrOf padded).len.toNat = [1, 2, 3] ∧
    (udpRecvHandler oneChan oneChan.srv ⟨padded, 0, 8⟩).2.mb.left = [1, 2, 3, 0] ∧
    (turncRecv oneChan oneChan.srv ⟨padded, 0, 8⟩).2.mb.left = [1, 2, 3, 0] := by
  refine ⟨⟨by decide, by decide +kernel, by decide⟩, by decide, by decide +kernel, by decide +kernel⟩

end BareRTC.Turn
