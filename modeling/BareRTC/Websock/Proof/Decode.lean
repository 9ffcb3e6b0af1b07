import BareRTC.Re.Rest
import BareRTC.Websock.Conn

/-!
# The length of a frame

With a mask the sum of the length and the four bytes of the key is compared with what there is, and
for the four largest lengths the sum wraps: then the frame is accepted with almost nothing in the
buffer. Every other frame that is accepted is there (`websockDecode_inside_iff`).
-/

namespace BareRTC.Websock

open List

open Mbuf

/-! ## The header -/

def extSize (x : UInt8) : Nat := if x &&& 0x7f = 126 then 2 else if x &&& 0x7f = 127 then 8 else 0

def lenOf (x : UInt8) (t : Bytes) : UInt64 :=
  if x &&& 0x7f = 126 then (UInt16.ofNat (beNat (t.take 2))).toUInt64
  else if x &&& 0x7f = 127 then UInt64.ofNat (beNat (t.take 8))
  else (x &&& 0x7f).toUInt64

def hdrOf (v x : UInt8) (t : Bytes) : Hdr := ⟨bit v 7, bit v 6, bit v 5, bit v 4, v &&& 0x0f, bit x 7, lenOf x t, []⟩

section
variable {mb : Mbuf} {w t : Bytes} {v x : UInt8}

theorem need_of_le {n : Nat} (h : n ≤ mb.getLeft) : need n mb = .ok () mb := if_neg (Nat.not_lt.2 h)

theorem need_of_lt {n : Nat} (h : mb.getLeft < n) : need n mb = .error .ENODATA mb := if_pos h

theorem decodeHead_short (hr : mb.Rest w) (h : w.length < 2) : decodeHead mb = .error .ENODATA mb := by
  unfold decodeHead
  exact bind_of_error (need_of_lt (by rw [hr.getLeft]; exact h))

theorem beNat_singleton (b : UInt8) : UInt8.ofNat (beNat [b]) = b := by
  simp [beNat]

theorem decodeHead_eq (hr : mb.Rest (v :: x :: t)) :
    if t.length < extSize x then ∃ mb', decodeHead mb = .error .ENODATA mb'
    else decodeHead mb = .ok (hdrOf v x t) (mb.setPos (mb.pos + (2 + extSize x))) := by
  have hlen : (v :: x :: t).length = t.length + 2 := rfl
  have hv : readU8 mb = .ok v (mb.setPos (mb.pos + 1)) :=
    (hr.readU8 0 (by omega)).trans (by rw [show slice (v :: x :: t) 0 1 = [v] from rfl, beNat_singleton])
  have hx : readU8 (mb.setPos (mb.pos + 1)) = .ok x (mb.setPos (mb.pos + 2)) :=
    (hr.readU8 1 (by omega)).trans (by rw [show slice (v :: x :: t) 1 1 = [x] from rfl, beNat_singleton])
  have hleft : (mb.setPos (mb.pos + 2)).getLeft = t.length := by rw [hr.getLeft_at]; rfl
  unfold decodeHead
  rw [bind_of_ok (need_of_le (by rw [hr.getLeft]; omega)), bind_of_ok hv, bind_of_ok hx]
  by_cases h126 : x &&& 0x7f = 126
  · simp only [if_pos h126, extSize]
    split
    · rename_i hlt
      exact ⟨_, bind_of_error (need_of_lt (by rw [hleft]; exact hlt))⟩
    rename_i hle
    rw [bind_of_ok (need_of_le (by rw [hleft]; exact Nat.not_lt.1 hle)), bind_of_ok (hr.readU16 2 (by omega))]
    simp only [hdrOf, lenOf, if_pos h126]
    rfl
  by_cases h127 : x &&& 0x7f = 127
  · simp only [if_neg h126, if_pos h127, extSize]
    split
    · rename_i hlt
      exact ⟨_, bind_of_error (need_of_lt (by rw [hleft]; exact hlt))⟩
    rename_i hle
    rw [bind_of_ok (need_of_le (by rw [hleft]; exact Nat.not_lt.1 hle)), bind_of_ok (hr.readU64 2 (by omega))]
    simp only [hdrOf, lenOf, if_neg h126, if_pos h127]
    rfl
  · simp only [if_neg h126, if_neg h127, extSize, hdrOf, lenOf]
    rw [if_neg (Nat.not_lt_zero _)]
    rfl

/-! ## The key -/

structure Moved (n : Nat) (mb mb' : Mbuf) : Prop where
  buf : mb'.buf = mb.buf
  endPos : mb'.endPos = mb.endPos
  left : mb'.getLeft = mb.getLeft - n
  ok : mb.Ok → mb'.Ok

theorem Moved.trans {n m : Nat} {a b c : Mbuf} (h : Moved n a b) (h' : Moved m b c) : Moved (n + m) a c where
  buf := h'.buf.trans h.buf
  endPos := h'.endPos.trans h.endPos
  left := by rw [h'.left, h.left, Nat.sub_sub]
  ok hok := h'.ok (h.ok hok)

theorem readU8_moved : ∃ b mb', readU8 mb = .ok b mb' ∧ Moved 1 mb mb' := by
  by_cases h : 1 ≤ mb.getLeft
  · refine ⟨UInt8.ofNat (beNat (slice mb.buf mb.pos 1)), mb.setPos (mb.pos + 1), bind_of_ok (readNat_of_le h), rfl, rfl,
      ?_, fun hok => ⟨?_, hok.endPos⟩⟩
    · rw [getLeft_setPos, getLeft, Nat.sub_sub]
    · rw [getLeft] at h
      show mb.pos + 1 ≤ mb.endPos
      omega
  have hnat : readNat 1 mb = .ok 0 mb := by
    have hmem : readMem 1 mb = .error .EOVERFLOW mb := if_pos (by omega)
    rw [readNat, hmem]
  exact ⟨0, mb, bind_of_ok hnat, rfl, rfl, by omega, id⟩

theorem readKey_moved (mb : Mbuf) : ∃ k mb', readKey mb = .ok k mb' ∧ Moved 4 mb mb' := by
  obtain ⟨a, mb1, ha, h1⟩ := readU8_moved
  obtain ⟨b, mb2, hb, h2⟩ := readU8_moved
  obtain ⟨c, mb3, hc, h3⟩ := readU8_moved
  obtain ⟨d, mb4, hd, h4⟩ := readU8_moved
  refine ⟨[a, b, c, d], mb4, ?_, ((h1.trans h2).trans h3).trans h4⟩
  unfold readKey
  rw [bind_of_ok ha, bind_of_ok hb, bind_of_ok hc, bind_of_ok hd]
  rfl

end

/-! ## Frames that are accepted -/

def Decoded.Inside : Decoded → Prop
  | .nodata => True
  | .frame hdr mb => hdr.len.toNat ≤ mb.getLeft
  | .fault => False

def Wraps (w : Bytes) : Prop :=
  ∃ v len rest, w = v :: 0xff :: (beBytes 8 len ++ rest) ∧ len < 2 ^ 64 ∧ 2 ^ 64 ≤ len + 4 ∧
    len + 4 - 2 ^ 64 ≤ rest.length ∧ rest.length < len + 4

theorem mask_len_iff (x : UInt8) : x = 0xff ↔ bit x 7 ∧ x &&& 0x7f = 127 := by
  revert x
  refine forall_uint8 ?_
  decide +kernel

theorem lenOf_lt {x : UInt8} (t : Bytes) (h : x &&& 0x7f ≠ 127) : (lenOf x t).toNat < 2 ^ 16 := by
  rw [lenOf, if_neg h]
  split
  · rw [UInt16.toNat_toUInt64]
    exact UInt16.toNat_lt _
  have hlt := (x &&& 0x7f).toNat_lt
  rw [UInt8.toNat_toUInt64]
  omega

theorem lenOf_toNat {t : Bytes} (h8 : 8 ≤ t.length) : (lenOf 0xff t).toNat = beNat (t.take 8) := by
  have hlt := beNat_lt (t.take 8)
  rw [length_take, Nat.min_eq_left h8] at hlt
  exact UInt64.toNat_ofNat_of_lt' hlt

theorem wraps_iff (v x : UInt8) (t : Bytes) :
    Wraps (v :: x :: t) ↔ x = 0xff ∧ 8 ≤ t.length ∧ 2 ^ 64 ≤ (lenOf x t).toNat + 4 ∧
      (lenOf x t).toNat + 4 - 2 ^ 64 ≤ t.length - 8 ∧ t.length - 8 < (lenOf x t).toNat + 4 := by
  constructor
  · rintro ⟨v', len, rest, heq, hlt, hsum, hmin, hmax⟩
    obtain ⟨rfl, rfl, rfl⟩ : v = v' ∧ x = 0xff ∧ t = beBytes 8 len ++ rest := by simpa using heq
    have h8 : (beBytes 8 len ++ rest).length = 8 + rest.length := by rw [length_append, length_beBytes]
    rw [lenOf_toNat (by omega), take_left' (length_beBytes 8 len), beNat_beBytes, Nat.mod_eq_of_lt (by omega), h8]
    exact ⟨rfl, by omega, hsum, by omega, by omega⟩
  rintro ⟨rfl, h8, hsum, hmin, hmax⟩
  rw [lenOf_toNat h8] at hsum hmin hmax
  have hlen : (t.take 8).length = 8 := by rw [length_take, Nat.min_eq_left h8]
  have hlt := beNat_lt (t.take 8)
  rw [hlen] at hlt
  refine ⟨v, beNat (t.take 8), t.drop 8, ?_, hlt, hsum, ?_, ?_⟩
  · have hback := beBytes_beNat (t.take 8)
    rw [hlen] at hback
    rw [hback, take_append_drop]
  · rw [length_drop]
    exact hmin
  · rw [length_drop]
    exact hmax

theorem masked_inside_iff {mb : Mbuf} {hdr : Hdr} {mb' : Mbuf} (hok : mb'.Ok) (hdec : decodeHead mb = .ok hdr mb')
    (hmask : hdr.mask) :
    (websockDecode mb).Inside ↔ mb'.getLeft < (4 + hdr.len.toNat) % 2 ^ 64 ∨ 4 + hdr.len.toNat ≤ mb'.getLeft := by
  obtain ⟨k, mb4, hkey, hmoved⟩ := readKey_moved mb'
  have hsum : (4 + hdr.len).toNat = (4 + hdr.len.toNat) % 2 ^ 64 := UInt64.toNat_add _ _
  have hlen := hdr.len.toNat_lt
  have hleft := hmoved.left
  have hpos := (hmoved.ok hok).pos
  have hend := (hmoved.ok hok).endPos
  unfold websockDecode
  simp only [hdec, if_pos hmask, hkey, hsum]
  split
  · rename_i hlt
    exact iff_of_true trivial (.inl hlt)
  rename_i hge
  split
  · rename_i hfault
    refine iff_of_false id ?_
    rw [getLeft] at hleft
    omega
  · have hpoke : (mb4.poke mb4.pos (xorKey k (slice mb4.buf mb4.pos hdr.len.toNat))).getLeft = mb4.getLeft := rfl
    show hdr.len.toNat ≤ _ ↔ _
    omega

theorem plain_inside {mb : Mbuf} {hdr : Hdr} {mb' : Mbuf} (hdec : decodeHead mb = .ok hdr mb')
    (hmask : hdr.mask = false) : (websockDecode mb).Inside := by
  unfold websockDecode
  simp only [hdec, hmask, Bool.false_eq_true, if_false]
  split
  · trivial
  · rename_i hle
    exact Nat.not_lt.1 hle

theorem nodata_inside {mb mb' : Mbuf} {err : Errno} (hdec : decodeHead mb = .error err mb') :
    (websockDecode mb).Inside := by
  unfold websockDecode
  rw [hdec]
  trivial

/-- For all that can be received: a frame is accepted only if it is in the buffer, and the mask is
taken off inside of it, exactly if the sum of the length and the size of the key does not wrap. -/
theorem websockDecode_inside_iff (mb : Mbuf) (hok : mb.Ok) : (websockDecode mb).Inside ↔ ¬ Wraps mb.left := by
  have hr : mb.Rest mb.left := ⟨hok, rfl⟩
  match hw : mb.left with
  | [] | [_] =>
    rw [hw] at hr
    refine iff_of_true (nodata_inside (decodeHead_short hr (by simp))) ?_
    rintro ⟨v, len, rest, hv, -⟩
    cases hv
  | v :: x :: t =>
    rw [hw] at hr
    have hhead := decodeHead_eq hr
    have hwrap := wraps_iff v x t
    split at hhead
    · rename_i hlt
      obtain ⟨mb', herr⟩ := hhead
      refine iff_of_true (nodata_inside herr) ?_
      rw [hwrap]
      rintro ⟨rfl, h8, -⟩
      exact absurd hlt (by rw [show extSize 0xff = 8 from rfl]; omega)
    rename_i hle
    have hdrop := hr.drop (n := 2 + extSize x) (by simp only [length_cons]; omega)
    have hleft : (mb.setPos (mb.pos + (2 + extSize x))).getLeft = t.length - extSize x := by
      rw [hr.getLeft_at]
      simp only [length_cons]
      omega
    cases hmask : bit x 7 with
    | false =>
      refine iff_of_true (plain_inside hhead hmask) ?_
      rw [hwrap]
      rintro ⟨hx, -⟩
      rw [((mask_len_iff x).1 hx).1] at hmask
      cases hmask
    | true =>
      rw [masked_inside_iff hdrop.ok hhead hmask, hwrap, hleft]
      show _ < (4 + (lenOf x t).toNat) % 2 ^ 64 ∨ 4 + (lenOf x t).toNat ≤ _ ↔ _
      have hlt := (lenOf x t).toNat_lt
      by_cases h127 : x &&& 0x7f = 127
      · have hx := (mask_len_iff x).2 ⟨hmask, h127⟩
        subst hx
        rw [show extSize 0xff = 8 from rfl] at hle ⊢
        simp only [true_and]
        omega
      have hsmall := lenOf_lt t h127
      have hx : x ≠ 0xff := fun hx => h127 ((mask_len_iff x).1 hx).2
      simp only [hx, false_and, not_false_eq_true, iff_true]
      omega

def wrapBuf : Mbuf := ⟨[0x82, 0xff, 0xff, 0xff, 0xff, 0xff, 0xff, 0xff, 0xff, 0xfc], 0, 10⟩

theorem websockDecode_inside_iff_wrapBuf : (websockDecode wrapBuf).Inside ↔ ¬ Wraps wrapBuf.left :=
  websockDecode_inside_iff wrapBuf ⟨by decide, by decide⟩

/-- The mask of `2 ^ 64 - 4` bytes is taken off in a buffer of ten, when a server receives them. -/
theorem wrapped_length_fault :
    websockDecode wrapBuf = .fault ∧ ¬ (websockDecode wrapBuf).Inside ∧
      ∀ env : RecvEnv, (step ⟨none, .opened, false, true⟩ (env, wrapBuf)).2 = [.fault] := by
  have hfault : websockDecode wrapBuf = .fault := by decide +kernel
  refine ⟨hfault, by rw [hfault]; exact id, fun env => ?_⟩
  simp only [step, recvHandler, reduceCtorEq, if_false]
  rw [recvLoop]
  simp only [hfault]

end BareRTC.Websock
