import BareRTC.Stun.Proof.Read

/-!
# The end of a message

A message ends after the length of its header, whatever follows in the buffer. The decoder compares
the length field of an attribute with what is left in the buffer, and moves over what it reads of
the value: for addresses and short numbers this is not the length field. So an attribute whose
length field reaches past the end of the message is read if enough bytes follow the message, and
refused otherwise; if the bytes that are read reach past the end, the loop goes on in what follows
and fails in any case (`attrLoop_past`). The bytes after the message matter exactly if its
attributes can be read to the end and a length field reaches past it (`decode_local_iff`).
-/

namespace BareRTC.Stun

open List

open Sdp (Sa)
open Mbuf

/-! ## What follows a value -/

variable {n : Nat} {tid t p : Bytes} {mb : Mbuf} {msg : Msg}

section
variable {v t : Bytes}

theorem numAt_zero_append (h : n ≤ v.length) : numAt (v ++ t) 0 n = numAt v 0 n := numAt_append (by omega)

theorem family_append (h : 2 ≤ v.length) : family (v ++ t) = family v := by rw [family, family, numAt_append h]

theorem valSize_addr {k : Kind} (hk : k = .addr ∨ k = .xorAddr) {len n : Nat} {r : Bytes}
    (h : valSize k len r = some n) : (family r = 1 ∧ n = 8) ∨ n = 20 := by
  have h' : (if family r = 1 then some 8 else if family r = 2 then some 20 else none) = some n := by
    rcases hk with rfl | rfl <;> exact h
  split at h'
  · rename_i h1
    exact .inl ⟨h1, (Option.some.inj h').symm⟩
  split at h'
  · exact .inr (Option.some.inj h').symm
  · cases h'

theorem valSize_append {k : Kind} {len : Nat} :
    (valSize k len (v ++ t) = some n ∧ n ≤ v.length) ↔ (valSize k len v = some n ∧ n ≤ v.length) := by
  cases k with
  | addr | xorAddr =>
    by_cases h2 : 2 ≤ v.length
    · simp only [valSize, family_append h2]
    constructor <;> rintro ⟨h, hle⟩ <;> rcases valSize_addr (by simp) h with ⟨-, rfl⟩ | rfl <;> omega
  | changeReq | str | integrity | errCode | unknownAttr | num16 | num32 | data | num8 | evenPort | flag | num64
  | other => exact Iff.rfl

theorem typesOf_append : ∀ {v : Bytes}, 2 * n ≤ v.length → typesOf n (v ++ t) = typesOf n v := by
  induction n with
  | zero => exact fun _ => rfl
  | succ n ih =>
    intro v h
    rw [typesOf, typesOf, numAt_append (by omega), drop_append_of_le_length (by omega), ih (by rw [length_drop]; omega)]

theorem saOf_append {tid : Option Bytes} (h : (family v = 1 ∧ 8 ≤ v.length) ∨ 20 ≤ v.length) :
    saOf tid (v ++ t) = saOf tid v := by
  have hfam : family (v ++ t) = family v := family_append (by omega)
  unfold saOf
  rw [hfam, numAt_append (by omega)]
  by_cases h1 : family v = 1
  · simp only [if_pos h1, numAt_append (show 4 + 4 ≤ v.length by omega)]
  · have h20 : 20 ≤ v.length := h.resolve_left fun h => h1 h.1
    simp only [if_neg h1, slice_append_of_le (show 4 + 16 ≤ v.length by omega)]

theorem valOf_append {k : Kind} {len n : Nat} (tid : Bytes) (hn : valSize k len v = some n) (hle : n ≤ v.length) :
    valOf k tid len (v ++ t) = valOf k tid len v := by
  have haddr : k = .addr ∨ k = .xorAddr → (family v = 1 ∧ 8 ≤ v.length) ∨ 20 ≤ v.length := by
    intro hk
    rcases valSize_addr hk hn with ⟨h1, rfl⟩ | rfl
    · exact .inl ⟨h1, hle⟩
    · exact .inr hle
  cases k with
  | addr => simp only [valOf, saOf_append (haddr (.inl rfl))]
  | xorAddr => simp only [valOf, saOf_append (haddr (.inr rfl))]
  | changeReq | num32 | num64 | num8 | evenPort | num16 =>
    simp only [valSize] at hn
    split at hn
    · cases hn
    · cases hn
      simp only [valOf, numAt_zero_append hle]
  | str | data =>
    cases hn
    simp only [valOf, take_append_of_le_length hle]
  | integrity =>
    simp only [valSize] at hn
    split at hn
    · cases hn
    · cases hn
      simp only [valOf, take_append_of_le_length hle]
  | errCode =>
    simp only [valSize] at hn
    split at hn
    · cases hn
    cases hn
    simp only [valOf, numAt_append (show 2 + 1 ≤ v.length by omega), numAt_append (show 3 + 1 ≤ v.length by omega),
      slice_append_of_le (show 4 + (len - 4) ≤ v.length by omega)]
  | unknownAttr =>
    cases hn
    simp only [valOf, typesOf_append hle]
  | flag | other => rfl

end

/-! ## What follows an attribute -/

section
variable {w t : Bytes}

theorem attrType_append (h : 4 ≤ w.length) : attrType (w ++ t) = attrType w := by
  rw [attrType, attrType, numAt_append (by omega)]

theorem attrLen_append (h : 4 ≤ w.length) : attrLen (w ++ t) = attrLen w := by
  rw [attrLen, attrLen, numAt_append (by omega)]

theorem drop_four_append (h : 4 ≤ w.length) : (w ++ t).drop 4 = w.drop 4 ++ t := drop_append_of_le_length h

theorem attrSize_append (h : 4 ≤ w.length) (n : Nat) :
    (attrSize (w ++ t) = some n ∧ 4 + n ≤ w.length) ↔ (attrSize w = some n ∧ 4 + n ≤ w.length) := by
  have hle : 4 + n ≤ w.length ↔ n ≤ (w.drop 4).length := by rw [length_drop]; omega
  rw [attrSize, attrSize, attrType_append h, attrLen_append h, drop_four_append h, hle]
  exact valSize_append

theorem attrOf_append (tid : Bytes) (h : 4 ≤ w.length) (hn : attrSize w = some n)
    (hle : 4 + n ≤ w.length) : attrOf tid (w ++ t) = attrOf tid w := by
  have hval := valOf_append (t := t) tid hn (by rw [length_drop]; omega)
  rw [attrOf, attrOf, attrType_append h, attrLen_append h, drop_four_append h, hval]

end

/-! ## The attributes of a message -/

def cut (w : Bytes) : Option (List Bytes) :=
  if w = [] then some []
  else match attrSize w with
    | none => none
    | some n => if 4 + pad4 n ≤ w.length then (cut (w.drop (4 + pad4 n))).map (w :: ·) else none
termination_by w.length
decreasing_by
  rw [length_drop]
  omega

def decodedOf (tid : Bytes) (e : Nat) (r : Bytes) : Decoded := ⟨attrOf tid r, e - r.length + 4, attrLen r⟩

theorem cut_nil : cut [] = some [] := by rw [cut, if_pos rfl]

theorem cut_some {w : Bytes} (hw : w ≠ []) (hn : attrSize w = some n) (hle : 4 + pad4 n ≤ w.length) :
    cut w = (cut (w.drop (4 + pad4 n))).map (w :: ·) := by
  rw [cut, if_neg hw, hn]
  exact if_pos hle

theorem cut_none {w : Bytes} (hw : w ≠ []) (h : ∀ n, attrSize w = some n → w.length < 4 + pad4 n) : cut w = none := by
  rw [cut, if_neg hw]
  cases hn : attrSize w with
  | none => rfl
  | some n => exact if_neg (Nat.not_le.2 (h n hn))

def fitting (k : Nat) (w : Bytes) : Option (List Bytes) :=
  (cut w).filter fun l => ∀ r ∈ l, 4 + attrLen r ≤ r.length + k

theorem fitting_cons {w : Bytes} {k : Nat} (hw : w ≠ []) (hn : attrSize w = some n)
    (hle : 4 + pad4 n ≤ w.length) : fitting k w = if 4 + attrLen w ≤ w.length + k then
      (fitting k (w.drop (4 + pad4 n))).map (w :: ·) else none := by
  unfold fitting
  rw [cut_some hw hn hle]
  cases cut (w.drop (4 + pad4 n)) with
  | none => simp
  | some l =>
    by_cases hlen : 4 + attrLen w ≤ w.length + k <;>
      by_cases hl : ∀ r ∈ l, 4 + attrLen r ≤ r.length + k <;>
        simp [Option.filter_some, -not_forall, hlen, hl]

theorem sizeSub_of_le {a b : Nat} (h : b ≤ a) (ha : a < 2 ^ 64) : sizeSub a b = a - b := by
  unfold sizeSub
  omega

theorem sizeSub_of_lt {a b : Nat} (h : a < b) (hb : b + 4 ≤ 2 ^ 64) : 4 ≤ sizeSub a b := by
  unfold sizeSub
  omega

/-- **Past the end of the message the loop goes on** until it fails. -/
theorem attrLoop_past (ht : t.length + 4 ≤ 2 ^ 64) : ∀ (fuel : Nat) {r : Bytes} {mb : Mbuf} (acc : List Decoded)
    (ua : Option (List UInt16)), mb.Rest r → r.length < t.length → r.length < fuel →
    (attrLoop tid t.length fuel acc ua mb).1.toOption = none := by
  intro fuel
  induction fuel with
  | zero => exact fun _ _ _ _ h => absurd h (Nat.not_lt_zero _)
  | succ fuel ih =>
    intro r mb acc ua hr hlt hfuel
    rw [attrLoop, if_pos (by rw [hr.getLeft]; exact sizeSub_of_lt hlt ht)]
    rcases stunAttrDecode_cases hr tid ua with ⟨n, -, -, hle, hdec⟩ | ⟨err, mb', hdec⟩
    · rw [hdec]
      have hpad := le_pad4 n
      refine ih _ _ (hr.drop (Nat.min_le_right _ _)) ?_ ?_ <;> rw [length_drop] <;> omega
    · rw [hdec]
      rfl

/-- An attribute that ends in the message is read, whatever follows, if the buffer is as long as the
length field says. -/
theorem stunAttrDecode_inside {w : Bytes} (hr : mb.Rest (w ++ t)) (ua : Option (List UInt16))
    (h4 : 4 ≤ w.length) (hn : attrSize w = some n) (hle : 4 + pad4 n ≤ w.length)
    (hlen : 4 + attrLen w ≤ w.length + t.length) :
    stunAttrDecode tid ua mb = .ok (decodedOf tid (mb.pos + w.length) w, noteUnknown (attrType w) ua)
      (mb.setPos (mb.pos + (4 + pad4 n))) := by
  have hpad := le_pad4 n
  have hn' : attrSize (w ++ t) = some n := ((attrSize_append h4 n).2 ⟨hn, by omega⟩).1
  have hdec := stunAttrDecode_ok hr tid ua (by rw [length_append]; omega)
    (by rw [attrLen_append h4, length_append]; exact hlen) hn' (by rw [length_append]; omega)
  rw [hdec, attrOf_append tid h4 hn (by omega), attrLen_append h4, attrType_append h4, length_append,
    Nat.min_eq_left (by omega), decodedOf, Nat.add_sub_cancel]

/-- **The attributes of a message are read** if all of them are there and no length field reaches
past what follows the message; otherwise the decoder fails. -/
theorem attrLoop_eq (tid t : Bytes) (ht : t.length + 4 ≤ 2 ^ 64) : ∀ (fuel : Nat) {w : Bytes} {mb : Mbuf}
    (acc : List Decoded) (ua : Option (List UInt16)), mb.Rest (w ++ t) → w.length % 4 = 0 →
    (w ++ t).length < 2 ^ 64 → (w ++ t).length < fuel →
    (attrLoop tid t.length fuel acc ua mb).1.toOption =
      (fitting t.length w).map fun l => acc ++ l.map (decodedOf tid (mb.pos + w.length)) := by
  intro fuel
  induction fuel with
  | zero => exact fun _ _ _ _ _ h => absurd h (Nat.not_lt_zero _)
  | succ fuel ih =>
    intro w mb acc ua hr hmod hlt hfuel
    have hsub : sizeSub mb.getLeft t.length = w.length := by
      rw [hr.getLeft, sizeSub_of_le (by rw [length_append]; omega) hlt, length_append, Nat.add_sub_cancel]
    rw [attrLoop, hsub]
    by_cases hw : w = []
    · subst hw
      rw [if_neg (by simp), fitting, cut_nil]
      simp [Except.toOption]
    have h4 : 4 ≤ w.length := by
      have := length_pos_iff.2 hw
      omega
    rw [if_pos h4]
    by_cases hgood : ∃ n, attrSize w = some n ∧ 4 + pad4 n ≤ w.length
    swap
    · -- an attribute that does not end in the message is refused, or the loop leaves the message
      have hbad : ∀ n, attrSize w = some n → w.length < 4 + pad4 n := fun n hn =>
        Nat.not_le.1 fun hle => hgood ⟨n, hn, hle⟩
      rw [fitting, cut_none hw hbad]
      rcases stunAttrDecode_cases hr tid ua with ⟨n, hn, -, hle, hdec⟩ | ⟨err, mb', hdec⟩
      swap
      · rw [hdec]
        rfl
      rw [hdec]
      rw [length_append] at hle hfuel
      have hout : w.length < 4 + pad4 n := by
        by_contra hin
        have hpad := le_pad4 n
        exact hin (hbad n ((attrSize_append h4 n).1 ⟨hn, by omega⟩).1)
      have hpad : n ≤ pad4 n ∧ pad4 n < n + 4 ∧ pad4 n % 4 = 0 := by unfold pad4; omega
      refine attrLoop_past ht fuel _ _ (hr.drop (Nat.min_le_right _ _)) ?_ ?_ <;>
        rw [length_drop, length_append] <;> omega
    obtain ⟨n, hn, hle⟩ := hgood
    rw [fitting_cons hw hn hle]
    by_cases hlen : 4 + attrLen w ≤ w.length + t.length
    swap
    · obtain ⟨err, mb', hdec⟩ := stunAttrDecode_error hr tid ua
        (.inr (.inl (by rw [attrLen_append h4, length_append]; omega)))
      rw [hdec, if_neg hlen]
      rfl
    -- the attribute is read, and the rest of the message is one with the same end
    rw [stunAttrDecode_inside hr ua h4 hn hle hlen, if_pos hlen]
    have hrest : (mb.setPos (mb.pos + (4 + pad4 n))).Rest (w.drop (4 + pad4 n) ++ t) := by
      rw [← drop_append_of_le_length hle]
      exact hr.drop (by rw [length_append]; omega)
    have hend : mb.pos + (4 + pad4 n) + (w.drop (4 + pad4 n)).length = mb.pos + w.length := by
      rw [length_drop]
      omega
    rw [length_append] at hlt hfuel
    refine (ih (acc ++ [decodedOf tid (mb.pos + w.length) w]) (noteUnknown (attrType w) ua) hrest
      (by rw [length_drop]; unfold pad4; omega) (by rw [length_append, length_drop]; omega)
      (by rw [length_append, length_drop]; omega)).trans ?_
    simp only [setPos, hend, Option.map_map, Function.comp_def, append_assoc, map_cons,
      singleton_append]

/-- Induction on the attributes of a message. -/
theorem cut_rec {motive : Bytes → List Bytes → Prop} (nil : motive [] [])
    (cons : ∀ w n l, attrSize w = some n → 4 + pad4 n ≤ w.length → motive (w.drop (4 + pad4 n)) l → motive w (w :: l))
    {w : Bytes} : ∀ {l : List Bytes}, cut w = some l → motive w l := by
  induction w using cut.induct with
  | case1 =>
    intro l hl
    cases cut_nil.symm.trans hl
    exact nil
  | case2 w hw hn =>
    intro l hl
    cases (cut_none hw (by rw [hn]; nofun)).symm.trans hl
  | case3 w hw n hn hle ih =>
    intro l hl
    obtain ⟨l', hl', rfl⟩ := Option.map_eq_some_iff.1 ((cut_some hw hn hle).symm.trans hl)
    exact cons w n l' hn hle (ih hl')
  | case4 w hw n hn hle =>
    intro l hl
    cases (cut_none hw fun m hm => by cases hn.symm.trans hm; exact Nat.not_le.1 hle).symm.trans hl

theorem cut_length (w : Bytes) {l : List Bytes} (hl : cut w = some l) : ∀ r ∈ l, r.length ≤ w.length := by
  refine cut_rec (motive := fun w l => ∀ r ∈ l, r.length ≤ w.length) nofun (fun w n l _ _ ih r hr => ?_) hl
  cases hr with
  | head => exact le_refl _
  | tail _ hr => exact (ih r hr).trans (by rw [length_drop]; omega)

/-! ## Messages -/

theorem hdrOf_append (h : headerSize ≤ p.length) : hdrOf (p ++ t) = hdrOf p := by
  have hlen : 20 ≤ p.length := h
  rw [hdrOf, hdrOf, numAt_append (by omega), numAt_append (by omega), numAt_append (by omega),
    slice_append_of_le (by omega)]

theorem HdrOk.append (h : HdrOk p) : HdrOk (p ++ t) where
  size := by rw [length_append]; exact le_trans h.size (Nat.le_add_right _ _)
  type := by rw [hdrOf_append h.size]; exact h.type
  len := by rw [hdrOf_append h.size]; exact h.len
  fits := by rw [hdrOf_append h.size, length_append]; exact le_trans h.fits (Nat.le_add_right _ _)

def outcome (mb : Mbuf) (ua : Option (List UInt16)) : Option (List Decoded) :=
  (stunMsgDecode mb ua).1.toOption.map (·.attrl)

/-- **A message is decoded** as its attributes are cut, if no length field reaches past what follows
the message. -/
theorem outcome_eq (hp : HdrOk p) (hlen : p.length = headerSize + (hdrOf p).len.toNat)
    (hr : mb.Rest (p ++ t)) (hlt : (p ++ t).length < 2 ^ 64) (ua : Option (List UInt16)) :
    outcome mb ua = (fitting t.length (p.drop headerSize)).map fun l =>
      l.map (decodedOf (hdrOf p).tid (mb.pos + p.length)) := by
  have hdec := stunHdrDecode_ok hr hp.append
  have hrest : (mb.setPos (mb.pos + headerSize)).Rest (p.drop headerSize ++ t) := by
    rw [← drop_append_of_le_length hp.size]
    exact hr.drop (le_trans hp.size (by rw [length_append]; omega))
  have hbody : (p.drop headerSize).length = (hdrOf p).len.toNat := by rw [length_drop]; omega
  have hmod : (p.drop headerSize).length % 4 = 0 := by
    have h3 := congrArg UInt16.toNat hp.len
    rw [UInt16.toNat_and] at h3
    rw [hbody, ← Nat.and_two_pow_sub_one_eq_mod _ 2]
    exact h3
  have hend : mb.pos + headerSize + (p.drop headerSize).length = mb.pos + p.length := by rw [hbody]; omega
  have hsize : 20 ≤ p.length := hp.size
  have hloop := attrLoop_eq (hdrOf p).tid t (by rw [length_append] at hlt; omega)
    ((p.drop headerSize ++ t).length + 1) [] (ua.map fun _ => []) hrest hmod
    (lt_of_le_of_lt (by rw [length_append, length_append, length_drop]; omega) hlt)
    (Nat.lt_succ_self _)
  have hextra : (mb.setPos (mb.pos + headerSize)).getLeft - (hdrOf (p ++ t)).len.toNat = t.length := by
    rw [hrest.getLeft, length_append, hbody, hdrOf_append hp.size, Nat.add_sub_cancel_left]
  simp only [setPos, hend, nil_append] at hloop
  rw [← hloop]
  unfold outcome stunMsgDecode
  rw [hdec]
  dsimp only
  rw [hextra, hrest.getLeft, hdrOf_append hp.size]
  simp only [setPos]
  cases (attrLoop _ _ _ _ _ _).1 <;> rfl

def Local (p : Bytes) : Prop :=
  ∀ (t t' : Bytes) (mb mb' : Mbuf) (ua ua' : Option (List UInt16)), mb.Rest (p ++ t) → mb'.Rest (p ++ t') →
    (p ++ t).length < 2 ^ 64 → (p ++ t').length < 2 ^ 64 → mb.pos = mb'.pos →
    outcome mb ua = outcome mb' ua' ∧
    ∀ l, outcome mb ua = some l → ∀ d ∈ l, mb.pos + headerSize + 4 ≤ d.start ∧ d.start + d.len ≤ mb.pos + p.length

def Overlong (p : Bytes) : Prop := ∃ l, cut (p.drop headerSize) = some l ∧ ∃ r ∈ l, r.length < 4 + attrLen r

def whole (p : Bytes) : Mbuf := ⟨p, 0, p.length⟩

theorem whole_rest (p : Bytes) : (whole p).Rest p where
  ok := ⟨Nat.zero_le _, le_refl _⟩
  left := by simp [whole, Mbuf.left, Mbuf.getLeft, slice]

theorem local_of_not_overlong (hp : HdrOk p) (hlen : p.length = headerSize + (hdrOf p).len.toNat)
    (hnot : ¬ Overlong p) : Local p := by
  intro t t' mb mb' ua ua' hr hr' hlt hlt' hpos
  have hfit : ∀ k, fitting k (p.drop headerSize) = cut (p.drop headerSize) := by
    intro k
    unfold fitting
    cases hcut : cut (p.drop headerSize) with
    | none => rfl
    | some l =>
      refine if_pos (decide_eq_true fun r hr => ?_)
      exact Nat.le_add_right_of_le (Nat.not_lt.1 fun hlt => hnot ⟨l, hcut, r, hr, hlt⟩)
  rw [outcome_eq hp hlen hr hlt ua, outcome_eq hp hlen hr' hlt' ua', hfit, hfit, hpos]
  refine ⟨rfl, fun l' hl' d hd => ?_⟩
  obtain ⟨l, hcut, rfl⟩ := Option.map_eq_some_iff.1 hl'
  obtain ⟨r, hr, rfl⟩ := mem_map.1 hd
  have hin : ¬ r.length < 4 + attrLen r := fun hlt => hnot ⟨l, hcut, r, hr, hlt⟩
  have hle := cut_length _ hcut r hr
  rw [length_drop] at hle
  have hsize := hp.size
  unfold decodedOf
  dsimp only
  omega

theorem not_local_of_overlong (hp : HdrOk p) (hlen : p.length = headerSize + (hdrOf p).len.toNat)
    (h : Overlong p) : ¬ Local p := by
  obtain ⟨l, hcut, r, hr, hover⟩ := h
  intro hlocal
  have hlt : p.length < 20 + 65536 := by
    rw [hlen]
    exact Nat.add_lt_add_left (hdrOf p).len.toNat_lt _
  have hshort : (p ++ []).length < 2 ^ 64 := by rw [append_nil]; omega
  have hlong : (p ++ List.replicate 65540 0).length < 2 ^ 64 := by
    rw [length_append, length_replicate]
    omega
  have hrest : (whole p).Rest (p ++ []) := by
    rw [append_nil]
    exact whole_rest p
  have hrest' := whole_rest (p ++ List.replicate 65540 0)
  have heq := (hlocal _ _ _ _ none none hrest hrest' hshort hlong rfl).1
  have hnone : fitting 0 (p.drop headerSize) = none := by
    rw [fitting, hcut, Option.filter_some, if_neg]
    simpa using ⟨r, hr, hover⟩
  have hsome : fitting 65540 (p.drop headerSize) = some l := by
    rw [fitting, hcut, Option.filter_some, if_pos]
    rw [decide_eq_true_eq]
    intro r _
    have := attrLen_lt r
    omega
  rw [outcome_eq hp hlen hrest hshort, outcome_eq hp hlen hrest' hlong, length_nil,
    length_replicate, hnone, hsome] at heq
  cases heq

/-- **The bytes after a message are without influence**, and the attributes lie in the message,
exactly if no length field of an attribute that is read reaches past the end of the message. -/
theorem decode_local_iff (p : Bytes) (hdr : Hdr) (mb : Mbuf) (hvalid : stunHdrDecode (whole p) = .ok hdr mb)
    (hlen : p.length = headerSize + hdr.len.toNat) : Local p ↔ ¬ Overlong p := by
  obtain ⟨hp, rfl⟩ := hdrOk_of_ok (whole_rest p) hvalid
  exact ⟨fun hlocal hover => not_local_of_overlong hp hlen hover hlocal, local_of_not_overlong hp hlen⟩

def channelMsg : Bytes :=
  [0, 9, 0, 8, 0x21, 0x12, 0xa4, 0x42, 1, 2, 3, 4, 5, 6, 7, 8, 9, 10, 11, 12, 0, 0x0c, 0, 100, 0x40, 0, 0, 0]

theorem decode_local_iff_channelMsg : Local channelMsg ↔ ¬ Overlong channelMsg := by
  have hvalid : stunHdrDecode (whole channelMsg) = .ok _ _ := rfl
  exact decode_local_iff channelMsg _ _ hvalid (by decide +kernel)

/-- The message fails alone and is accepted with 96 bytes behind it; the attribute ends 96 bytes
after the message. -/
theorem channelMsg_read_past_end :
    (∃ hdr mb, stunHdrDecode (whole channelMsg) = .ok hdr mb ∧ channelMsg.length = headerSize + hdr.len.toNat) ∧
    outcome (whole channelMsg) none = none ∧
    outcome (whole (channelMsg ++ List.replicate 96 0)) none = some [⟨⟨0x0c, .num16 0x4000⟩, 24, 100⟩] := by
  refine ⟨⟨_, _, rfl, ?_⟩, ?_, ?_⟩
  · decide +kernel
  · decide +kernel
  · decide +kernel

/-! ## Accepted messages -/

def body (r : Bytes) : Bytes := (r.take (headerSize + (hdrOf r).len.toNat)).drop headerSize

/-- **What the decoder accepts**: a message in its buffer, whose attributes are cut to its end. -/
theorem decode_cut (hok : mb.Ok) (hlt : mb.buf.length < 2 ^ 64) {ua : Option (List UInt16)}
    (hdec : (stunMsgDecode mb ua).1 = .ok msg) : msg.mb = mb ∧ msg.start = mb.pos ∧ HdrOk mb.left ∧
    msg.hdr = hdrOf mb.left ∧ ∃ l, cut (body mb.left) = some l ∧
      msg.attrl = l.map (decodedOf msg.hdr.tid (mb.pos + (headerSize + msg.hdr.len.toNat))) := by
  have hr : mb.Rest mb.left := ⟨hok, rfl⟩
  have hsome : outcome mb ua = some msg.attrl := by rw [outcome, hdec]; rfl
  rw [stunMsgDecode] at hdec
  cases hhdr : stunHdrDecode mb with
  | error err mb' =>
    rw [hhdr] at hdec
    cases hdec
  | ok hdr mb' =>
    obtain ⟨hp, rfl⟩ := hdrOk_of_ok hr hhdr
    rw [hhdr] at hdec
    dsimp only at hdec
    generalize attrLoop _ _ _ _ _ _ = res at hdec
    obtain ⟨_ | attrl, ua'⟩ := res
    · cases hdec
    cases hdec
    refine ⟨rfl, rfl, hp, rfl, ?_⟩
    -- the message ends after the length of its header
    have hlen := length_take_of_le hp.fits
    have hsplit := take_append_drop (headerSize + (hdrOf mb.left).len.toNat) mb.left
    unfold body
    generalize mb.left.take _ = p, mb.left.drop _ = t at hlen hsplit
    have hsize : headerSize ≤ p.length := by omega
    have hhdr : hdrOf mb.left = hdrOf p := by rw [← hsplit, hdrOf_append hsize]
    rw [hhdr] at hlen ⊢
    rw [outcome_eq ⟨hsize, hhdr ▸ hp.type, hhdr ▸ hp.len, hlen.ge⟩ hlen (hsplit ▸ hr)
      (by rw [hsplit, left, slice, length_take, length_drop]; omega)] at hsome
    obtain ⟨l, hfit, hl⟩ := Option.map_eq_some_iff.1 hsome
    rw [← hlen]
    exact ⟨l, (Option.filter_eq_some_iff.1 hfit).1, hl.symm⟩

def Framed : Nat → List Decoded → Prop
  | _, [] => True
  | a, d :: ds => d.start = a + 4 ∧ Framed (a + 4 + pad4 d.len) ds

def Exact (l : List Bytes) : Prop := ∀ r ∈ l.dropLast, (attrSize r).map pad4 = some (pad4 (attrLen r))

theorem framed_cut (tid : Bytes) (e : Nat) (w : Bytes) {l : List Bytes} (hl : cut w = some l) :
    (∀ r ∈ l.head?, r = w) ∧ (w.length ≤ e → (Framed (e - w.length) (l.map (decodedOf tid e)) ↔ Exact l)) := by
  refine cut_rec (motive := fun w l => (∀ r ∈ l.head?, r = w) ∧
    (w.length ≤ e → (Framed (e - w.length) (l.map (decodedOf tid e)) ↔ Exact l)))
    ⟨nofun, fun _ => ⟨fun _ => nofun, fun _ => trivial⟩⟩ (fun w n l hn hle ih => ?_) hl
  obtain ⟨hhead, ih⟩ := ih
  refine ⟨fun r hr => (Option.some.inj hr).symm, fun he => ?_⟩
  cases l with
  | nil => exact ⟨fun _ => nofun, fun _ => ⟨rfl, trivial⟩⟩
  | cons r l =>
    cases hhead r rfl
    have hpos : e - (w.length - (4 + pad4 n)) = e - w.length + 4 + pad4 n := by omega
    have ih := ih (by rw [length_drop]; omega)
    unfold Exact at ih ⊢
    rw [length_drop, hpos] at ih
    rw [dropLast_cons_cons, forall_mem_cons, hn, Option.map_some, Option.some_inj, ← ih]
    simp only [map_cons, Framed, decodedOf, length_drop, hpos, true_and]
    -- the next attribute is read `4 + pad4 n` bytes on
    constructor
    · rintro ⟨hnext, hrest⟩
      have heq : pad4 n = pad4 (attrLen w) := by omega
      exact ⟨heq, heq ▸ hrest⟩
    · rintro ⟨heq, hrest⟩
      exact ⟨by omega, heq ▸ hrest⟩

/-- **Attributes start where the type-length framing says**, exactly if each but the last is read
over as many words as its length field says. -/
theorem decode_framed_iff (hok : mb.Ok) (hlt : mb.buf.length < 2 ^ 64) {ua : Option (List UInt16)}
    (hdec : (stunMsgDecode mb ua).1 = .ok msg) :
    Framed (mb.pos + headerSize) msg.attrl ↔ ∃ l, cut (body mb.left) = some l ∧ Exact l := by
  obtain ⟨-, -, hp, hhdr, l, hl, hattrl⟩ := decode_cut hok hlt hdec
  have hlen : (body mb.left).length = msg.hdr.len.toNat := by
    rw [body, length_drop, length_take_of_le hp.fits, Nat.add_sub_cancel_left, hhdr]
  have hiff := (framed_cut msg.hdr.tid (mb.pos + (headerSize + msg.hdr.len.toNat)) _ hl).2 (by omega)
  rw [hlen, ← Nat.add_assoc, Nat.add_sub_cancel, Nat.add_assoc, ← hattrl] at hiff
  rw [hiff]
  refine ⟨fun h => ⟨l, hl, h⟩, fun ⟨l', hl', h⟩ => ?_⟩
  cases hl.symm.trans hl'
  exact h

def longAddrMsg : Bytes :=
  [0, 1, 0, 16, 0x21, 0x12, 0xa4, 0x42, 1, 2, 3, 4, 5, 6, 7, 8, 9, 10, 11, 12] ++
    [0, 1, 0, 12, 0, 1, 0, 80, 10, 0, 0, 1, 0, 0x25, 0, 0]

theorem decode_framed_iff_longAddr : ∃ msg, (stunMsgDecode (whole longAddrMsg) none).1 = .ok msg ∧
    (Framed headerSize msg.attrl ↔ ∃ l, cut (body (whole longAddrMsg).left) = some l ∧ Exact l) :=
  ⟨_, rfl, decode_framed_iff (whole_rest longAddrMsg).ok (by decide +kernel)
    (show (stunMsgDecode (whole longAddrMsg) none).1 = .ok _ from rfl)⟩

/-- The last four bytes of the value are read as an attribute, inside of the message. -/
theorem longAddr_not_framed : ∃ msg, (stunMsgDecode (whole longAddrMsg) none).1 = .ok msg ∧
    (∀ d ∈ msg.attrl, d.start + d.len ≤ headerSize + msg.hdr.len.toNat) ∧ ¬ Framed headerSize msg.attrl := by
  refine ⟨_, rfl, by decide +kernel, ?_⟩
  rintro ⟨-, h, -⟩
  revert h
  decide +kernel

/-! ## Checking -/

def room (type : UInt16) : Nat :=
  if type = Attrib.msgIntegrity.code then miSize else if type = Attrib.fingerprint.code then fpSize else 0

theorem room_le {w : Bytes} (hn : attrSize w = some n) : room (attrType w) ≤ 4 + pad4 n := by
  unfold attrSize at hn
  unfold room
  split
  · rename_i h
    rw [h] at hn
    change (if attrLen w ≠ 20 then none else some 20) = some n at hn
    grind [miSize, pad4]
  split
  · rename_i h
    rw [h] at hn
    change (if attrLen w ≠ 4 then none else some 4) = some n at hn
    grind [fpSize, pad4]
  · omega

theorem cut_room {w : Bytes} {l : List Bytes} (hl : cut w = some l) : (l.map (room <| attrType ·)).sum ≤ w.length := by
  refine cut_rec (motive := fun w l => (l.map (room <| attrType ·)).sum ≤ w.length) (le_refl _)
    (fun w n l hn hle ih => ?_) hl
  have hroom := room_le hn
  rw [length_drop] at ih
  rw [map_cons, sum_cons]
  omega

theorem decode_room (hok : mb.Ok) (hlt : mb.buf.length < 2 ^ 64) {ua : Option (List UInt16)}
    (hdec : (stunMsgDecode mb ua).1 = .ok msg) : (msg.attrl.map (room ·.attr.type)).sum ≤ msg.hdr.len.toNat := by
  obtain ⟨-, -, hp, hhdr, l, hl, hattrl⟩ := decode_cut hok hlt hdec
  have hroom := cut_room hl
  rw [body, length_drop, length_take_of_le hp.fits, Nat.add_sub_cancel_left] at hroom
  rw [hattrl, map_map, hhdr]
  exact hroom

theorem mem_types {s : UInt16} {v : AttrVal} (h : stunMsgAttr msg s = some v) : s ∈ msg.attrl.map (·.attr.type) := by
  obtain ⟨d, hd, -⟩ := Option.map_eq_some_iff.1 h
  exact mem_map.2 ⟨d, mem_of_find?_eq_some hd, by simpa using find?_some hd⟩

def hdrBytes (hdr : Hdr) : Bytes :=
  beBytes 2 (hdr.type &&& 0x3fff).toNat ++ beBytes 2 hdr.len.toNat ++ beBytes 4 hdr.cookie.toNat ++ hdr.tid

theorem hdrBytes_hdrOf (h : HdrOk p) : hdrBytes (hdrOf p) = p.take headerSize := by
  have hsize : 20 ≤ p.length := h.size
  have hnum {i n : Nat} (h : i + n ≤ p.length) : numAt p i n < 256 ^ n ∧ beBytes n (numAt p i n) = slice p i n := by
    have hlt := beNat_lt (slice p i n)
    have hback := beBytes_beNat (slice p i n)
    rw [length_slice h] at hlt hback
    exact ⟨hlt, hback⟩
  have htype : (hdrOf p).type &&& 0x3fff = (hdrOf p).type := by
    have hor : (hdrOf p).type &&& 0x3fff ||| (hdrOf p).type &&& 0xc000 = (hdrOf p).type :=
      UInt16.eq_of_toBitVec_eq (BitVec.and_or_distrib_left.symm.trans BitVec.and_allOnes)
    rwa [h.type, UInt16.or_zero] at hor
  rw [hdrBytes, htype]
  simp only [hdrOf]
  rw [UInt16.toNat_ofNat_of_lt' (hnum (by omega)).1, UInt16.toNat_ofNat_of_lt' (hnum (by omega)).1,
    UInt32.toNat_ofNat_of_lt' (hnum (by omega)).1, (hnum (by omega)).2, (hnum (by omega)).2, (hnum (by omega)).2,
    slice_append_slice rfl, slice_append_slice rfl, slice_append_slice rfl]
  rfl

section
variable {a y : Bytes} {e : Nat}

theorem write_over {d : Bytes} (hd : d.length ≤ y.length) (he : (a ++ d).length ≤ e) :
    write d ⟨a ++ y, a.length, e⟩ = ⟨a ++ d ++ y.drop d.length, (a ++ d).length, e⟩ := by
  rw [length_append] at he
  have hfits : a.length + d.length ≤ (a ++ y).length := by rw [length_append]; omega
  rw [write, writeMem_of_le hfits]
  simp [overwrite, drop_append, he]

theorem setLen_over (hmb : msg.mb = ⟨a ++ y, a.length, e⟩) (htid : msg.hdr.tid.length = 12)
    (hy : headerSize ≤ y.length) (he : a.length + headerSize ≤ e) (len : UInt16) : msg.setLen len = { msg with
      hdr := { msg.hdr with len }
      mb := ⟨a ++ (hdrBytes { msg.hdr with len } ++ y.drop headerSize), a.length, e⟩ } := by
  unfold headerSize at hy he
  unfold Msg.setLen stunHdrEncode writeU16
  dsimp only
  rw [hmb, write_over, write_over, write_over, write_over] <;> simp [setPos, htid, headerSize, hdrBytes] <;> omega

/-- Taking the length of the fingerprint off and putting it back leaves the message as it was. -/
theorem setLen_setLen (hmb : msg.mb = ⟨a ++ y, a.length, e⟩) (hy : HdrOk y) (hhdr : msg.hdr = hdrOf y)
    (he : a.length + headerSize ≤ e) (len : UInt16) : (msg.setLen len).setLen msg.hdr.len = msg := by
  have htid : msg.hdr.tid.length = 12 := hhdr ▸ length_slice hy.size
  have hlen : (hdrBytes { msg.hdr with len }).length = headerSize := by simp [hdrBytes, htid, headerSize]
  have hbytes : hdrBytes msg.hdr ++ y.drop headerSize = y := by rw [hhdr, hdrBytes_hdrOf hy, take_append_drop]
  have hmb' := congrArg Msg.mb (setLen_over hmb htid hy.size he len)
  rw [setLen_over hmb' htid (by rw [length_append]; omega) he, drop_left' hlen]
  show Msg.mk msg.hdr msg.attrl ⟨a ++ (hdrBytes msg.hdr ++ y.drop headerSize), a.length, e⟩ msg.start = msg
  rw [hbytes, ← hmb]

end

def Inside (msg : Msg) (len : UInt16) (size : Nat) : Prop :=
  size ≤ headerSize + len.toNat ∧ msg.start + (headerSize + len.toNat - size) ≤ msg.mb.endPos

/-- **The checks stay in the buffer** and leave the message as it was. -/
theorem chk_inside (hok : mb.Ok) (hlt : mb.buf.length < 2 ^ 64) {ua : Option (List UInt16)}
    (hdec : (stunMsgDecode mb ua).1 = .ok msg) (h : Hash) (key : Bytes) :
    (∀ mi, stunMsgAttr msg Attrib.msgIntegrity.code = some mi →
      (stunMsgAttr msg Attrib.fingerprint.code = none → Inside msg msg.hdr.len miSize) ∧
      ∀ fp, stunMsgAttr msg Attrib.fingerprint.code = some fp →
        fpSize ≤ msg.hdr.len.toNat ∧ Inside msg (msg.hdr.len - 8) miSize) ∧
    (∀ fp, stunMsgAttr msg Attrib.fingerprint.code = some fp → Inside msg msg.hdr.len fpSize) ∧
    (stunMsgChkMi h key msg).2 = msg ∧ (stunMsgChkFingerprint h msg).2 = msg := by
  obtain ⟨hmb, hstart, hp, hhdr, -⟩ := decode_cut hok hlt hdec
  have hsum := decode_room hok hlt hdec
  have hpos := hok.pos
  have hbuf := hok.endPos
  have hfits := hp.fits
  rw [← hhdr, length_left hok, getLeft] at hfits
  have hset : msg.mb.setPos msg.start = msg.mb := by rw [hstart, hmb]; rfl
  have hroom {s : List UInt16} (hs : s.Nodup) (hin : ∀ t ∈ s, t ∈ msg.attrl.map (·.attr.type)) :
      (s.map room).sum ≤ msg.hdr.len.toNat := by
    obtain ⟨s', hperm, hsub⟩ := subperm_of_subset hs fun t => hin t
    rw [← (hperm.map room).sum_eq]
    refine ((hsub.map room).sum_le_sum fun _ _ => Nat.zero_le _).trans ?_
    rwa [map_map]
  unfold Inside
  rw [hstart, hmb]
  refine ⟨fun mi hmi => ⟨fun _ => ?_, fun fp hfp => ?_⟩, fun fp hfp => ?_, ?_, ?_⟩
  · have h24 : 24 ≤ _ := hroom (nodup_singleton _) (forall_mem_singleton.2 (mem_types hmi))
    unfold miSize headerSize at *
    omega
  · have h32 : 32 ≤ _ := hroom (s := [Attrib.msgIntegrity.code, Attrib.fingerprint.code]) (by decide)
      (forall_mem_cons.2 ⟨mem_types hmi, forall_mem_singleton.2 (mem_types hfp)⟩)
    have hsub : (msg.hdr.len - 8).toNat = msg.hdr.len.toNat - 8 :=
      UInt16.toNat_sub_of_le _ _ (UInt16.le_iff_toNat_le.2 (le_trans (by decide) h32))
    unfold miSize fpSize headerSize at *
    omega
  · have h8 : 8 ≤ _ := hroom (nodup_singleton _) (forall_mem_singleton.2 (mem_types hfp))
    unfold fpSize headerSize at *
    omega
  · unfold stunMsgChkMi
    split
    · rfl
    simp only [hset]
    split
    · have hlen : (msg.setLen (msg.hdr.len - 8)).hdr.len + 8 = msg.hdr.len := UInt16.sub_add_cancel _ _
      have hy : mb.left ++ mb.buf.drop mb.endPos = mb.buf.drop mb.pos := by
        have h := take_append_drop (mb.endPos - mb.pos) (mb.buf.drop mb.pos)
        rwa [drop_drop, Nat.add_sub_cancel' hpos] at h
      have hat : msg.mb = ⟨mb.buf.take mb.pos ++ (mb.left ++ mb.buf.drop mb.endPos), (mb.buf.take mb.pos).length,
          mb.endPos⟩ := by
        rw [hmb, hy, take_append_drop, length_take_of_le (by omega)]
      rw [hlen]
      refine setLen_setLen hat hp.append (hhdr.trans (hdrOf_append hp.size).symm) ?_ _
      rw [length_take_of_le (by omega)]
      omega
    · rfl
  · unfold stunMsgChkFingerprint
    split
    · rfl
    · simp only [hset]

def checkedMsg : Bytes :=
  [0, 1, 0, 32, 0x21, 0x12, 0xa4, 0x42, 1, 2, 3, 4, 5, 6, 7, 8, 9, 10, 11, 12] ++
    ([0, 8, 0, 20] ++ List.replicate 20 0 ++ [0x80, 0x28, 0, 4, 0, 0, 0, 0])

theorem chk_inside_checkedMsg : ∃ msg, (stunMsgDecode (whole checkedMsg) none).1 = .ok msg ∧
    Inside msg (msg.hdr.len - 8) miSize ∧
    (stunMsgChkFingerprint ⟨fun _ _ => ⟨List.replicate 20 0, rfl⟩, fun _ => 0⟩ msg).2 = msg :=
  have hin := chk_inside (whole_rest checkedMsg).ok (by decide +kernel)
    (show (stunMsgDecode (whole checkedMsg) none).1 = .ok _ from rfl) _ []
  ⟨_, rfl, ((hin.1 _ rfl).2 _ rfl).2, hin.2.2.2⟩

end BareRTC.Stun
