import BareRTC.Dns.Dname
import BareRTC.Lib.Run
import BareRTC.Re.Write
import Mathlib.Data.List.TakeWhile

/-!
# Domain names in DNS messages: round trips (`re/src/dns/dname.c`)

`At x start q ls e k`: from the position `q` of `x` on there are the labels `ls`, up to `e`, with
`k` pointers on the way. A pointer goes to a label, so there are not more pointers than labels, and
the decoder's limit is not met.

* `decodeLoop_at`: what is there is what is decoded.
* `encodeFrom_spec`: what is written for a name is there, if the entries of the table that are not
  longer than the name are right. Those that are longer are the name's own, and become right when it
  has been written.
* `dname_roundTrip`: names in a message, whatever else is written to it.
-/

namespace BareRTC.Dns

open List

open Mbuf

/-! ## Names -/

structure Label (l : Bytes) : Prop where
  pos : 0 < l.length
  le : l.length ≤ 63
  noNul : ∀ c ∈ l, c ≠ 0
  noDot : ∀ c ∈ l, c ≠ chr '.'

def dotted : List Bytes → Bytes
  | [] => []
  | l :: ls => l ++ ls.flatMap (chr '.' :: ·)

def IsName (name : Bytes) : Prop := ∃ ls, (∀ l ∈ ls, Label l) ∧ name = dotted ls ∧ name.length ≤ 253

theorem dotted_cons_cons {l l' : Bytes} {ls : List Bytes} :
    dotted (l :: l' :: ls) = l ++ chr '.' :: dotted (l' :: ls) := by
  simp [dotted]

variable {l : Bytes} {dn : Dname} {ht : Table}

theorem dotted_cons {ls : List Bytes} (h : ls ≠ []) : dotted (l :: ls) = l ++ chr '.' :: dotted ls := by
  obtain ⟨l', ls, rfl⟩ := exists_cons_of_ne_nil h
  exact dotted_cons_cons

theorem length_le_dotted : ∀ {ls : List Bytes}, (∀ l ∈ ls, Label l) → ls.length ≤ (dotted ls).length
  | [], _ => Nat.le_refl 0
  | [l], h => by
    have hpos := (h l mem_cons_self).pos
    rw [dotted, flatMap_nil, append_nil]
    exact hpos
  | l :: l' :: ls, h => by
    have ih := length_le_dotted fun l2 hl => h l2 (mem_cons_of_mem _ hl)
    rw [dotted_cons_cons, length_append, length_cons (a := l), length_cons (a := chr '.')]
    omega

theorem mem_dotted_ne_zero {ls : List Bytes} (h : ∀ l ∈ ls, Label l) : ∀ c ∈ dotted ls, c ≠ 0 := by
  intro c hc
  cases ls with
  | nil => cases hc
  | cons l ls =>
    rcases mem_append.1 hc with hc | hc
    · exact (h l mem_cons_self).noNul c hc
    obtain ⟨l', hl', hc⟩ := mem_flatMap.1 hc
    rcases mem_cons.1 hc with rfl | hc
    · decide
    · exact (h l' (mem_cons_of_mem _ hl')).noNul c hc

theorem strCaseEq_iff {a b : Bytes} : strCaseEq a b ↔ a.map tolower = b.map tolower := beq_iff_eq

theorem length_eq_of_strCaseEq {a b : Bytes} (h : strCaseEq a b) : a.length = b.length := by
  have := congrArg List.length (strCaseEq_iff.1 h)
  rwa [length_map, length_map] at this

/-! ## Labels in a message -/

def lab (l : Bytes) : Bytes := UInt8.ofNat l.length :: l

inductive At (x : Bytes) (start : Nat) : Nat → List Bytes → Nat → Nat → Prop
  | root {q : Nat} (h : [0] <+: x.drop q) : At x start q [] (q + 1) 0
  | label {q e k : Nat} {l : Bytes} {ls : List Bytes} (hl : Label l) (h : lab l <+: x.drop q)
      (hrest : At x start (q + (lab l).length) ls e k) : At x start q (l :: ls) e k
  | pointer {q e k off : Nat} {l : Bytes} {ls : List Bytes} (hoff : off ≤ offsetMask)
      (h : beBytes 2 (off ||| 0xc000) <+: x.drop q) (hl : Label l) (hlab : lab l <+: x.drop (start + off))
      (hrest : At x start (start + off + (lab l).length) ls e k) : At x start q (l :: ls) (q + 2) (k + 1)

theorem isPrefix_drop_append {x y d : Bytes} {q : Nat} (hd : d ≠ []) (h : d <+: x.drop q) : d <+: (x ++ y).drop q := by
  have hlen := h.length_le
  have hpos := length_pos_iff.2 hd
  rw [length_drop] at hlen
  rw [drop_append_of_le_length (by omega)]
  exact h.trans ( List.prefix_append _ _)

variable {y : Bytes}

namespace At

variable {x : Bytes} {start q e k : Nat} {ls : List Bytes}

theorem append (h : At x start q ls e k) : At (x ++ y) start q ls e k := by
  induction h with
  | root h => exact .root (isPrefix_drop_append (by simp) h)
  | label hl h _ ih => exact .label hl (isPrefix_drop_append (by simp [lab]) h) ih
  | pointer hoff h hl hlab _ ih =>
    exact .pointer hoff (isPrefix_drop_append (by simp [beBytes]) h) hl (isPrefix_drop_append (by simp [lab]) hlab) ih

theorem labels (h : At x start q ls e k) : ∀ l ∈ ls, Label l := by
  induction h with
  | root => exact nofun
  | label hl _ _ ih | pointer _ _ hl _ _ ih => exact forall_mem_cons.2 ⟨hl, ih⟩

theorem pointers_le (h : At x start q ls e k) : k ≤ ls.length := by
  induction h with
  | root => exact Nat.le_refl 0
  | label _ _ _ ih => exact Nat.le_succ_of_le ih
  | pointer _ _ _ _ _ ih => exact Nat.succ_le_succ ih

end At

/-! ## Decoding -/

theorem label_len (h : Label l) :
    (UInt8.ofNat l.length).toNat = l.length ∧ UInt8.ofNat l.length ≠ 0 ∧ UInt8.ofNat l.length &&& 0xc0 ≠ 0xc0 := by
  have hpos := h.pos
  have hle := h.le
  have hnat : (UInt8.ofNat l.length).toNat = l.length := by
    rw [UInt8.toNat_ofNat']
    omega
  have hsmall : ∀ b : UInt8, b.toNat ≤ 63 → b &&& 0xc0 ≠ 0xc0 := forall_uint8 (by decide +kernel)
  refine ⟨hnat, fun hzero => ?_, hsmall _ (by omega)⟩
  rw [hzero] at hnat
  exact absurd hnat (by simp; omega)

theorem pointer_bits {off : Nat} (h : off ≤ offsetMask) :
    ∃ hi lo : UInt8, beBytes 2 (off ||| 0xc000) = [hi, lo] ∧ hi ≠ 0 ∧ hi &&& 0xc0 = 0xc0 ∧
      beNat [hi, lo] &&& offsetMask = off := by
  have hlt : off < 2 ^ 14 := Nat.lt_succ_of_le h
  have hor : off ||| 0xc000 = 0xc000 + off := by
    rw [Nat.or_comm]
    exact (Nat.shiftLeft_add_eq_or_of_lt hlt 3).symm
  have hhigh : ∀ b : UInt8, 0xc0 ≤ b.toNat → b ≠ 0 ∧ b &&& 0xc0 = 0xc0 := forall_uint8 (by decide +kernel)
  have hhi : (UInt8.ofNat ((0xc000 + off) / 256)).toNat = (0xc000 + off) / 256 := by
    rw [UInt8.toNat_ofNat']
    omega
  have hread := beNat_beBytes 2 (off ||| 0xc000)
  obtain ⟨hne, hmask⟩ := hhigh (UInt8.ofNat ((0xc000 + off) / 256)) (by omega)
  have hbytes : beBytes 2 (off ||| 0xc000) = [UInt8.ofNat ((0xc000 + off) / 256), UInt8.ofNat (0xc000 + off)] := by
    rw [hor]
    rfl
  refine ⟨_, _, hbytes, hne, hmask, ?_⟩
  rw [← hbytes, hread, hor]
  show (0xc000 + off) % 256 ^ 2 &&& (2 ^ 14 - 1) = off
  rw [Nat.and_two_pow_sub_one_eq_mod]
  omega

theorem getD_of_isPrefix_drop {b : UInt8} {d x : Bytes} {q : Nat} (h : b :: d <+: x.drop q) : x.getD q 0 = b := by
  obtain ⟨t, ht⟩ := h
  have hget := congrArg (·[0]?) ht
  simp only [cons_append, getElem?_cons_zero, getElem?_drop, Nat.add_zero] at hget
  rw [getD_eq_getElem?_getD, ← hget]
  rfl

theorem slice_of_isPrefix_drop {d x : Bytes} {q n : Nat} (h : d <+: x.drop q) (hn : n = d.length) :
    slice x q n = d := by
  obtain ⟨t, ht⟩ := h
  rw [slice, ← ht, hn, take_left]

theorem foldl_addLabel {name : Bytes} (hname : name ≠ []) : ∀ ls : List Bytes,
    ls.foldl addLabel name = name ++ ls.flatMap (chr '.' :: ·)
  | [] => by simp
  | l :: ls => by
    have hne : addLabel name l ≠ [] := by simp [addLabel, hname]
    rw [foldl_cons, foldl_addLabel hne ls]
    simp [addLabel, hname]

theorem foldl_addLabel_nil {ls : List Bytes} (h : ∀ l ∈ ls, Label l) : ls.foldl addLabel [] = dotted ls := by
  cases ls with
  | nil => rfl
  | cons l ls =>
    have hne : l ≠ [] := length_pos_iff.1 (h l mem_cons_self).pos
    have hfirst : addLabel [] l = l := by simp [addLabel]
    rw [foldl_cons, hfirst, foldl_addLabel hne, dotted]

theorem length_le_foldl_addLabel : ∀ (ls : List Bytes) (name : Bytes), name.length ≤ (ls.foldl addLabel name).length
  | [], _ => Nat.le_refl _
  | l :: ls, name => by
    have ih := length_le_foldl_addLabel ls (addLabel name l)
    have hlen : name.length ≤ (addLabel name l).length := by
      rw [addLabel, length_append, length_append]
      omega
    exact hlen.trans ih

theorem room_for_label {name : Bytes} (h : (addLabel name l).length ≤ 254) (hl : l.length ≤ 63) :
    ¬ l.length + name.length + 2 > 256 := by
  unfold addLabel at h
  split at h
  · next hnil =>
    subst hnil
    simp
    omega
  · simp only [length_append, length_singleton] at h
    omega

section
variable {buf : Bytes} {endPos start q : Nat} {name : Bytes} {loopc : Nat} {comp : Option Nat}

theorem decodeLoop_root (hpre : [0] <+: buf.drop q) (hle : q + 1 ≤ endPos) :
    decodeLoop buf endPos start q name loopc comp = (some name, comp.getD (q + 1)) := by
  rw [decodeLoop, if_pos (by omega)]
  simp only [getD_of_isPrefix_drop hpre, if_true]

theorem decodeLoop_label (hl : Label l) (hpre : lab l <+: buf.drop q) (hle : q + (lab l).length ≤ endPos)
    (hroom : (addLabel name l).length ≤ 254) :
    decodeLoop buf endPos start q name loopc comp =
      decodeLoop buf endPos start (q + (lab l).length) (addLabel name l) loopc comp := by
  obtain ⟨hnat, hne, hmask⟩ := label_len hl
  have hslice : slice buf (q + 1) l.length = l := by
    have htail : l <+: buf.drop (q + 1) := by
      obtain ⟨t, ht⟩ := hpre
      refine ⟨t, ?_⟩
      rw [← drop_drop, ← ht]
      rfl
    exact slice_of_isPrefix_drop htail rfl
  have hlab : q + (lab l).length = q + 1 + l.length := by
    rw [lab, length_cons]
    omega
  rw [hlab] at hle ⊢
  rw [decodeLoop, if_pos (by omega)]
  simp only [getD_of_isPrefix_drop hpre, if_neg hne, if_neg hmask, hnat, hslice,
    if_neg (show ¬ l.length > endPos - (q + 1) by omega), if_neg (room_for_label hroom hl.le)]

theorem decodeLoop_pointer {off : Nat} (hoff : off ≤ offsetMask) (hpre : beBytes 2 (off ||| 0xc000) <+: buf.drop q)
    (hle : q + 2 ≤ endPos) (hloop : loopc ≤ compLoop) :
    decodeLoop buf endPos start q name loopc comp =
      decodeLoop buf endPos start (start + off) name (loopc + 1) (some (comp.getD (q + 2))) := by
  obtain ⟨hi, lo, hbytes, hne, hmask, hval⟩ := pointer_bits hoff
  rw [hbytes] at hpre
  have hslice : slice buf q 2 = [hi, lo] := slice_of_isPrefix_drop hpre rfl
  rw [decodeLoop, if_pos (by omega)]
  simp only [getD_of_isPrefix_drop hpre, if_neg hne, if_pos hmask, hslice, hval,
    if_neg (show ¬ loopc > compLoop by omega), if_neg (show ¬ endPos - q < 2 by omega), Nat.add_comm off start]

end

/-- **The decoder**: the labels that are there, and the position after them, or after the first
pointer if there was one. -/
theorem decodeLoop_at {x : Bytes} {start : Nat} {buf : Bytes} {endPos : Nat} (hx : x <+: buf)
    (hend : x.length ≤ endPos) {q e k : Nat} {ls : List Bytes} (h : At x start q ls e k) :
    ∀ (name : Bytes) (loopc : Nat) (comp : Option Nat), loopc + k ≤ compLoop + 1 →
      (ls.foldl addLabel name).length ≤ 254 →
      decodeLoop buf endPos start q name loopc comp = (some (ls.foldl addLabel name), comp.getD e) := by
  obtain ⟨t, rfl⟩ := hx
  have hbound : ∀ {d : Bytes} {q : Nat}, d ≠ [] → d <+: x.drop q → d <+: (x ++ t).drop q ∧ q + d.length ≤ endPos := by
    intro d q hd hpre
    have hlen := hpre.length_le
    have hpos := length_pos_iff.2 hd
    rw [length_drop] at hlen
    exact ⟨isPrefix_drop_append hd hpre, by omega⟩
  induction h with
  | root hpre =>
    intro name loopc comp _ _
    obtain ⟨hpre, hle⟩ := hbound (by simp) hpre
    exact decodeLoop_root hpre hle
  | @label q e k l ls hl hpre _ ih =>
    intro name loopc comp hloop hlen
    obtain ⟨hpre, hle⟩ := hbound (by simp [lab]) hpre
    have hroom := (length_le_foldl_addLabel ls (addLabel name l)).trans hlen
    rw [decodeLoop_label hl hpre hle hroom]
    exact ih (addLabel name l) loopc comp hloop hlen
  | @pointer q e k off l ls hoff hpre hl hlab _ ih =>
    intro name loopc comp hloop hlen
    obtain ⟨hpre, hle⟩ := hbound (by simp [beBytes]) hpre
    obtain ⟨hlab, hle'⟩ := hbound (by simp [lab]) hlab
    have hroom := (length_le_foldl_addLabel ls (addLabel name l)).trans hlen
    rw [length_beBytes] at hle
    rw [decodeLoop_pointer hoff hpre hle (by omega), decodeLoop_label hl hlab hle' hroom]
    exact ih (addLabel name l) (loopc + 1) _ (by omega) hlen

theorem dnsDnameDecode_at {x : Bytes} {start q e k : Nat} {ls : List Bytes} (h : At x start q ls e k)
    (hlen : (dotted ls).length ≤ 253) {mb : Mbuf} (hx : x <+: mb.buf) (hend : x.length ≤ mb.endPos) :
    dnsDnameDecode start (mb.setPos q) = .ok (dotted ls) (mb.setPos e) := by
  have hk := h.pointers_le.trans (length_le_dotted h.labels)
  have hfold := foldl_addLabel_nil h.labels
  have hloop : 0 + k ≤ compLoop + 1 := by
    unfold compLoop
    omega
  have hdec := decodeLoop_at hx hend h [] 0 none hloop (by rw [hfold]; omega)
  rw [hfold] at hdec
  have hstr : Sdp.cstr (dotted ls) = dotted ls :=
    takeWhile_eq_self_iff.2 fun c hc => decide_eq_true (mem_dotted_ne_zero h.labels c hc)
  unfold dnsDnameDecode
  simp only [Mbuf.setPos, hdec, hstr]
  rfl

/-! ## Encoding -/

structure Front (mb : Mbuf) (x : Bytes) : Prop where
  pos : mb.pos = x.length
  pre : x <+: mb.buf
  endPos : x.length ≤ mb.endPos

namespace Front

variable {mb : Mbuf} {x : Bytes}

theorem write (h : Front mb x) (d : Bytes) : Front (write d mb) (x ++ d) := by
  obtain ⟨b, hkeep, hlen, hw⟩ := Mbuf.write_eq
  have hfront : slice mb.buf 0 x.length = x := by
    obtain ⟨t, ht⟩ := h.pre
    rw [slice, drop_zero, ← ht, take_left]
  have htake : b.take x.length = x := by simpa [slice] using hkeep 0 x hfront
  rw [hw, h.pos]
  refine ⟨?_, ?_, ?_⟩
  · rw [length_append]
  · refine ⟨b.drop (x.length + d.length), ?_⟩
    rw [overwrite, htake]
  · rw [length_append]
    exact Nat.le_max_right _ _

theorem poke {v w : UInt8} (h : Front mb (x ++ v :: l)) : Front (mb.poke x.length [w]) (x ++ w :: l) := by
  obtain ⟨hpos, ⟨t, ht⟩, hend⟩ := h
  have hlen : (x ++ w :: l).length = (x ++ v :: l).length := by
    rw [length_append, length_append, length_cons, length_cons]
  refine ⟨hpos.trans hlen.symm, ⟨t, ?_⟩, hlen.le.trans hend⟩
  show _ = overwrite mb.buf x.length [w]
  rw [← ht, append_assoc, append_assoc]
  exact (overwrite_append (x := [v]) (d := [w]) rfl rfl).symm

end Front

def Entered (x : Bytes) (start : Nat) (dn : Dname) : Prop :=
  dn.pos ≤ offsetMask ∧ ∃ l ls e k, Label l ∧ lab l <+: x.drop (start + dn.pos) ∧
    At x start (start + dn.pos + (lab l).length) ls e k ∧ strCaseEq (dotted (l :: ls)) dn.name

theorem Entered.append {x : Bytes} {start : Nat} (h : Entered x start dn) : Entered (x ++ y) start dn := by
  obtain ⟨hpos, l, ls, e, k, hl, hlab, hat, heq⟩ := h
  exact ⟨hpos, l, ls, e, k, hl, isPrefix_drop_append (by simp [lab]) hlab, hat.append, heq⟩

def entries (ht : Table) : List Dname := ht.getD []

theorem dnameLookup_some {name : Bytes} (h : dnameLookup ht name = some dn) :
    dn ∈ entries ht ∧ strCaseEq dn.name name := by
  have heq := find?_some h
  exact ⟨mem_of_find?_eq_some h, heq⟩

section
variable (mem : Bytes → Bool) (start : Nat) (comp : Bool) {ls : List Bytes} {x name : Bytes} {mb : Mbuf}

theorem mem_dnameAppend {pos : Nat} (h : dn ∈ entries (dnameAppend mem start ht name pos)) :
    dn ∈ entries ht ∨ start ≤ pos ∧ pos - start ≤ offsetMask ∧ dn = ⟨name, pos - start⟩ := by
  unfold dnameAppend at h
  split at h
  · exact .inl h
  rename_i hcond
  simp only [not_or, Nat.not_lt] at hcond
  cases ht with
  | none => exact .inl h
  | some dns =>
    rcases mem_append.1 h with h | h
    · exact .inl h
    · exact .inr ⟨hcond.1, hcond.2.1, mem_singleton.1 h⟩

def encodeFrom (name : Bytes) (ht : Table) (mb : Mbuf) : Option Errno × Table × Mbuf :=
  match dnameLookup ht name with
  | some dn =>
    if comp then (none, ht, dnameEncodePointer dn.pos mb)
    else encodeLoop mem start comp name mb.pos ht (write [0] mb)
  | none => encodeLoop mem start comp name mb.pos (dnameAppend mem start ht name mb.pos) (write [0] mb)

theorem dnsDnameEncode_eq (hname : name ≠ [chr '.']) :
    dnsDnameEncode mem start comp name ht mb = encodeFrom mem start comp name ht mb := by
  have hlabels (ht : Table) : dnsDnameEncode.labels mem start comp name mb ht =
      encodeLoop mem start comp name mb.pos ht (write [0] mb) := if_neg hname
  unfold dnsDnameEncode encodeFrom
  cases dnameLookup ht name <;> simp only [hlabels]

theorem encodeLoop_label {name : Bytes} {pos : Nat} {ht : Table} : ∀ {l : Bytes} {x : Bytes} {mb : Mbuf},
    (∀ c ∈ l, c ≠ chr '.') → Front mb x →
    ∃ mb', encodeLoop mem start comp (l ++ name) pos ht mb = encodeLoop mem start comp name pos ht mb' ∧
      Front mb' (x ++ l)
  | [], x, mb, _, hf => ⟨mb, rfl, by rwa [append_nil]⟩
  | c :: l, x, mb, hl, hf => by
    obtain ⟨hc, hl⟩ := forall_mem_cons.1 hl
    obtain ⟨mb', heq, hf'⟩ := @encodeLoop_label name pos ht l _ _ hl (hf.write [c])
    refine ⟨mb', ?_, by rwa [append_assoc] at hf'⟩
    rw [cons_append, encodeLoop]
    simp only [if_neg hc]
    exact heq

theorem encodeLoop_length (hl : Label l) (hf : Front mb (x ++ 0 :: l)) (name : Bytes) :
    ∃ mb', Front mb' (x ++ lab l) ∧ encodeLoop mem start comp [] x.length ht mb = (none, ht, write [0] mb') ∧
      encodeLoop mem start comp (chr '.' :: name) x.length ht mb = encodeFrom mem start comp name ht mb' := by
  have hpos := hl.pos
  have hlen : mb.pos - x.length - 1 = l.length := by
    rw [hf.pos, length_append, length_cons]
    omega
  refine ⟨mb.poke x.length [UInt8.ofNat l.length], hf.poke, ?_, ?_⟩
  · simp only [encodeLoop, hlen, if_neg (show ¬ l.length = 0 by omega)]
  · simp only [encodeLoop, hlen, if_true, if_neg (show ¬ l.length = 0 by omega)]
    rfl

structure Encoded (x : Bytes) (ht : Table) (ls : List Bytes) (r : Option Errno × Table × Mbuf) : Prop where
  err : r.1 = none
  wrote : ∃ y ls' k, Front r.2.2 (x ++ y) ∧ At (x ++ y) start x.length ls' (x ++ y).length k ∧
    strCaseEq (dotted ls') (dotted ls) ∧ (ls' = [] ↔ ls = []) ∧
    ∀ dn ∈ entries r.2.1, dn ∈ entries ht ∨ Entered (x ++ y) start dn

theorem encoded_pointer (hne : ls ≠ []) (hf : Front mb x)
 (hdn : Entered x start dn) (heq : strCaseEq dn.name (dotted ls)) :
    Encoded start x ht ls (none, ht, dnameEncodePointer dn.pos mb) := by
  obtain ⟨hoff, l, ls', e, k, hl, hlab, hat, heq'⟩ := hdn
  refine ⟨rfl, _, l :: ls', k + 1, hf.write _, ?_, ?_, by simp [hne], fun dn hdn => .inl hdn⟩
  · rw [length_append, length_beBytes]
    refine .pointer hoff ?_ hl (isPrefix_drop_append (by simp [lab]) hlab) (hat.append)
    rw [drop_left]
  · rw [strCaseEq_iff] at *
    exact heq'.trans heq

theorem Encoded.cons {ht1 : Table} {r : Option Errno × Table × Mbuf}
    (hl : Label l) (hr : Encoded start (x ++ lab l) ht1 ls r)
    (hht : ∀ dn ∈ entries ht1, dn ∈ entries ht ∨
      start ≤ x.length ∧ x.length - start ≤ offsetMask ∧ dn = ⟨dotted (l :: ls), x.length - start⟩) :
    Encoded start x ht (l :: ls) r := by
  obtain ⟨herr, y, ls', k, hf, hat, heq, hnil, hent⟩ := hr
  rw [append_assoc] at hf hat hent
  have hlab : lab l <+: (x ++ (lab l ++ y)).drop x.length := by
    rw [drop_left]
    exact List.prefix_append _ _
  rw [@length_append _ x (lab l)] at hat
  have heq' : strCaseEq (dotted (l :: ls')) (dotted (l :: ls)) := by
    by_cases hls : ls = []
    · rw [hls, hnil.2 hls]
      exact strCaseEq_iff.2 rfl
    · rw [dotted_cons hls, dotted_cons fun h => hls (hnil.1 h), strCaseEq_iff]
      simp only [map_append, map_cons, strCaseEq_iff.1 heq]
  refine ⟨herr, _, l :: ls', k, hf, .label hl hlab hat, heq', by simp, fun dn hdn => ?_⟩
  rcases hent dn hdn with hdn | hdn
  · rcases hht dn hdn with hdn | ⟨hstart, hoff, rfl⟩
    · exact .inl hdn
    · refine .inr ⟨hoff, l, ls', (x ++ (lab l ++ y)).length, k, hl, ?_, ?_, heq'⟩
      · rwa [Nat.add_sub_cancel' hstart]
      · rwa [Nat.add_sub_cancel' hstart]
  · exact .inr hdn

/-- **The encoder.** The entries that are longer than the name are those of the names that it is a
suffix of; they cannot be found. -/
theorem encodeFrom_spec : ∀ {ls : List Bytes} {ht : Table} {x : Bytes} {mb : Mbuf}, ls ≠ [] → (∀ l ∈ ls, Label l) →
    Front mb x → (∀ dn ∈ entries ht, Entered x start dn ∨ (dotted ls).length < dn.name.length) →
    Encoded start x ht ls (encodeFrom mem start comp (dotted ls) ht mb)
  | [], _, _, _, hne, _, _, _ => absurd rfl hne
  | l :: ls, ht, x, mb, hne, hls, hf, hht => by
    obtain ⟨hl, hls'⟩ := forall_mem_cons.1 hls
    -- the labels are written, with a table that may have an entry for the name
    have hlabels : ∀ ht1 : Table, (∀ dn ∈ entries ht1, dn ∈ entries ht ∨
          start ≤ x.length ∧ x.length - start ≤ offsetMask ∧ dn = ⟨dotted (l :: ls), x.length - start⟩) →
        Encoded start x ht (l :: ls) (encodeLoop mem start comp (dotted (l :: ls)) mb.pos ht1 (write [0] mb)) := by
      intro ht1 hht1
      rw [hf.pos]
      by_cases hnil : ls = []
      · subst hnil
        obtain ⟨mb1, heq, hf1⟩ := @encodeLoop_label mem start comp [] x.length ht1 l _ _ hl.noDot (hf.write [0])
        rw [append_assoc] at hf1
        obtain ⟨mb2, hf2, hend, -⟩ := encodeLoop_length mem start comp hl hf1 []
        have hdotted : dotted [l] = l ++ [] := by simp [dotted]
        rw [hdotted, heq, hend]
        refine Encoded.cons start hl ⟨rfl, [0], [], 0, hf2.write [0], ?_, rfl, by simp, fun dn hdn => .inl hdn⟩ hht1
        rw [@length_append _ (x ++ lab l)]
        refine .root ?_
        rw [drop_left]
      rw [dotted_cons hnil] at hht ⊢
      obtain ⟨mb1, heq, hf1⟩ :=
        @encodeLoop_label mem start comp (chr '.' :: dotted ls) x.length ht1 l _ _ hl.noDot (hf.write [0])
      rw [append_assoc] at hf1
      obtain ⟨mb2, hf2, -, hdot⟩ := encodeLoop_length mem start comp hl hf1 (dotted ls)
      rw [heq, hdot]
      refine Encoded.cons start hl (encodeFrom_spec hnil hls' hf2 fun dn hdn => ?_) hht1
      have hlen : (dotted ls).length < (l ++ chr '.' :: dotted ls).length := by
        rw [length_append, length_cons]
        omega
      rcases hht1 dn hdn with hdn | ⟨-, -, rfl⟩
      · exact (hht dn hdn).imp (fun h => h.append) hlen.trans
      · rw [dotted_cons hnil]
        exact .inr hlen
    unfold encodeFrom
    cases hfind : dnameLookup ht (dotted (l :: ls)) with
    | none =>
      refine hlabels _ fun dn hdn => ?_
      rw [hf.pos] at hdn
      exact mem_dnameAppend mem start hdn
    | some dn =>
      obtain ⟨hdn, heq⟩ := dnameLookup_some hfind
      cases comp with
      | false => exact hlabels ht fun dn hdn => .inl hdn
      | true =>
        refine encoded_pointer start hne hf ((hht dn hdn).resolve_right ?_) heq
        rw [length_eq_of_strCaseEq heq]
        exact Nat.lt_irrefl _

theorem dotted_ne_dot (hls : ∀ l ∈ ls, Label l) : dotted ls ≠ [chr '.'] := by
  intro heq
  cases ls with
  | nil => cases heq
  | cons l ls =>
    have hl := hls l mem_cons_self
    obtain ⟨c, l', rfl⟩ := exists_cons_of_ne_nil (length_pos_iff.1 hl.pos)
    exact hl.noDot c mem_cons_self (head_eq_of_cons_eq heq)

theorem dnsDnameEncode_spec (hls : ∀ l ∈ ls, Label l) (hf : Front mb x) (hht : ∀ dn ∈ entries ht, Entered x start dn) :
    Encoded start x ht ls (dnsDnameEncode mem start comp (dotted ls) ht mb) := by
  rw [dnsDnameEncode_eq mem start comp (dotted_ne_dot hls)]
  by_cases hnil : ls = []
  · subst hnil
    -- no entry has the empty name
    have hfind : dnameLookup ht (dotted []) = none := by
      refine find?_eq_none.2 fun dn hdn heq => ?_
      obtain ⟨-, l, ls, e, k, hl, -, -, heq'⟩ := hht dn hdn
      have hlen := (length_eq_of_strCaseEq heq').trans (length_eq_of_strCaseEq heq)
      have hpos := hl.pos
      rw [dotted, dotted, length_append, length_nil] at hlen
      omega
    have happend : dnameAppend mem start ht (dotted []) mb.pos = ht := if_pos (.inr (.inr (.inl rfl)))
    have hloop : encodeLoop mem start comp (dotted []) mb.pos ht (write [0] mb) = (none, ht, write [0] mb) := by
      rw [dotted, encodeLoop, (hf.write [0]).pos, hf.pos, length_append]
      simp
    unfold encodeFrom
    simp only [hfind, happend, hloop]
    refine ⟨rfl, [0], [], 0, hf.write [0], ?_, rfl, by simp, fun dn hdn => .inl hdn⟩
    rw [length_append]
    refine .root ?_
    rw [drop_left]
  · exact encodeFrom_spec mem start comp hnil hls hf fun dn hdn => .inl (hht dn hdn)

end

/-! ## A message -/

section
variable (start : Nat)

structure Written (x : Bytes) (w : Writer) : Prop where
  front : Front w.mb x
  entered : ∀ dn ∈ entries w.ht, Entered x start dn

def Op.Ok : Op → Prop
  | .name n _ _ => IsName n
  | .raw _ => True

theorem writerStep_spec {x : Bytes} {w : Writer} (hw : Written start x w) {op : Op} (hop : op.Ok) :
    ∃ y, Written start (x ++ y) (writerStep start w op).1 ∧ ∀ name comp mem, op = .name name comp mem →
      (writerStep start w op).2 = none ∧ ∃ ls k, At (x ++ y) start x.length ls (x ++ y).length k ∧
        strCaseEq (dotted ls) name ∧ (dotted ls).length ≤ 253 := by
  cases op with
  | raw d =>
    refine ⟨d, ⟨hw.front.write d, fun dn hdn => (hw.entered dn hdn).append⟩, ?_⟩
    intro _ _ _ heq
    cases heq
  | name name comp mem =>
    obtain ⟨ls, hls, rfl, hlen⟩ := hop
    obtain ⟨herr, y, ls', k, hf, hat, heq, -, hent⟩ := dnsDnameEncode_spec mem start comp hls hw.front hw.entered
    refine ⟨y, ⟨hf, fun dn hdn => ?_⟩, ?_⟩
    · exact (hent dn hdn).elim (fun hdn => (hw.entered dn hdn).append) id
    intro name' comp' mem' hop
    cases hop
    exact ⟨herr, ls', k, hat, heq, by rwa [length_eq_of_strCaseEq heq]⟩

theorem exec_written : ∀ (ops : List Op) {x : Bytes} {w : Writer}, Written start x w → (∀ op ∈ ops, op.Ok) →
    ∃ y, Written start (x ++ y) (exec (writerStep start) w ops)
  | [], x, w, hw, _ => ⟨[], by rwa [append_nil]⟩
  | op :: ops, x, w, hw, hops => by
    obtain ⟨hop, hops⟩ := forall_mem_cons.1 hops
    obtain ⟨y, hy, -⟩ := writerStep_spec start hw hop
    obtain ⟨z, hz⟩ := exec_written ops hy hops
    exact ⟨y ++ z, by rwa [← append_assoc]⟩

/-- **Names in a message.** Whatever is written before and after a name, to a buffer at any position
and with a table without entries: the name is encoded without error, and decoding at its place gives
a name that is equal up to case and the position after it. -/
theorem dname_roundTrip (w : Writer) (hok : w.mb.Ok) (hht : entries w.ht = []) (before after : List Op) (name : Bytes)
    (comp : Bool) (mem : Bytes → Bool) (hbefore : ∀ op ∈ before, op.Ok) (hafter : ∀ op ∈ after, op.Ok)
    (hname : IsName name) :
    let w₁ := exec (writerStep start) w before
    let r := writerStep start w₁ (.name name comp mem)
    let w₂ := exec (writerStep start) r.1 after
    r.2 = none ∧ ∃ name', dnsDnameDecode start (w₂.mb.setPos w₁.mb.pos) = .ok name' (w₂.mb.setPos r.1.mb.pos) ∧
      strCaseEq name' name := by
  have hpos := hok.pos
  have hend := hok.endPos
  have hlen : (w.mb.buf.take w.mb.pos).length = w.mb.pos := length_take_of_le (by omega)
  have hw : Written start (w.mb.buf.take w.mb.pos) w := by
    refine ⟨⟨hlen.symm, take_prefix _ _, by omega⟩, fun dn hdn => ?_⟩
    rw [hht] at hdn
    cases hdn
  obtain ⟨y, hw1⟩ := exec_written start before hw hbefore
  have hop : Op.Ok (.name name comp mem) := hname
  obtain ⟨z, hr, hspec⟩ := writerStep_spec start hw1 hop
  obtain ⟨herr, ls, k, hat, heq, hle⟩ := hspec name comp mem rfl
  obtain ⟨t, hw2⟩ := exec_written start after hr hafter
  refine ⟨herr, dotted ls, ?_, heq⟩
  rw [hw1.front.pos, hr.front.pos]
  exact dnsDnameDecode_at (hat.append) hle hw2.front.pre hw2.front.endPos

end

def header : Writer := ⟨some [], ⟨List.replicate 12 0, 12, 12⟩⟩

theorem isName_ab : IsName (ascii "a.b") :=
  ⟨[ascii "a", ascii "b"], forall_mem_cons.2 ⟨⟨by decide, by decide, by decide, by decide⟩,
    forall_mem_cons.2 ⟨⟨by decide, by decide, by decide, by decide⟩, nofun⟩⟩,
    by decide, by decide⟩

/-- The name of a query and again that name, as a pointer to the first one -/
theorem dname_roundTrip_pointer :
    let w₁ := exec (writerStep 0) header [.name (ascii "a.b") true fun _ => true]
    let r := writerStep 0 w₁ (.name (ascii "a.b") true fun _ => true)
    r.2 = none ∧ r.1.mb.pos = w₁.mb.pos + 2 ∧
      ∃ name', dnsDnameDecode 0 (r.1.mb.setPos w₁.mb.pos) = .ok name' (r.1.mb.setPos r.1.mb.pos) ∧
        strCaseEq name' (ascii "a.b") := by
  obtain ⟨herr, hname⟩ := dname_roundTrip 0 header ⟨by decide, by decide⟩ rfl
    [.name (ascii "a.b") true fun _ => true] [] (ascii "a.b") true (fun _ => true)
    (forall_mem_singleton.2 isName_ab) nofun isName_ab
  exact ⟨herr, by decide +kernel, hname⟩

end BareRTC.Dns
