import BareRTC.Rtp.Proof.Read
import BareRTC.Re.Write

/-!
# Encoding and decoding of RTCP packets

For every kind of packet `Packet.bytes` is the body on the wire. The encoder writes it
(`bodyEncode_emits`) and the decoder reads it as the fields of the packet (`body_spells`); between
the two stand the padding and the header, which are the same for all (`rtcpEncode_wrote`).
`rtcp_roundTrips_iff`: a packet that is decoded after it was encoded is the packet that was encoded,
exactly if application data are whole words.
-/

namespace BareRTC.Rtcp

open List

open Mbuf

/-! ## Packets and what they are on the wire -/

inductive Packet
  | sr (ssrc ntpSec ntpFrac rtpTs psent osent : UInt32) (rrv : List Rr)
  | rr (ssrc : UInt32) (rrv : List Rr)
  | sdes (chunks : List (UInt32 × List (UInt8 × Option Bytes)))
  | bye (srcv : List UInt32) (reason : Option Bytes)
  | app (subtype : UInt8) (src : UInt32) (name : Bytes) (data : Option Bytes)
  | fir (count : UInt8) (ssrc : UInt32)
  | nack (count : UInt8) (ssrc : UInt32) (fsn blp : UInt16)
  | gnack (ssrcPacket ssrcMedia : UInt32) (l : List Gnack)
  | pli (ssrcPacket ssrcMedia : UInt32)
  | sli (ssrcPacket ssrcMedia : UInt32) (l : List Sli)
  | afb (ssrcPacket ssrcMedia : UInt32) (d : Bytes)

def itemsOf (items : List (UInt8 × Option Bytes)) : List SdesItem :=
  items.filterMap fun item => item.2.map fun v => ⟨item.1, v⟩

namespace Packet

def count : Packet → Nat
  | sr _ _ _ _ _ _ rrv => rrv.length
  | rr _ rrv => rrv.length
  | sdes chunks => chunks.length
  | bye srcv _ => srcv.length
  | app subtype _ _ _ => subtype.toNat
  | fir count _ => count.toNat
  | nack count _ _ _ => count.toNat
  | gnack _ _ _ => 1
  | pli _ _ => 1
  | sli _ _ _ => 2
  | afb _ _ _ => 15

def each {α : Type} (f : α → Ench) (l : List α) : Ench := fun mb =>
  l.foldl (fun r a =>
    match r with
    | (some err, mb) => (some err, mb)
    | (none, mb) => f a mb) (none, mb)

def args : Packet → Args
  | sr ssrc ntpSec ntpFrac rtpTs psent osent rrv =>
    .sr ssrc ntpSec ntpFrac rtpTs psent osent (some (each (fun rr mb => (none, rtcpRrEncode rr mb)) rrv))
  | rr ssrc rrv => .rr ssrc (some (each (fun rr mb => (none, rtcpRrEncode rr mb)) rrv))
  | sdes chunks => .sdes (some (each (fun c => rtcpSdesEncode c.1 c.2) chunks))
  | bye srcv reason => .bye srcv reason
  | app _ src name data => .app src name data
  | fir _ ssrc => .fir ssrc
  | nack _ ssrc fsn blp => .nack ssrc fsn blp
  | gnack ssrcPacket ssrcMedia l =>
    .rtpfb ssrcPacket ssrcMedia (some (each (fun g mb => (none, rtcpRtpfbGnackEncode g mb)) l))
  | pli ssrcPacket ssrcMedia => .psfb ssrcPacket ssrcMedia none
  | sli ssrcPacket ssrcMedia l =>
    .psfb ssrcPacket ssrcMedia (some (each (fun s mb => (none, rtcpPsfbSliEncode s mb)) l))
  | afb ssrcPacket ssrcMedia d => .psfb ssrcPacket ssrcMedia (some fun mb => (none, write d mb))

def body : Packet → Body
  | sr ssrc ntpSec ntpFrac rtpTs psent osent rrv => .sr ssrc ntpSec ntpFrac rtpTs psent osent rrv
  | rr ssrc rrv => .rr ssrc rrv
  | sdes chunks => .sdes (chunks.map fun c => ⟨c.1, itemsOf c.2⟩)
  | bye srcv reason => .bye srcv reason
  | app _ src name data => .app src name (data.getD [])
  | fir _ ssrc => .fir ssrc
  | nack _ ssrc fsn blp => .nack ssrc fsn blp
  | gnack ssrcPacket ssrcMedia l => .fb ssrcPacket ssrcMedia l.length (.gnackv l)
  | pli ssrcPacket ssrcMedia => .fb ssrcPacket ssrcMedia 0 .none
  | sli ssrcPacket ssrcMedia l => .fb ssrcPacket ssrcMedia l.length (.sliv l)
  | afb ssrcPacket ssrcMedia d => .fb ssrcPacket ssrcMedia (d.length / 4) (.afb d)

end Packet

def u32Bytes (v : UInt32) : Bytes := beBytes 4 v.toNat

def u16Bytes (v : UInt16) : Bytes := beBytes 2 v.toNat

def rrBytes (rr : Rr) : Bytes :=
  u32Bytes rr.ssrc ++ (u32Bytes (rr.fraction.toUInt32 <<< 24 ||| UInt32.ofNat rr.lost.toNat) ++ (u32Bytes rr.lastSeq ++
    (u32Bytes rr.jitter ++ (u32Bytes rr.lsr ++ u32Bytes rr.dlsr))))

def itemBytes (item : UInt8 × Option Bytes) : Bytes :=
  match item.2 with
  | some v => [item.1] ++ ([UInt8.ofNat v.length] ++ v)
  | none => []

def itemsBytes (items : List (UInt8 × Option Bytes)) : Bytes := items.flatMap itemBytes ++ [0]

def padBytes (x : Bytes) : Bytes := List.replicate (pad4 x.length - x.length) 0

def chunkBytes (c : UInt32 × List (UInt8 × Option Bytes)) : Bytes :=
  u32Bytes c.1 ++ (itemsBytes c.2 ++ padBytes (itemsBytes c.2))

def gnackBytes (g : Gnack) : Bytes := u16Bytes g.pid ++ u16Bytes g.blp

def sliBytes (s : Sli) : Bytes := u32Bytes (s.first.toUInt32 <<< 19 ||| s.number.toUInt32 <<< 6 ||| s.picid.toUInt32)

def reasonBytes : Option Bytes → Bytes
  | some reason => [UInt8.ofNat reason.length] ++ reason
  | none => []

def Packet.bytes : Packet → Bytes
  | sr ssrc ntpSec ntpFrac rtpTs psent osent rrv =>
    u32Bytes ssrc ++ (u32Bytes ntpSec ++ (u32Bytes ntpFrac ++ (u32Bytes rtpTs ++ (u32Bytes psent ++ (u32Bytes osent ++
      rrv.flatMap rrBytes)))))
  | rr ssrc rrv => u32Bytes ssrc ++ rrv.flatMap rrBytes
  | sdes chunks => chunks.flatMap chunkBytes
  | bye srcv reason => srcv.flatMap u32Bytes ++ reasonBytes reason
  | app _ src name data => u32Bytes src ++ (name ++ data.getD [])
  | fir _ ssrc => u32Bytes ssrc
  | nack _ ssrc fsn blp => u32Bytes ssrc ++ (u16Bytes fsn ++ u16Bytes blp)
  | gnack ssrcPacket ssrcMedia l => u32Bytes ssrcPacket ++ (u32Bytes ssrcMedia ++ l.flatMap gnackBytes)
  | pli ssrcPacket ssrcMedia => u32Bytes ssrcPacket ++ (u32Bytes ssrcMedia ++ [])
  | sli ssrcPacket ssrcMedia l => u32Bytes ssrcPacket ++ (u32Bytes ssrcMedia ++ l.flatMap sliBytes)
  | afb ssrcPacket ssrcMedia d => u32Bytes ssrcPacket ++ (u32Bytes ssrcMedia ++ d)

def Packet.FieldsOk : Packet → Prop
  | sdes chunks => ∀ c ∈ chunks, c.2 ≠ [] ∧ ∀ t v, (t, some v) ∈ c.2 → t ≠ 0 ∧ v.length ≤ 255 ∧ 0 ∉ v
  | bye _ reason => ∀ v, reason = some v → v.length ≤ 255 ∧ 0 ∉ v
  | app _ _ name _ => name.length = 4
  | sli _ _ l => ∀ s ∈ l, s.first.toNat < 2 ^ 13 ∧ s.number.toNat < 2 ^ 13 ∧ s.picid.toNat < 2 ^ 6
  | _ => True

structure Packet.Ok (p : Packet) : Prop where
  fields : p.FieldsOk
  count : p.count ≤ 31
  size : pad4 p.bytes.length < 2 ^ 18

def Packet.Whole : Packet → Prop
  | app _ _ _ data => (data.getD []).length % 4 = 0
  | afb _ _ d => d.length % 4 = 0
  | _ => True

/-! ## What the encoder writes -/

def EmitsOk (f : Ench) (d : Bytes) : Prop :=
  ∀ ⦃s : Nat⦄ ⦃x : Bytes⦄ ⦃mb : Mbuf⦄, Wrote s x mb → ∃ mb', f mb = (none, mb') ∧ Wrote s (x ++ d) mb'

theorem EmitsOk.of_emits {f : Mbuf → Mbuf} {d : Bytes} (h : Emits f d) : EmitsOk (fun mb => (none, f mb)) d :=
  fun _ _ mb hw => ⟨f mb, rfl, h hw⟩

theorem EmitsOk.after {f : Mbuf → Mbuf} {g : Ench} {d e : Bytes} (hg : EmitsOk g e) (hf : Emits f d) :
    EmitsOk (fun mb => g (f mb)) (d ++ e) := by
  intro s x mb hw
  simpa only [append_assoc] using hg (hf hw)

theorem EmitsOk.foldl {α : Type} {f : α → Option Errno × Mbuf → Option Errno × Mbuf} {d : α → Bytes} :
    ∀ {l : List α}, (∀ a ∈ l, EmitsOk (fun mb => f a (none, mb)) (d a)) →
      EmitsOk (fun mb => l.foldl (fun r a => f a r) (none, mb)) (l.flatMap d)
  | [], _ => EmitsOk.of_emits Emits.id
  | a :: l, h => by
    intro s x mb hw
    obtain ⟨mb1, ha, hw1⟩ := h a mem_cons_self hw
    obtain ⟨mb2, hl, hw2⟩ := EmitsOk.foldl (fun b hb => h b (mem_cons_of_mem a hb)) hw1
    refine ⟨mb2, ?_, ?_⟩
    · show l.foldl (fun r a => f a r) (f a (none, mb)) = _
      exact (congrArg (l.foldl fun r a => f a r) ha).trans hl
    · rw [flatMap_cons, ← append_assoc]
      exact hw2

theorem each_emits {α : Type} {f : α → Ench} {d : α → Bytes} {l : List α} (h : ∀ a ∈ l, EmitsOk (f a) (d a)) :
    EmitsOk (Packet.each f l) (l.flatMap d) :=
  EmitsOk.foldl (f := fun a r => match r with
    | (some err, mb) => (some err, mb)
    | (none, mb) => f a mb) h

variable (v : UInt32)

theorem writeU32_emits : Emits (writeU32 v) (u32Bytes v) := Emits.write _

theorem writeU16_emits {v : UInt16} : Emits (writeU16 v.toNat) (u16Bytes v) := Emits.write _

variable {rr : Rr}

theorem rtcpRrEncode_emits : Emits (rtcpRrEncode rr) (rrBytes rr) := by
  have h := (writeU32_emits rr.ssrc).comp <|
    (writeU32_emits (rr.fraction.toUInt32 <<< 24 ||| UInt32.ofNat rr.lost.toNat)).comp <|
    (writeU32_emits rr.lastSeq).comp <| (writeU32_emits rr.jitter).comp <| (writeU32_emits rr.lsr).comp <|
    writeU32_emits rr.dlsr
  exact h

theorem itemEncode_emits {item : UInt8 × Option Bytes} (h : ∀ v, item.2 = some v → v.length ≤ 255) :
    EmitsOk (fun mb => itemEncode item (none, mb)) (itemBytes item) := by
  obtain ⟨t, v⟩ := item
  cases v with
  | none => exact EmitsOk.of_emits Emits.id
  | some v =>
    have hv : ¬ v.length > 255 := Nat.not_lt.2 (h v rfl)
    intro s x mb hw
    refine ⟨write v (write [UInt8.ofNat v.length] (write [t] mb)), ?_, ?_⟩
    · simp only [itemEncode, if_neg hv]
    · have h := Emits.write v (Emits.write [UInt8.ofNat v.length] (Emits.write [t] hw))
      simpa only [itemBytes, append_assoc] using h

theorem padding_count {n start pos : Nat} (hpos : pos = start + (4 + n)) :
    (4 - (pos - start) % 4) % 4 = pad4 n - n := by
  unfold pad4
  omega

variable {c : UInt32 × List (UInt8 × Option Bytes)}

theorem rtcpSdesEncode_emits (hne : c.2 ≠ [])
    (h : ∀ t v, (t, some v) ∈ c.2 → v.length ≤ 255) : EmitsOk (rtcpSdesEncode c.1 c.2) (chunkBytes c) := by
  intro s x mb hw
  have hitems : EmitsOk (fun mb => c.2.foldl (fun r item => itemEncode item r) (none, mb)) (c.2.flatMap itemBytes) :=
    EmitsOk.foldl fun item hitem => itemEncode_emits fun v hv => h item.1 v (by rw [← hv]; exact hitem)
  obtain ⟨mb1, hfold, hw1⟩ := hitems (writeU32_emits c.1 hw)
  have hw2 := Emits.write [0] hw1
  have hpos : (write [0] mb1).pos = mb.pos + (4 + (itemsBytes c.2).length) := by
    rw [hw2.pos, hw.pos, itemsBytes]
    simp only [length_append, u32Bytes, length_beBytes]
    omega
  have hw3 := Emits.padding (pad4 (itemsBytes c.2).length - (itemsBytes c.2).length) hw2
  refine ⟨(write [0])^[pad4 (itemsBytes c.2).length - (itemsBytes c.2).length] (write [0] mb1), ?_, ?_⟩
  · have hfold : c.2.foldl (fun r item => itemEncode item r) (none, writeU32 c.1 mb) = (none, mb1) := hfold
    rw [rtcpSdesEncode, if_neg hne]
    simp only [hfold, padding_count hpos]
  · simpa only [chunkBytes, itemsBytes, padBytes, append_assoc] using hw3

theorem byeEncode_emits {srcv : List UInt32} {reason : Option Bytes} :
    EmitsOk (bodyEncode srcv.length (.bye srcv reason)) (srcv.flatMap u32Bytes ++ reasonBytes reason) := by
  intro s x mb hw
  have hsrcv : Wrote s (x ++ srcv.flatMap u32Bytes) (srcv.foldl (fun mb src => writeU32 src mb) mb) :=
    Emits.foldl (fun src => writeU32_emits src) srcv hw
  unfold bodyEncode
  simp only [take_length]
  cases reason with
  | none =>
    refine ⟨_, rfl, ?_⟩
    rw [reasonBytes, append_nil]
    exact hsrcv
  | some reason =>
    refine ⟨_, rfl, ?_⟩
    have h := Emits.write reason (Emits.write [UInt8.ofNat reason.length] hsrcv)
    simpa only [reasonBytes, append_assoc] using h

theorem appEncode_emits {src : UInt32} {name : Bytes} {data : Option Bytes} (hdata : (data.getD []).length % 4 = 0)
    {count : Nat} : EmitsOk (bodyEncode count (.app src name data)) (u32Bytes src ++ (name ++ data.getD [])) := by
  intro s x mb hw
  have hname := Emits.write name (writeU32_emits src hw)
  cases data with
  | none =>
    refine ⟨_, rfl, ?_⟩
    simpa only [Option.getD_none, append_nil, append_assoc] using hname
  | some data =>
    have hdata : ¬ data.length % 4 ≠ 0 := not_not.2 hdata
    refine ⟨write data (write name (writeU32 src mb)), if_neg hdata, ?_⟩
    simpa only [Option.getD_some, append_assoc] using Emits.write data hname

theorem fbEncode_emits {fci : Bytes} {ench : Ench} (h : EmitsOk ench fci) {ssrcPacket ssrcMedia : UInt32} :
    EmitsOk (fun mb => ench (writeU32 ssrcMedia (writeU32 ssrcPacket mb)))
      (u32Bytes ssrcPacket ++ (u32Bytes ssrcMedia ++ fci)) :=
  (h.after (writeU32_emits ssrcMedia)).after (writeU32_emits ssrcPacket)

theorem rrv_emits (rrv : List Rr) : EmitsOk (Packet.each (fun rr mb => (none, rtcpRrEncode rr mb)) rrv)
    (rrv.flatMap rrBytes) :=
  each_emits fun _ _ => EmitsOk.of_emits (rtcpRrEncode_emits)

theorem bodyEncode_emits {p : Packet} (hok : p.FieldsOk) (hwhole : p.Whole ∨ ∃ a b d, p = .afb a b d) :
    EmitsOk (bodyEncode p.count p.args) p.bytes := by
  cases p with
  | sr ssrc ntpSec ntpFrac rtpTs psent osent rrv =>
    have h := ((rrv_emits rrv).after (writeU32_emits osent)).after (writeU32_emits psent)
    exact (((h.after (writeU32_emits rtpTs)).after (writeU32_emits ntpFrac)).after (writeU32_emits ntpSec)).after
      (writeU32_emits ssrc)
  | rr ssrc rrv => exact (rrv_emits rrv).after (writeU32_emits ssrc)
  | sdes chunks =>
    exact each_emits fun c hc => rtcpSdesEncode_emits (hok c hc).1 fun t v hv => ((hok c hc).2 t v hv).2.1
  | bye srcv reason => exact byeEncode_emits
  | app subtype src name data =>
    rcases hwhole with hwhole | ⟨_, _, _, h⟩
    · exact appEncode_emits hwhole
    · cases h
  | fir count ssrc => exact EmitsOk.of_emits (writeU32_emits ssrc)
  | nack count ssrc fsn blp =>
    exact .of_emits ((writeU32_emits ssrc).comp ((writeU16_emits).comp (writeU16_emits)))
  | gnack ssrcPacket ssrcMedia l =>
    have hgnack (g : Gnack) : Emits (rtcpRtpfbGnackEncode g) (gnackBytes g) :=
      (writeU16_emits).comp (writeU16_emits)
    exact fbEncode_emits (each_emits fun g _ => EmitsOk.of_emits (hgnack g))
  | pli ssrcPacket ssrcMedia => exact fbEncode_emits (EmitsOk.of_emits Emits.id)
  | sli ssrcPacket ssrcMedia l =>
    have hsli (s : Sli) : Emits (rtcpPsfbSliEncode s) (sliBytes s) := writeU32_emits _
    exact fbEncode_emits (each_emits fun s _ => EmitsOk.of_emits (hsli s))
  | afb ssrcPacket ssrcMedia d =>
    exact fbEncode_emits (EmitsOk.of_emits (Emits.write d))

/-! ## What the decoder makes of it -/

@[simp] theorem length_u32Bytes : (u32Bytes v).length = 4 := length_beBytes 4 _

@[simp] theorem length_u16Bytes {v : UInt16} : (u16Bytes v).length = 2 := length_beBytes 2 _

theorem readU32_spells : Spells Mbuf.readU32 (u32Bytes v) v := by
  simpa [u32Bytes, Spells.ofNat_be32] using Spells.readU32 (length_u32Bytes v)

theorem readU16_spells {v : UInt16} : Spells Mbuf.readU16 (u16Bytes v) v := by
  simpa [u16Bytes, Spells.ofNat_be16] using Spells.readU16 (length_u16Bytes)

theorem toNat_fraction_lost (f : UInt8) (l : BitVec 24) :
    (f.toUInt32 <<< 24 ||| UInt32.ofNat l.toNat).toNat = f.toNat * 2 ^ 24 + l.toNat := by
  have hf := f.toNat_lt
  have hl := l.isLt
  rw [UInt32.toNat_or, UInt32.toNat_shiftLeft, UInt32.toNat_ofNat', Nat.mod_eq_of_lt (by omega : l.toNat < 2 ^ 32)]
  show f.toNat <<< 24 % 2 ^ 32 ||| l.toNat = _
  rw [Nat.shiftLeft_eq, Nat.mod_eq_of_lt (by omega), ← Nat.shiftLeft_eq, Nat.shiftLeft_add_eq_or_of_lt hl]

theorem rtcpRrDecode_spells : Spells rtcpRrDecode (rrBytes rr) rr := by
  have hw := toNat_fraction_lost rr.fraction rr.lost
  have hl := rr.lost.isLt
  have hf := rr.fraction.toNat_lt
  have hfraction : ((rr.fraction.toUInt32 <<< 24 ||| UInt32.ofNat rr.lost.toNat) >>> 24).toUInt8 = rr.fraction := by
    simp [← UInt8.toNat_inj, hw, Nat.shiftRight_eq_div_pow]
    omega
  have hlost : BitVec.ofNat 24 ((rr.fraction.toUInt32 <<< 24 ||| UInt32.ofNat rr.lost.toNat) &&& 0x00ffffff).toNat =
      rr.lost := by
    apply BitVec.eq_of_toNat_eq
    rw [BitVec.toNat_ofNat, UInt32.toNat_and, hw]
    show ((rr.fraction.toNat * 2 ^ 24 + rr.lost.toNat) &&& (2 ^ 24 - 1)) % 2 ^ 24 = _
    rw [Nat.and_two_pow_sub_one_eq_mod]
    omega
  have h : Spells (do
      let ssrc ← readU32
      let w ← readU32
      let lastSeq ← readU32
      let jitter ← readU32
      let lsr ← readU32
      let dlsr ← readU32
      return ⟨ssrc, (w >>> 24).toUInt8, BitVec.ofNat 24 (w &&& 0x00ffffff).toNat, lastSeq, jitter, lsr, dlsr⟩)
      (rrBytes rr) (⟨rr.ssrc, _, _, rr.lastSeq, rr.jitter, rr.lsr, rr.dlsr⟩ : Rr) :=
    (readU32_spells _).bind <| (readU32_spells _).bind <| (readU32_spells _).bind <| (readU32_spells _).bind <|
      (readU32_spells _).bind <| (readU32_spells _).map _
  rw [hfraction, hlost] at h
  exact Spells.require (by simp [rrBytes]) h

theorem rrv_spells {rrv : List Rr} : Spells (times rtcpRrDecode rrv.length) (rrv.flatMap rrBytes) rrv :=
  times_spells_self fun _ _ => rtcpRrDecode_spells

theorem gnackDecode_spells (g : Gnack) : Spells gnackDecode (gnackBytes g) g :=
  (readU16_spells).bind ((readU16_spells).map _)

theorem sliDecode_spells {s : Sli} (hs : s.first.toNat < 2 ^ 13 ∧ s.number.toNat < 2 ^ 13 ∧ s.picid.toNat < 2 ^ 6) :
    Spells sliDecode (sliBytes s) s := by
  obtain ⟨first, number, picid⟩ := s
  obtain ⟨hfirst, hnumber, hpicid⟩ := hs
  dsimp only at hfirst hnumber hpicid
  have hw : (first.toUInt32 <<< 19 ||| number.toUInt32 <<< 6 ||| picid.toUInt32).toNat =
      first.toNat * 2 ^ 19 + (number.toNat * 2 ^ 6 + picid.toNat) := by
    rw [UInt32.toNat_or, UInt32.toNat_or, UInt32.toNat_shiftLeft, UInt32.toNat_shiftLeft]
    show first.toNat <<< 19 % 2 ^ 32 ||| number.toNat <<< 6 % 2 ^ 32 ||| picid.toNat = _
    rw [Nat.shiftLeft_eq, Nat.shiftLeft_eq, Nat.mod_eq_of_lt (by omega), Nat.mod_eq_of_lt (by omega), Nat.or_assoc,
      ← Nat.shiftLeft_eq number.toNat, ← Nat.shiftLeft_add_eq_or_of_lt hpicid, ← Nat.shiftLeft_eq first.toNat,
      ← Nat.shiftLeft_add_eq_or_of_lt (by rw [Nat.shiftLeft_eq]; omega)]
  have hspell := (readU32_spells (first.toUInt32 <<< 19 ||| number.toUInt32 <<< 6 ||| picid.toUInt32)).map fun v =>
    (⟨((v >>> 19) &&& 0x1fff).toUInt16, ((v >>> 6) &&& 0x1fff).toUInt16, (v &&& 0x3f).toUInt8⟩ : Sli)
  generalize hv : first.toUInt32 <<< 19 ||| number.toUInt32 <<< 6 ||| picid.toUInt32 = v at hw hspell
  have hmask (n : Nat) : n &&& 8191 = n % 8192 := Nat.and_two_pow_sub_one_eq_mod n 13
  have h1 : ((v >>> 19) &&& 0x1fff).toUInt16 = first := by
    simp [← UInt16.toNat_inj, hw, hmask, Nat.shiftRight_eq_div_pow]
    omega
  have h2 : ((v >>> 6) &&& 0x1fff).toUInt16 = number := by
    simp [← UInt16.toNat_inj, hw, hmask, Nat.shiftRight_eq_div_pow]
    omega
  have h3 : (v &&& 0x3f).toUInt8 = picid := by
    simp [← UInt8.toNat_inj, hw, Nat.and_two_pow_sub_one_eq_mod _ 6]
    omega
  rw [h1, h2, h3] at hspell
  rw [sliBytes, hv]
  exact hspell

theorem itemsDecode_spells : ∀ (items : List (UInt8 × Option Bytes)) (m : Nat), (itemsBytes items).length < m →
    (∀ t v, (t, some v) ∈ items → t ≠ 0 ∧ v.length ≤ 255) → Spells (itemsDecode m) (itemsBytes items) (itemsOf items)
  | [], m, hm, _ => by
    obtain ⟨m, rfl⟩ : ∃ m', m = m' + 1 := ⟨m - 1, by omega⟩
    exact itemsDecode_end m
  | (t, none) :: items, m, hm, h =>
    itemsDecode_spells items m hm fun t' v' hv => h t' v' (mem_cons_of_mem _ hv)
  | (t, some v) :: items, m, hm, h => by
    obtain ⟨htype, hlen⟩ := h t v mem_cons_self
    have hbytes : itemsBytes ((t, some v) :: items) = [t] ++ ([UInt8.ofNat v.length] ++ (v ++ itemsBytes items)) := by
      simp [itemsBytes, itemBytes]
    rw [hbytes] at hm ⊢
    simp only [length_append, length_singleton] at hm
    obtain ⟨m, rfl⟩ : ∃ m', m = m' + 1 := ⟨m - 1, by omega⟩
    have hrest := itemsDecode_spells items m (by omega) fun t' v' hv => h t' v' (mem_cons_of_mem _ hv)
    refine itemsDecode_item htype ?_ hrest
    rw [UInt8.toNat_ofNat', Nat.mod_eq_of_lt (by omega)]

theorem length_append_padBytes (x : Bytes) : (x ++ padBytes x).length = pad4 x.length := by
  have := le_pad4 x.length
  rw [length_append, padBytes, length_replicate]
  omega

theorem chunk_spells (h : ∀ t v, (t, some v) ∈ c.2 → t ≠ 0 ∧ v.length ≤ 255) :
    Spells rtcpSdesDecode (chunkBytes c) ⟨c.1, itemsOf c.2⟩ := by
  have hspell := rtcpSdesDecode_spells (length_u32Bytes c.1) (fun m hm => itemsDecode_spells c.2 m hm h)
    (length_append_padBytes (itemsBytes c.2))
  rwa [u32Bytes, Spells.ofNat_be32] at hspell

structure HdrFor (p : Packet) (hdr : Hdr) : Prop where
  pt : Pt.ofCode hdr.pt = some p.args.type
  count : hdr.count = UInt8.ofNat p.count
  length : hdr.length.toNat * 4 = pad4 p.bytes.length

theorem HdrFor.count_toNat {p : Packet} {hdr : Hdr} (h : HdrFor p hdr) (hp : p.count ≤ 31) :
    hdr.count.toNat = p.count := by
  rw [h.count, UInt8.toNat_ofNat', Nat.mod_eq_of_lt (by omega)]

theorem fb_spells {length n : Nat} {fci : Nat → MbufM Fci} {x : Bytes} {v : Fci} {a b : UInt32}
    (hlen : length * 4 = pad4 (u32Bytes a ++ (u32Bytes b ++ x)).length) (hx : x.length = n * 4)
    (hfci : Spells (fci n) x v) : Spells (fbDecode length fci) (u32Bytes a ++ (u32Bytes b ++ x)) (.fb a b n v) := by
  obtain rfl : length = n + 2 := by
    simp only [length_append, length_u32Bytes, hx] at hlen
    unfold pad4 at hlen
    omega
  have hlen : ¬ n + 2 < 2 := by omega
  have hbody : Spells (do
      let ssrcPacket ← readU32
      let ssrcMedia ← readU32
      return Body.fb ssrcPacket ssrcMedia (n + 2 - 2) (← fci (n + 2 - 2))) (u32Bytes a ++ (u32Bytes b ++ x))
      (.fb a b n v) :=
    (readU32_spells a).bind ((readU32_spells b).bind (hfci.map (Body.fb a b n)))
  unfold fbDecode
  simp only [if_neg hlen]
  refine Spells.require ?_ hbody
  simp only [length_append, length_u32Bytes]
  omega

theorem flatMap_length {α : Type} {f : α → Bytes} {n : Nat} (hf : ∀ a, (f a).length = n) (l : List α) :
    (l.flatMap f).length = l.length * n := by
  induction l with
  | nil => simp
  | cons a l ih => rw [flatMap_cons, length_append, hf, ih, length_cons, Nat.succ_mul, Nat.add_comm]

theorem bye_spells {srcv : List UInt32} {reason : Option Bytes} {count rem : Nat} (hcount : count = srcv.length)
    (hreason : ∀ v, reason = some v → v.length ≤ 255)
    (hrem : rem = pad4 (srcv.flatMap u32Bytes ++ reasonBytes reason).length) :
    Spells (do
      require (count * 4)
      let srcv ← times readU32 count
      if rem > count * 4 then
        let len ← readU8
        require len.toNat
        return Body.bye srcv (some (← readMem len.toNat))
      else return Body.bye srcv none) (srcv.flatMap u32Bytes ++ reasonBytes reason) (.bye srcv reason) := by
  subst hcount
  have hlen := flatMap_length length_u32Bytes srcv
  have hsrcv : Spells (times readU32 srcv.length) (srcv.flatMap u32Bytes) srcv :=
    times_spells_self fun src _ => readU32_spells src
  refine Spells.require (by rw [length_append]; omega) (hsrcv.bind ?_)
  rw [length_append, hlen] at hrem
  cases reason with
  | none =>
    have hle : ¬ rem > srcv.length * 4 := by
      rw [hrem]
      show ¬ pad4 (srcv.length * 4 + 0) > _
      unfold pad4
      omega
    rw [if_neg hle]
    exact Spells.pure _
  | some v =>
    have hgt : rem > srcv.length * 4 := by
      rw [hrem, reasonBytes, length_append, length_singleton]
      unfold pad4
      omega
    have hv : v.length = (UInt8.ofNat v.length).toNat := by
      rw [UInt8.toNat_ofNat', Nat.mod_eq_of_lt (by have := hreason v rfl; omega)]
    rw [if_pos hgt]
    exact (Spells.readU8_byte _).bind (Spells.require (le_of_eq hv.symm) ((Spells.readMem hv).map _))

theorem app_spells {src : UInt32} {name d : Bytes} {rem : Nat} (hname : name.length = 4) (hrem : rem = 8 + d.length) :
    Spells (do
      require 8
      let src ← readU32
      let name ← readMem 4
      if rem > 8 then
        require (rem - 8)
        return Body.app src name (← readMem (rem - 8))
      else return Body.app src name []) (u32Bytes src ++ (name ++ d)) (.app src name d) := by
  refine Spells.require ?_ ((readU32_spells src).bind ((Spells.readMem hname).bind ?_))
  · simp only [length_append, length_u32Bytes]
    omega
  by_cases hgt : rem > 8
  · rw [if_pos hgt]
    exact Spells.require (by omega) ((Spells.readMem (by omega)).map _)
  obtain rfl : d = [] := length_eq_zero_iff.1 (by omega)
  rw [if_neg hgt]
  exact Spells.pure _

theorem afb_spells {x : Bytes} {n : Nat} (hx : x.length = n * 4) : Spells (rtcpPsfbDecode 15 n) x (.afb x) :=
  Spells.require (le_of_eq hx.symm) (afbDecode_spells hx)

theorem body_spells {p : Packet} (hok : p.Ok) (hwhole : p.Whole) {hdr : Hdr} (h : HdrFor p hdr) :
    Spells (bodyDecode hdr (hdr.length.toNat * 4)) p.bytes p.body := by
  have hcount := h.count_toNat hok.count
  have hc := h.count
  have hlen := h.length
  unfold bodyDecode
  rw [hcount, h.pt]
  cases p with
  | sr ssrc ntpSec ntpFrac rtpTs psent osent rrv =>
    refine Spells.require ?_ <| (readU32_spells _).bind <| (readU32_spells _).bind <| (readU32_spells _).bind <|
      (readU32_spells _).bind <| (readU32_spells _).bind <| (readU32_spells _).bind ((rrv_spells).map _)
    simp only [Packet.bytes, length_append, length_u32Bytes]
    omega
  | rr ssrc rrv =>
    refine Spells.require ?_ ((readU32_spells _).bind ((rrv_spells).map _))
    simp only [Packet.bytes, length_append, length_u32Bytes]
    omega
  | sdes chunks =>
    have hchunks : Spells (times rtcpSdesDecode chunks.length) (chunks.flatMap chunkBytes)
        (chunks.map fun c => ⟨c.1, itemsOf c.2⟩) :=
      times_spells fun c hc => chunk_spells fun t v hv =>
        ⟨((hok.fields c hc).2 t v hv).1, ((hok.fields c hc).2 t v hv).2.1⟩
    exact hchunks.map _
  | bye srcv reason => exact bye_spells rfl (fun v hv => (hok.fields v hv).1) hlen
  | app subtype src name data =>
    have hname : name.length = 4 := hok.fields
    have hwhole : (data.getD []).length % 4 = 0 := hwhole
    refine app_spells hname ?_
    rw [hlen]
    simp only [Packet.bytes, length_append, length_u32Bytes]
    unfold pad4
    omega
  | fir count ssrc => exact Spells.require (by simp [Packet.bytes]) ((readU32_spells _).map _)
  | nack count ssrc fsn blp =>
    exact Spells.require (by simp [Packet.bytes]) <| (readU32_spells _).bind <| (readU16_spells).bind <|
      (readU16_spells).map _
  | gnack ssrcPacket ssrcMedia l =>
    have hl : Spells (times gnackDecode l.length) (l.flatMap gnackBytes) l :=
      times_spells_self fun g _ => gnackDecode_spells g
    have hbytes := flatMap_length (f := gnackBytes) (n := 4) (fun _ => by simp [gnackBytes]) l
    have hfci : Spells (rtcpRtpfbDecode 1 l.length) (l.flatMap gnackBytes) (.gnackv l) :=
      Spells.require (by omega) (hl.map _)
    exact fb_spells hlen hbytes (by rw [hc]; exact hfci)
  | pli ssrcPacket ssrcMedia =>
    have hfci : Spells (rtcpPsfbDecode 1 0) [] .none := Spells.pure _
    exact fb_spells hlen rfl (by rw [hc]; exact hfci)
  | sli ssrcPacket ssrcMedia l =>
    have hl : Spells (times sliDecode l.length) (l.flatMap sliBytes) l :=
      times_spells_self fun s hs => sliDecode_spells (hok.fields s hs)
    have hbytes := flatMap_length (f := sliBytes) (n := 4) (fun _ => by simp [sliBytes]) l
    have hfci : Spells (rtcpPsfbDecode 2 l.length) (l.flatMap sliBytes) (.sliv l) :=
      Spells.require (by omega) (hl.map _)
    exact fb_spells hlen hbytes (by rw [hc]; exact hfci)
  | afb ssrcPacket ssrcMedia d =>
    have hwhole : d.length = d.length / 4 * 4 := (Nat.div_mul_cancel (Nat.dvd_of_mod_eq_zero hwhole)).symm
    exact fb_spells hlen hwhole (by rw [hc]; exact afb_spells hwhole)

/-! ## Whole packets -/

def hdrBytes (count : UInt8) (type : Pt) (length : UInt16) : Bytes :=
  [(2 : UInt8) <<< 6 ||| count] ++ ([type.code] ++ u16Bytes length)

theorem hdrOf_hdrBytes {count : UInt8} (hcount : count.toNat ≤ 31) {type : Pt} {length : UInt16} :
    hdrOf (hdrBytes count type length) = ⟨2, false, count, type.code, length⟩ := by
  have hbits : ∀ c : UInt8, c.toNat ≤ 31 → (((2 : UInt8) <<< 6 ||| c) >>> 6) &&& 0x3 = 2 ∧
      (((2 : UInt8) <<< 6 ||| c) >>> 5) &&& 0x1 = 0 ∧ ((2 : UInt8) <<< 6 ||| c) &&& 0x1f = c :=
    forall_uint8 (by decide +kernel)
  obtain ⟨hversion, hp, hc⟩ := hbits count hcount
  have h0 : numAt (hdrBytes count type length) 0 1 = ((2 : UInt8) <<< 6 ||| count).toNat := by
    simp [numAt, slice, hdrBytes, beNat]
  have h1 : numAt (hdrBytes count type length) 1 1 = type.code.toNat := by
    simp [numAt, slice, hdrBytes, beNat]
  have h2 : numAt (hdrBytes count type length) 2 2 = beNat (u16Bytes length) := by
    rw [numAt, slice]
    exact congrArg beNat (take_of_length_le (by simp [hdrBytes]))
  unfold hdrOf
  rw [h0, h1, h2, u16Bytes, Spells.ofNat_be16]
  simp only [UInt8.ofNat_toNat, hversion, hp, hc, ne_eq, not_true_eq_false, decide_false]

theorem rtcpHdrEncode_gap {s : Nat} {y : Bytes} {mb : Mbuf} (h : Gap s (s + 4) [] y mb) (count : UInt8) (type : Pt)
    (length : UInt16) : Gap s (s + 4) (hdrBytes count type length) y (rtcpHdrEncode count type length mb) := by
  have h1 := h.write [(2 : UInt8) <<< 6 ||| count] (by simp)
  have h2 := h1.write [type.code] (by simp)
  have h3 := h2.write (u16Bytes length) (by simp)
  simp only [nil_append, append_assoc] at h3
  exact h3

theorem rtcpEncode_wrote {count : UInt32} {args : Args} {d : Bytes} (h : EmitsOk (bodyEncode count.toNat args) d)
    (mb : Mbuf) :
    ∃ mb', rtcpEncode count args mb = (none, mb') ∧
      Wrote mb.pos (hdrBytes count.toUInt8 args.type (UInt16.ofNat (pad4 d.length / 4)) ++ (d ++ padBytes d)) mb' := by
  have hstart : Wrote (mb.pos + 4) [] ((mb.setPos (mb.pos + hdrSize)).setEnd (mb.pos + hdrSize)) :=
    ⟨rfl, rfl, by simp [slice]⟩
  obtain ⟨mb1, hbody, hw⟩ := h hstart
  rw [nil_append] at hw
  have hpad : (4 - (mb1.endPos - mb.pos) % 4) % 4 = pad4 d.length - d.length := padding_count (by rw [hw.endPos]; omega)
  have hw' := Emits.padding (pad4 d.length - d.length) hw
  have hend := hw'.endPos
  have hdlen := length_append_padBytes d
  rw [← padBytes, hdlen] at hend
  have hlen : ((write [0])^[pad4 d.length - d.length] mb1).endPos - mb.pos - hdrSize = pad4 d.length := by
    rw [hend, hdrSize]
    omega
  have hgap := rtcpHdrEncode_gap (hw'.gap (n := 4) (s := mb.pos) rfl) count.toUInt8 args.type
    (UInt16.ofNat (pad4 d.length / 4))
  refine ⟨_, ?_, hgap.wrote (by simp [hdrBytes])⟩
  unfold rtcpEncode
  simp only [hbody, hpad, hlen]

def RoundTrips (p : Packet) (mb : Mbuf) : Prop :=
  ∃ mb', rtcpEncode (UInt32.ofNat p.count) p.args mb = (none, mb') ∧ mb'.pos = mb'.endPos ∧
    ∃ hdr, hdr.count.toNat = p.count ∧ hdr.pt = p.args.type.code ∧
      rtcpDecode (mb'.setPos mb.pos) = .ok ⟨hdr, p.body⟩ mb'

theorem ofCode_code {t : Pt} : Pt.ofCode t.code = some t := by
  cases t <;> decide

theorem Packet.count_ofNat {p : Packet} (hp : p.count ≤ 31) :
    (UInt32.ofNat p.count).toNat = p.count ∧ (UInt32.ofNat p.count).toUInt8 = UInt8.ofNat p.count := by
  have h32 : (UInt32.ofNat p.count).toNat = p.count := by
    rw [UInt32.toNat_ofNat', Nat.mod_eq_of_lt (by omega)]
  refine ⟨h32, UInt8.toNat_inj.1 ?_⟩
  rw [UInt32.toNat_toUInt8, h32, UInt8.toNat_ofNat']

section
variable {p : Packet}

def Packet.hdr (p : Packet) : Bytes :=
  hdrBytes (UInt8.ofNat p.count) p.args.type (UInt16.ofNat (pad4 p.bytes.length / 4))

theorem hdrOf_hdr (hok : p.Ok) : hdrOf p.hdr =
    ⟨2, false, UInt8.ofNat p.count, p.args.type.code, UInt16.ofNat (pad4 p.bytes.length / 4)⟩ := by
  have hcount := hok.count
  exact hdrOf_hdrBytes (by rw [UInt8.toNat_ofNat']; omega)

theorem hdrFor (hok : p.Ok) : HdrFor p (hdrOf p.hdr) := by
  have hsize := hok.size
  rw [hdrOf_hdr hok]
  refine ⟨ofCode_code, rfl, ?_⟩
  show (UInt16.ofNat (pad4 p.bytes.length / 4)).toNat * 4 = pad4 p.bytes.length
  rw [UInt16.toNat_ofNat', Nat.mod_eq_of_lt (by omega)]
  unfold pad4
  omega

theorem decode_wrote (hok : p.Ok) {mb : Mbuf} {s : Nat} {y q : Bytes} {b : Body}
    (hw : Wrote s (p.hdr ++ (p.bytes ++ padBytes p.bytes)) mb) (hsplit : p.bytes ++ padBytes p.bytes = y ++ q)
    (hq : q.length < 4)
    (hy : ∀ hdr, HdrFor p hdr → Spells (bodyDecode hdr (hdr.length.toNat * 4)) y b) :
    mb.pos = mb.endPos ∧ ∃ hdr, hdr.count.toNat = p.count ∧ hdr.pt = p.args.type.code ∧
      rtcpDecode (mb.setPos s) = .ok ⟨hdr, b⟩ mb := by
  have hhdr := hdrFor hok
  have hof := hdrOf_hdr hok
  have hxlen : p.hdr.length = 4 := by simp [Packet.hdr, hdrBytes]
  have hlen : (y ++ q).length = bodyLen p.hdr := by
    rw [← hsplit, length_append_padBytes, bodyLen, hhdr.length]
  rw [hsplit] at hw
  have hspell := rtcpDecode_spells hxlen (by rw [hof]) hlen hq (hy _ hhdr)
  have hrest := hw.rest (by rw [← length_pos_iff, length_append]; omega)
  refine ⟨by rw [hw.pos, hw.endPos], hdrOf p.hdr, hhdr.count_toNat hok.count, by rw [hof], ?_⟩
  rw [hspell.apply_self hrest rfl]
  congr 1
  show (mb.setPos s).setPos (s + _) = mb
  rw [← hw.pos]
  rfl

theorem length_padBytes_lt {x : Bytes} : (padBytes x).length < 4 := by
  rw [padBytes, length_replicate]
  unfold pad4
  omega

theorem encode_wrote (hok : p.Ok) (hwhole : p.Whole ∨ ∃ a b d, p = .afb a b d) (mb : Mbuf) :
    ∃ mb', rtcpEncode (UInt32.ofNat p.count) p.args mb = (none, mb') ∧
      Wrote mb.pos (p.hdr ++ (p.bytes ++ padBytes p.bytes)) mb' := by
  obtain ⟨hcount, hcount'⟩ := Packet.count_ofNat hok.count
  have hemits := bodyEncode_emits hok.fields hwhole
  rw [← hcount] at hemits
  obtain ⟨mb', henc, hw⟩ := rtcpEncode_wrote hemits mb
  rw [hcount'] at hw
  exact ⟨mb', henc, hw⟩

theorem roundTrips_of_whole (hok : p.Ok) (hwhole : p.Whole) (mb : Mbuf) : RoundTrips p mb := by
  obtain ⟨mb', henc, hw⟩ := encode_wrote hok (.inl hwhole) mb
  exact ⟨mb', henc, decode_wrote hok hw rfl (length_padBytes_lt) fun hdr hhdr => body_spells hok hwhole hhdr⟩

theorem whole_of_roundTrips (hok : p.Ok) {mb : Mbuf} (h : RoundTrips p mb) : p.Whole := by
  obtain ⟨mb', henc, -, hdr, -, -, hdec⟩ := h
  cases p with
  | app subtype src name data =>
    -- the encoder refuses anything else
    cases data with
    | none => rfl
    | some data =>
      by_contra hne
      have hne : data.length % 4 ≠ 0 := hne
      simp only [Packet.args, rtcpEncode, bodyEncode, if_pos hne] at henc
      cases henc
  | afb a b d =>
    -- the decoder takes the padding for data
    obtain ⟨mb1, henc', hw⟩ := encode_wrote hok (.inr ⟨a, b, d, rfl⟩) mb
    rw [henc'] at henc
    cases henc
    have hsplit : (Packet.afb a b d).bytes ++ padBytes (Packet.afb a b d).bytes =
        u32Bytes a ++ (u32Bytes b ++ (d ++ padBytes (Packet.afb a b d).bytes)) ++ [] := by
      simp only [Packet.bytes, append_assoc, append_nil]
    have hlen := length_append_padBytes (Packet.afb a b d).bytes
    rw [hsplit] at hlen
    simp only [length_append, length_u32Bytes, length_nil] at hlen
    have hfci : (d ++ padBytes (Packet.afb a b d).bytes).length =
        (d ++ padBytes (Packet.afb a b d).bytes).length / 4 * 4 := by
      rw [length_append]
      unfold pad4 at hlen
      omega
    obtain ⟨-, hdr', -, -, hdec'⟩ := decode_wrote hok hw hsplit (by simp) (b := .fb a b _ _) fun hdr hhdr => by
      unfold bodyDecode
      rw [hhdr.pt]
      refine fb_spells ?_ hfci (by rw [hhdr.count]; exact afb_spells hfci)
      simp only [hhdr.length, length_append, length_u32Bytes]
      unfold pad4 at hlen ⊢
      omega
    rw [hdec'] at hdec
    simp only [EStateM.Result.ok.injEq, Msg.mk.injEq, Packet.body, Body.fb.injEq, Fci.afb.injEq] at hdec
    obtain ⟨⟨-, -, -, -, hd⟩, -⟩ := hdec
    rw [hd] at hfci
    show d.length % 4 = 0
    omega
  | _ => trivial

end

/-- **Encoding and decoding.** A packet with at most 31 sub-elements and fields in their ranges is
decoded as it was encoded, at any place of any buffer, exactly if its application data are whole
words. -/
theorem rtcp_roundTrips_iff (p : Packet) (hok : p.Ok) (mb : Mbuf) : RoundTrips p mb ↔ p.Whole :=
  ⟨whole_of_roundTrips hok, fun hwhole => roundTrips_of_whole hok hwhole mb⟩

theorem roundTrips_iff_bye :
    RoundTrips (.bye [1, 2] (some [98, 121, 101])) ⟨[], 0, 0⟩ ↔ (Packet.bye [1, 2] (some [98, 121, 101])).Whole := by
  refine rtcp_roundTrips_iff _ ⟨?_, by decide, by decide⟩ _
  rintro v ⟨⟩
  exact ⟨by decide, by decide⟩

def decoded (p : Packet) : Option Body :=
  match rtcpEncode (UInt32.ofNat p.count) p.args ⟨[], 0, 0⟩ with
  | (none, mb) =>
    match rtcpDecode (mb.setPos 0) with
    | .ok msg _ => some msg.r
    | .error _ _ => none
  | (some _, _) => none

/-- Application layer feedback of one byte comes back with three bytes of padding. -/
theorem afb_padding_taken_for_data :
    (Packet.afb 1 2 [5]).Ok ∧ decoded (.afb 1 2 [5]) = some (.fb 1 2 1 (.afb [5, 0, 0, 0])) ∧
      decoded (.afb 1 2 [5]) ≠ some (Packet.afb 1 2 [5]).body := by
  refine ⟨⟨trivial, by decide, by decide⟩, ?_, ?_⟩
  · decide +kernel
  · decide +kernel

end BareRTC.Rtcp
