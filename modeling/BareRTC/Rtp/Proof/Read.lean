import BareRTC.Re.Spell
import BareRTC.Rtp.Rtcp
import BareRTC.Stun.Proof.Read

/-!
# Where the RTCP decoder stops

`bodySize` says how many bytes the decoder moves over for the body of a packet, by its header and
what stands behind it: by the count for reports, by the length field for application data, by the
items for SDES. The decoder stops there (`bodyDecode_endsAt`), and what it made of the packet
depends on no byte behind that place, unless the buffer ends there. `rtcpDecode_ok` is the same for
a whole packet and `rtcpDecode_spells` its converse.
-/

namespace BareRTC.Rtcp

open List

open Mbuf

variable {α β : Type} {f : MbufM α} {n : Nat}

/-! ## Repeated decoders -/

theorem times_eats (hf : Eats f n) : ∀ c, Eats (times f c) (c * n)
  | 0 => by
    rw [Nat.zero_mul]
    exact Eats.pure []
  | c + 1 => by
    rw [Nat.succ_mul, Nat.add_comm (c * n)]
    exact hf.bind fun a => (times_eats hf c).map

theorem times_takes (hf : Takes f n) : ∀ c, Takes (times f c) (c * n)
  | 0 => by
    rw [Nat.zero_mul]
    exact Takes.pure []
  | c + 1 => by
    rw [Nat.succ_mul, Nat.add_comm (c * n)]
    exact hf.bind fun a => (times_takes hf c).map

theorem times_spells {x : β → Bytes} {g : β → α} : ∀ {l : List β}, (∀ b ∈ l, Spells f (x b) (g b)) →
    Spells (times f l.length) (l.flatMap x) (l.map g)
  | [], _ => Spells.pure []
  | b :: l, h => by
    rw [flatMap_cons]
    have hl := times_spells fun b' hb' => h b' (mem_cons_of_mem b hb')
    exact (h b mem_cons_self).bind (hl.map (g b :: ·))

theorem times_spells_self {x : α → Bytes} {l : List α} (h : ∀ a ∈ l, Spells f (x a) a) :
    Spells (times f l.length) (l.flatMap x) l := by
  have := times_spells (g := id) h
  rwa [map_id] at this

/-! ## Where a decoder stops -/

def EndsAt (f : MbufM α) (r : Bytes) (size : Option Nat) : Prop :=
  ∀ ⦃mb mb' : Mbuf⦄ ⦃a : α⦄, mb.Rest r → f mb = .ok a mb' →
    ∃ n, size = some n ∧ n ≤ r.length ∧ mb' = mb.setPos (mb.pos + n) ∧ (n < r.length → Spells f (r.take n) a)

theorem EndsAt.of_takes (hf : Takes f n) {r : Bytes} : EndsAt f r (some n) := by
  intro mb mb' a hr ha
  obtain ⟨hn, hs⟩ := hf hr ha
  exact ⟨n, rfl, hn, hf.eq hr ha, fun _ => hs⟩

theorem EndsAt.of_leads {g : MbufM α} {r : Bytes} {m : Nat} (hn : n ≤ r.length) (hf : Leads f (r.take n) g)
    (hg : Takes g m) : EndsAt f r (some (n + m)) := by
  intro mb mb' a hr ha
  rw [hf.apply hn hr] at ha
  obtain ⟨hm, hs⟩ := hg (hr.drop hn) ha
  rw [length_drop] at hm
  refine ⟨n + m, rfl, by omega, ?_, fun _ => ?_⟩
  · rw [hg.eq (hr.drop hn) ha, setPos_add]
  · rw [take_add]
    exact hf.trans hs

theorem EndsAt.map {r : Bytes} {size : Option Nat} (hf : EndsAt f r size) {g : α → β} :
    EndsAt (do return g (← f)) r size := by
  intro mb mb' b hr hb
  obtain ⟨a, mb1, ha, hb⟩ := bind_eq_ok.1 hb
  cases hb
  obtain ⟨n, hn, hle, hmb, hs⟩ := hf hr ha
  exact ⟨n, hn, hle, hmb, fun hlt => (hs hlt).map g⟩

def sizes (size : Bytes → Option Nat) : Nat → Bytes → Option Nat
  | 0, _ => some 0
  | c + 1, r => (size r).bind fun n => (sizes size c (r.drop n)).map (n + ·)

theorem times_endsAt {size : Bytes → Option Nat} (hf : ∀ r, EndsAt f r (size r)) :
    ∀ c r, EndsAt (times f c) r (sizes size c r)
  | 0, r => EndsAt.of_takes (Takes.pure [])
  | c + 1, r => by
    intro mb mb' l hr hl
    obtain ⟨a, mb1, ha, hl⟩ := bind_eq_ok.1 hl
    obtain ⟨n, hn, hle, rfl, hs⟩ := hf r hr ha
    obtain ⟨as, mb2, has, hl⟩ := bind_eq_ok.1 hl
    cases hl
    obtain ⟨m, hm, hle', rfl, hs'⟩ := times_endsAt hf c (r.drop n) (hr.drop hle) has
    rw [length_drop] at hle' hs'
    refine ⟨n + m, ?_, by omega, ?_, fun hlt => ?_⟩
    · rw [sizes, hn, Option.bind_some, hm, Option.map_some]
    · rw [setPos_add]
    · rw [take_add]
      exact (hs (by omega)).bind ((hs' (by omega)).map (a :: ·))

/-! ## Source descriptions -/

def itemsSize : Bytes → Option Nat
  | [] => some 0
  | [type] => if type = 0 then some 1 else none
  | type :: length :: r =>
    if type = 0 then some 1
    else if r.length < length.toNat then none
    else (itemsSize (r.drop length.toNat)).map (2 + length.toNat + ·)
  termination_by r => r.length
  decreasing_by
    simp only [length_cons, length_drop]
    omega

def chunkSize (r : Bytes) : Option Nat :=
  if r.length < 4 then none else (itemsSize (r.drop 4)).map fun n => min (pad4 (4 + n)) r.length

variable {x : Bytes} (count : UInt8) {y p : Bytes}

section
variable {mb mb' : Mbuf} {r : Bytes} {l : List SdesItem}

theorem itemsDecode_nil (hr : mb.Rest []) : itemsDecode (n + 1) mb = .ok [] mb := by
  have hlt : mb.getLeft < 1 := by
    rw [hr.getLeft]
    exact Nat.zero_lt_one
  exact congrFun (if_pos hlt) mb

theorem itemsDecode_leads {type : UInt8} (n : Nat) : Leads (itemsDecode (n + 1)) [type]
    (if type = 0 then pure [] else do
      require 1
      let length ← readU8
      require length.toNat
      let data ← readMem length.toNat
      return ⟨type, data⟩ :: (← itemsDecode n)) := by
  intro mb t hr
  have hge : ¬ mb.getLeft < 1 := by
    rw [hr.getLeft, length_append, length_singleton]
    omega
  exact (congrFun (if_neg hge) mb).trans (bind_of_ok (Spells.readU8_byte type hr))

theorem itemsDecode_end (n : Nat) : Spells (itemsDecode (n + 1)) [0] [] := itemsDecode_leads n

theorem itemsDecode_item {type : UInt8} {data : Bytes} (htype : type ≠ 0) {length : UInt8}
    (hlen : data.length = length.toNat) (hx : Spells (itemsDecode n) x l) :
    Spells (itemsDecode (n + 1)) ([type] ++ ([length] ++ (data ++ x))) (⟨type, data⟩ :: l) := by
  refine (itemsDecode_leads n).trans ?_
  rw [if_neg htype]
  refine Leads.require (by rw [length_append, length_singleton]; omega) ?_
  refine (Leads.bind (Spells.readU8_byte length)).trans ?_
  refine Leads.require (by rw [length_append]; omega) ?_
  exact (Spells.readMem hlen).bind (hx.map (⟨type, data⟩ :: ·))

theorem itemsDecode_step {type length : UInt8} {t : Bytes} (htype : type ≠ 0)
    (hr : mb.Rest (type :: length :: t)) (hl : itemsDecode (n + 1) mb = .ok l mb') :
    length.toNat ≤ t.length ∧ ∃ l', l = ⟨type, t.take length.toNat⟩ :: l' ∧
      itemsDecode n (mb.setPos (mb.pos + (2 + length.toNat))) = .ok l' mb' := by
  have hrest : (mb.setPos (mb.pos + 2)).Rest t := hr.drop (n := 2) (by simp)
  have hlead : itemsDecode (n + 1) mb = (do
      require length.toNat
      let data ← readMem length.toNat
      return ⟨type, data⟩ :: (← itemsDecode n) : MbufM (List SdesItem)) (mb.setPos (mb.pos + 2)) := by
    refine (itemsDecode_leads n hr).trans ?_
    rw [if_neg htype]
    have hr1 : (mb.setPos (mb.pos + 1)).Rest ([length] ++ t) := hr.drop (n := 1) (by simp)
    exact Leads.require (le_refl 1) (Leads.bind (Spells.readU8_byte length)) hr1
  rw [hlead] at hl
  obtain ⟨hlen, hl⟩ := hrest.require_ok hl
  have hdata := (Spells.readMem (length_take_of_le hlen)).apply hlen hrest
  rw [bind_of_ok hdata] at hl
  obtain ⟨l', mb2, hl', hl⟩ := bind_eq_ok.1 hl
  cases hl
  refine ⟨hlen, l', rfl, ?_⟩
  rw [← hl', ← Nat.add_assoc]
  rfl

/-- Where the loop over the items stops; the number of steps that it may take is no matter. -/
theorem itemsDecode_ok : ∀ (n : Nat) {r : Bytes} {mb mb' : Mbuf} {l : List SdesItem}, r.length < n → mb.Rest r →
    itemsDecode n mb = .ok l mb' → ∃ k, itemsSize r = some k ∧ k ≤ r.length ∧ mb' = mb.setPos (mb.pos + k) ∧
      (k < r.length → ∀ m, k < m → Spells (itemsDecode m) (r.take k) l)
  | 0, _, _, _, _, hn, _, _ => absurd hn (Nat.not_lt_zero _)
  | n + 1, [], mb, mb', l, _, hr, hl => by
    rw [itemsDecode_nil hr] at hl
    cases hl
    exact ⟨0, by rw [itemsSize], le_refl 0, rfl, fun h => absurd h (lt_irrefl 0)⟩
  | n + 1, type :: t, mb, mb', l, hn, hr, hl => by
    have hr' : mb.Rest ([type] ++ t) := hr
    by_cases htype : type = 0
    · -- the end of the items
      subst htype
      rw [itemsDecode_end n hr'] at hl
      cases hl
      refine ⟨1, ?_, by simp, rfl, fun _ m hm => ?_⟩
      · cases t <;> simp [itemsSize]
      · obtain ⟨m, rfl⟩ : ∃ m', m = m' + 1 := ⟨m - 1, by omega⟩
        exact itemsDecode_end m
    cases t with
    | nil =>
      -- a type without a length
      exfalso
      have hrest : (mb.setPos (mb.pos + [type].length)).Rest [] := hr'.skip
      have hlead := itemsDecode_leads n hr'
      rw [if_neg htype] at hlead
      exact absurd (hrest.require_ok (hlead.symm.trans hl)).1 (Nat.not_succ_le_zero 0)
    | cons length t =>
      obtain ⟨hlen, l', rfl, hl'⟩ := itemsDecode_step htype hr hl
      have hrest : (mb.setPos (mb.pos + (2 + length.toNat))).Rest (t.drop length.toNat) := by
        have := hr.drop (n := 2 + length.toNat) (by simp only [length_cons]; omega)
        rwa [show (type :: length :: t).drop (2 + length.toNat) = t.drop length.toNat by
          rw [← drop_drop]; rfl] at this
      simp only [length_cons] at hn
      obtain ⟨k, hk, hle, rfl, hs⟩ := itemsDecode_ok n (by rw [length_drop]; omega) hrest hl'
      rw [length_drop] at hle hs
      refine ⟨2 + length.toNat + k, ?_, by simp only [length_cons]; omega, ?_, fun hlt m hm => ?_⟩
      · rw [itemsSize, if_neg htype, if_neg (by omega), hk, Option.map_some]
      · rw [setPos_add]
      simp only [length_cons] at hlt
      obtain ⟨m, rfl⟩ : ∃ m', m = m' + 1 := ⟨m - 1, by omega⟩
      have hdata : (t.take length.toNat).length = length.toNat := length_take_of_le (by omega)
      have hitem := itemsDecode_item htype hdata (hs (by omega) m (by omega))
      rw [← take_add] at hitem
      rw [show 2 + length.toNat + k = length.toNat + k + 1 + 1 by omega, take_succ_cons, take_succ_cons]
      exact hitem

theorem rtcpSdesDecode_spells (hx : x.length = 4)
    (hy : ∀ m, y.length < m → Spells (itemsDecode m) y l) (hp : (y ++ p).length = pad4 y.length) :
    Spells rtcpSdesDecode (x ++ (y ++ p)) ⟨UInt32.ofNat (beNat x), l⟩ := by
  intro mb t hr
  have hsrc : Mbuf.Rest mb (x ++ (y ++ p ++ t)) := by rwa [append_assoc] at hr
  have hitems : (mb.setPos (mb.pos + x.length)).Rest (y ++ (p ++ t)) := by
    have := hsrc.skip
    rwa [append_assoc] at this
  have hreq : require 4 mb = .ok () mb := require_of_le (by rw [hsrc.getLeft, length_append]; omega)
  have hloop := hy ((mb.setPos (mb.pos + x.length)).getLeft + 1) (by rw [hitems.getLeft, length_append]; omega) hitems
  have hskip := skipPadding_eq hr (n := x.length + y.length) (by simp only [length_append]; omega)
  have hend : min (pad4 (x.length + y.length)) (x ++ (y ++ p) ++ t).length = (x ++ (y ++ p)).length := by
    simp only [length_append] at hp ⊢
    unfold pad4 at hp ⊢
    omega
  rw [hend, ← Nat.add_assoc] at hskip
  refine (bind_of_ok hreq).trans ?_
  refine (bind_of_ok (Spells.readU32 hx hsrc)).trans ?_
  refine (bind_of_ok hloop).trans ?_
  exact congrArg (EStateM.Result.ok _) hskip

theorem rtcpSdesDecode_endsAt (r : Bytes) : EndsAt rtcpSdesDecode r (chunkSize r) := by
  intro mb mb' sdes hr hs
  obtain ⟨h4, hs⟩ := hr.require_ok hs
  have htake := length_take_of_le h4
  have hsrc := (Spells.readU32 htake).apply h4 hr
  rw [get_bind, bind_of_ok hsrc, get_bind] at hs
  obtain ⟨itemv, mb2, hitems, hs⟩ := bind_eq_ok.1 hs
  have hrest := hr.drop h4
  obtain ⟨k, hk, hle, rfl, hspell⟩ := itemsDecode_ok _ (by rw [hrest.getLeft]; omega) hrest hitems
  rw [length_drop] at hle hspell
  have hskip := skipPadding_eq hr (n := 4 + k) (by omega)
  rw [← Nat.add_assoc] at hskip
  cases hs
  refine ⟨min (pad4 (4 + k)) r.length, ?_, by omega, hskip, fun hlt => ?_⟩
  · rw [chunkSize, if_neg (by omega), hk, Option.map_some]
  -- the items end inside the buffer, and so does the padding
  have hpad : min (pad4 (4 + k)) r.length = 4 + (k + (pad4 k - k)) := by
    unfold pad4 at hlt ⊢
    omega
  have hfour : 4 + pad4 k ≤ r.length := by
    unfold pad4 at hlt ⊢
    omega
  have hkk := le_pad4 k
  have hlen : ((r.drop 4).take k).length = k := by
    rw [length_take, length_drop]
    omega
  rw [hpad, take_add, take_add]
  refine rtcpSdesDecode_spells htake (fun m hm => hspell (by omega) m (by omega)) ?_
  rw [← take_add, hlen, length_take, length_drop]
  omega

end

/-! ## Feedback -/

theorem rtcpRrDecode_takes : Takes rtcpRrDecode 24 :=
  Takes.of_eats <| Eats.readU32.bind fun _ => Eats.readU32.bind fun _ => Eats.readU32.bind fun _ =>
    Eats.readU32.bind fun _ => Eats.readU32.bind fun _ => Eats.readU32.map

theorem gnackDecode_eats : Eats gnackDecode 4 := Eats.readU16.bind fun _ => Eats.readU16.map

theorem sliDecode_eats : Eats sliDecode 4 := Eats.readU32.map

theorem afbDecode_spells (hx : x.length = n * 4) :
    Spells (do
      let mb ← get
      advance (n * 4)
      return Fci.afb (slice mb.buf mb.pos (n * 4))) x (.afb x) := by
  intro mb t hr
  have hslice := hr.slice (n := n * 4) (by rw [length_append]; omega)
  rw [← hx, take_left, hx] at hslice
  refine (get_bind).trans ?_
  rw [hslice]
  exact (Spells.advance hx).map (fun _ => Fci.afb x) hr

def rtpfbSize (count : UInt8) (n : Nat) : Nat := if count = 1 then n * 4 else 0

def psfbSize (count : UInt8) (n : Nat) : Nat := if count = 2 ∨ count = 15 then n * 4 else 0

theorem rtcpRtpfbDecode_takes : Takes (rtcpRtpfbDecode count n) (rtpfbSize count n) := by
  unfold rtcpRtpfbDecode rtpfbSize
  split
  · exact Takes.of_eats ((times_eats gnackDecode_eats n).map)
  · exact Takes.pure _

theorem rtcpPsfbDecode_takes : Takes (rtcpPsfbDecode count n) (psfbSize count n) := by
  unfold rtcpPsfbDecode psfbSize
  by_cases h1 : count = 1
  · subst h1
    exact Takes.pure _
  by_cases h2 : count = 2
  · subst h2
    exact Takes.of_eats ((times_eats sliDecode_eats n).map)
  by_cases h15 : count = 15
  · subst h15
    exact Takes.of_eats fun x hx => ⟨_, afbDecode_spells hx⟩
  · rw [if_neg h1, if_neg h2, if_neg h15, if_neg (by tauto)]
    exact Takes.pure _

theorem fbDecode_takes {length m : Nat} {fci : Nat → MbufM Fci} (hfci : Takes (fci (length - 2)) m) :
    Takes (fbDecode length fci) (8 + m) := by
  by_cases hlt : length < 2
  · intro mb mb' r a _ ha
    obtain ⟨⟨⟩, mb1, _, ha⟩ := bind_eq_ok.1 ha
    rw [if_pos hlt] at ha
    cases ha
  have hbody : Takes (require 8 >>= fun _ => do
      let ssrcPacket ← readU32
      let ssrcMedia ← readU32
      return Body.fb ssrcPacket ssrcMedia (length - 2) (← fci (length - 2))) (8 + m) :=
    Takes.require <| Opens.bind (n := 4) (m := 4) Eats.readU32 fun _ => Opens.bind (m := 0) Eats.readU32 fun _ =>
      Opens.done (hfci.map)
  unfold fbDecode
  simp only [if_neg hlt]
  exact hbody

/-! ## Bodies -/

def bodySize (hdr : Hdr) (r : Bytes) : Option Nat :=
  let count := hdr.count.toNat
  let length := hdr.length.toNat
  match Pt.ofCode hdr.pt with
  | some .sr => some (24 + count * 24)
  | some .rr => some (4 + count * 24)
  | some .sdes => sizes chunkSize count r
  | some .bye =>
    some (if length * 4 > count * 4 then count * 4 + 1 + (UInt8.ofNat (numAt r (count * 4) 1)).toNat else count * 4)
  | some .app => some (8 + (length * 4 - 8))
  | some .fir => some 4
  | some .nack => some 8
  | some .rtpfb => some (8 + rtpfbSize hdr.count (length - 2))
  | some .psfb => some (8 + psfbSize hdr.count (length - 2))
  | none => some (length * 4)

variable {rem : Nat}

theorem byeDecode_endsAt {count : Nat} {r : Bytes} (hr : rem ≤ r.length) :
    EndsAt (do
      require (count * 4)
      let srcv ← times readU32 count
      if rem > count * 4 then
        let len ← readU8
        require len.toNat
        return Body.bye srcv (some (← readMem len.toNat))
      else return Body.bye srcv none) r
      (some (if rem > count * 4 then count * 4 + 1 + (UInt8.ofNat (numAt r (count * 4) 1)).toNat else count * 4)) := by
  by_cases hrem : rem > count * 4
  · simp only [if_pos hrem]
    have htake : (r.take (count * 4)).length = count * 4 := length_take_of_le (by omega)
    have hone : (slice r (count * 4) 1).length = 1 := length_slice (by omega)
    obtain ⟨srcv, hsrcv⟩ := times_eats Eats.readU32 count _ htake
    have hreason (len : UInt8) : Takes (do
        require len.toNat
        return Body.bye srcv (some (← readMem len.toNat))) len.toNat := Takes.of_eats (Eats.readMem.map)
    refine EndsAt.of_leads (by omega) ?_ (hreason _)
    rw [take_add]
    refine Leads.require (by rw [length_append]; omega) ?_
    refine (Leads.bind hsrcv).trans ?_
    exact Leads.bind (Spells.readU8 hone)
  · simp only [if_neg hrem]
    exact EndsAt.of_takes (Takes.of_eats ((times_eats Eats.readU32 count).map))

theorem appDecode_takes :
    Takes (do
      require 8
      let src ← readU32
      let name ← readMem 4
      if rem > 8 then
        require (rem - 8)
        return Body.app src name (← readMem (rem - 8))
      else return Body.app src name []) (8 + (rem - 8)) := by
  refine Takes.require <| Opens.bind (n := 4) (m := 4) Eats.readU32 fun src =>
    Opens.bind (m := 0) Eats.readMem fun name => Opens.done ?_
  by_cases hrem : rem > 8
  · rw [if_pos hrem]
    exact Takes.of_eats (Eats.readMem.map)
  · rw [if_neg hrem, Nat.sub_eq_zero_of_le (by omega)]
    exact Takes.pure _

theorem bodyDecode_endsAt {hdr : Hdr} {r : Bytes} (hr : hdr.length.toNat * 4 ≤ r.length) :
    EndsAt (bodyDecode hdr (hdr.length.toNat * 4)) r (bodySize hdr r) := by
  unfold bodyDecode bodySize
  cases Pt.ofCode hdr.pt with
  | none =>
    intro mb mb' a hr' ha
    cases ha
    refine ⟨_, rfl, hr, rfl, fun _ => ?_⟩
    exact (Spells.advance (by rw [length_take]; omega)).map fun _ => Body.unknown
  | some pt =>
    cases pt with
    | sr =>
      exact EndsAt.of_takes (Takes.require (n := 24) <| Opens.bind (n := 4) (m := 20) Eats.readU32 fun _ =>
        Opens.bind (n := 4) (m := 16) Eats.readU32 fun _ => Opens.bind (n := 4) (m := 12) Eats.readU32 fun _ =>
        Opens.bind (n := 4) (m := 8) Eats.readU32 fun _ => Opens.bind (n := 4) (m := 4) Eats.readU32 fun _ =>
        Opens.bind (m := 0) Eats.readU32 fun _ => Opens.done ((times_takes rtcpRrDecode_takes _).map))
    | rr =>
      exact EndsAt.of_takes (Takes.require (n := 4) <| Opens.bind (m := 0) Eats.readU32 fun _ =>
        Opens.done ((times_takes rtcpRrDecode_takes _).map))
    | sdes => exact (times_endsAt rtcpSdesDecode_endsAt _ r).map
    | bye => exact byeDecode_endsAt hr
    | app => exact EndsAt.of_takes (appDecode_takes)
    | fir => exact EndsAt.of_takes (Takes.of_eats (Eats.readU32.map))
    | nack =>
      exact EndsAt.of_takes (Takes.of_eats <| Eats.readU32.bind fun _ => Eats.readU16.bind fun _ =>
        Eats.readU16.map)
    | rtpfb => exact EndsAt.of_takes (fbDecode_takes (rtcpRtpfbDecode_takes _))
    | psfb => exact EndsAt.of_takes (fbDecode_takes (rtcpPsfbDecode_takes _))

/-! ## Packets -/

def hdrOf (r : Bytes) : Hdr :=
  let b := UInt8.ofNat (numAt r 0 1)
  ⟨(b >>> 6) &&& 0x3, (b >>> 5) &&& 0x1 ≠ 0, b &&& 0x1f, UInt8.ofNat (numAt r 1 1), UInt16.ofNat (numAt r 2 2)⟩

theorem hdrOf_append {t : Bytes} (hx : 4 ≤ x.length) : hdrOf (x ++ t) = hdrOf x := by
  unfold hdrOf
  rw [numAt_append (by omega), numAt_append (by omega), numAt_append (by omega)]

def bodyLen (r : Bytes) : Nat := (hdrOf r).length.toNat * 4

variable {mb mb' : Mbuf} {r : Bytes} {msg : Msg}

theorem rtcpHdrDecode_eq (hr : mb.Rest r) (h4 : 4 ≤ r.length) :
    rtcpHdrDecode mb = .ok (hdrOf r) (mb.setPos (mb.pos + 4)) := by
  refine (bind_of_ok (hr.require_of_le 0 (by omega) h4)).trans ?_
  refine (bind_of_ok (hr.readU8 0 (by omega))).trans ?_
  refine (bind_of_ok (hr.readU8 1 (by omega))).trans ?_
  exact bind_of_ok (hr.readU16 2 (by omega))

theorem rtcpDecode_head (hr : mb.Rest r) (h4 : 4 ≤ r.length) (hver : (hdrOf r).version = 2) :
    rtcpDecode mb = (do
      require (bodyLen r)
      let b ← bodyDecode (hdrOf r) (bodyLen r)
      modify (skipPadding mb.pos 3)
      return ⟨hdrOf r, b⟩ : MbufM Msg) (mb.setPos (mb.pos + 4)) := by
  refine (get_bind).trans ?_
  refine (bind_of_ok (rtcpHdrDecode_eq hr h4)).trans ?_
  exact congrFun (if_neg (not_not.2 hver)) _

/-- A packet that is decoded: the version, the length and where the decoder stops. -/
theorem rtcpDecode_ok (hr : mb.Rest r) (hok : rtcpDecode mb = .ok msg mb') :
    4 + bodyLen r ≤ r.length ∧ (hdrOf r).version = 2 ∧ msg.hdr = hdrOf r ∧
      ∃ n, bodySize (hdrOf r) (r.drop 4) = some n ∧ 4 + n ≤ r.length ∧
        mb' = mb.setPos (mb.pos + min (pad4 (4 + n)) r.length) ∧
        (4 + n < r.length → Spells (bodyDecode (hdrOf r) (bodyLen r)) ((r.drop 4).take n) msg.r) := by
  have h4 : 4 ≤ r.length := by
    by_contra hlt
    have herr : rtcpHdrDecode mb = .error .EBADMSG mb :=
      bind_of_error (hr.require_of_lt (n := 4) 0 (by omega) (by omega))
    have : rtcpDecode mb = .error .EBADMSG mb := (get_bind).trans (bind_of_error herr)
    rw [this] at hok
    cases hok
  have hver : (hdrOf r).version = 2 := by
    by_contra hne
    have : rtcpDecode mb = .error .EBADMSG (mb.setPos (mb.pos + 4)) :=
      (get_bind).trans <| (bind_of_ok (rtcpHdrDecode_eq hr h4)).trans (congrFun (if_pos hne) _)
    rw [this] at hok
    cases hok
  rw [rtcpDecode_head hr h4 hver] at hok
  have hrest := hr.drop h4
  obtain ⟨hlen, hok⟩ := hrest.require_ok hok
  obtain ⟨b, mb2, hb, hok⟩ := bind_eq_ok.1 hok
  obtain ⟨n, hn, hle, rfl, hs⟩ := bodyDecode_endsAt hlen hrest hb
  rw [length_drop] at hlen hle hs
  cases hok
  refine ⟨by omega, hver, rfl, n, hn, by omega, ?_, fun hlt => hs (by omega)⟩
  rw [setPos_add]
  exact skipPadding_eq hr (by omega)

theorem rtcpDecode_spells {b : Body} (hx : x.length = 4) (hver : (hdrOf x).version = 2)
    (hlen : (y ++ p).length = bodyLen x) (hp : p.length < 4) (hy : Spells (bodyDecode (hdrOf x) (bodyLen x)) y b) :
    Spells rtcpDecode (x ++ (y ++ p)) ⟨hdrOf x, b⟩ := by
  intro mb t hr
  have hr' : mb.Rest (x ++ (y ++ p ++ t)) := by rwa [append_assoc] at hr
  have hhdr : hdrOf (x ++ (y ++ p) ++ t) = hdrOf x := by
    rw [append_assoc]
    exact hdrOf_append (by omega)
  have hbody : (mb.setPos (mb.pos + 4)).Rest (y ++ (p ++ t)) := by
    have := hr'.skip
    rwa [hx, append_assoc] at this
  have hreq : require (bodyLen x) (mb.setPos (mb.pos + 4)) = .ok () (mb.setPos (mb.pos + 4)) := by
    refine require_of_le ?_
    rw [hbody.getLeft, ← append_assoc, length_append, hlen]
    omega
  have hskip := skipPadding_eq hr (n := 4 + y.length) (by simp only [length_append]; omega)
  have hend : min (pad4 (4 + y.length)) (x ++ (y ++ p) ++ t).length = (x ++ (y ++ p)).length := by
    unfold bodyLen at hlen
    simp only [length_append] at hlen ⊢
    unfold pad4
    omega
  rw [hend, ← Nat.add_assoc] at hskip
  rw [rtcpDecode_head hr (by simp only [length_append]; omega) (by rw [hhdr]; exact hver), bodyLen, hhdr, ← bodyLen]
  refine (bind_of_ok hreq).trans ?_
  refine (bind_of_ok (hy hbody)).trans ?_
  exact congrArg (EStateM.Result.ok _) hskip

end BareRTC.Rtcp
