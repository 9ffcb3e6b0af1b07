import BareRTC.Lib.Segments
import BareRTC.Re.Write
import BareRTC.Websock.Proof.Decode

/-!
# Frames from one connection to the other

`websock_send` writes the header in front of the payload (`eq_wire_of_sent`); what it writes is
decoded again, with anything behind it (`websockDecode_wire`), and a part of it is not
(`websockDecode_part`). So `recv_handler` deals with the frames that are whole
(`recvHandler_deals`), and the frames of any segments of the stream are delivered once
(`frames_delivered_once`).
-/

namespace BareRTC.Websock

open List

open Mbuf Segments

/-! ## What is sent -/

def lenField (maskBit : UInt8) (n : Nat) : Bytes :=
  if n > 0xffff then (maskBit ||| 127) :: beBytes 8 n
  else if n > 125 then (maskBit ||| 126) :: beBytes 2 n
  else [maskBit ||| UInt8.ofNat n]

def headBytes (opcode : Opcode) (mkey : Option Bytes) (n : Nat) : Bytes :=
  (0x80 ||| (opcode.code &&& 0x0f)) :: (lenField (if mkey.isSome then 0x80 else 0) n ++ mkey.getD [])

def maskBytes (mkey : Option Bytes) (payload : Bytes) : Bytes :=
  match mkey with
  | none => payload
  | some key => xorKey key payload

def wire (opcode : Opcode) (mkey : Option Bytes) (payload : Bytes) : Bytes :=
  headBytes opcode mkey payload.length ++ maskBytes mkey payload

variable {d key : Bytes}

theorem length_xorKey : (xorKey key d).length = d.length := length_mapIdx

theorem length_maskBytes {mkey : Option Bytes} : (maskBytes mkey d).length = d.length := by
  cases mkey with
  | none => rfl
  | some key => exact length_xorKey

variable {n : Nat}

theorem length_headBytes {opcode : Opcode} {mkey : Option Bytes} (hkey : ∀ k ∈ mkey, k.length = 4) :
    (if n > 0xffff then 0 else if n > 125 then 6 else 8) + (headBytes opcode mkey n).length =
      if mkey.isSome then 14 else 10 := by
  have hk : (mkey.getD []).length = if mkey.isSome then 4 else 0 := by
    cases mkey with
    | none => rfl
    | some k => exact hkey k rfl
  rw [headBytes, length_cons, length_append, hk, lenField]
  by_cases h1 : n > 0xffff
  · simp only [if_pos h1, length_cons, length_beBytes]
    split <;> omega
  by_cases h2 : n > 125
  · simp only [if_neg h1, if_pos h2, length_cons, length_beBytes]
    split <;> omega
  · simp only [if_neg h1, if_neg h2, length_singleton]
    split <;> omega

variable {mb : Mbuf} {rest : Bytes}

theorem gap_mask {s e : Nat} {x y : Bytes} (h : Gap s e x y mb) (hx : x ≠ []) (he : s + x.length = e)
    (key : Bytes) : Gap s e x (xorKey key y) (mb.poke mb.pos (xorKey key (slice mb.buf mb.pos y.length))) := by
  have hpos : mb.pos = e := h.pos.trans he
  have hle : e ≤ mb.buf.length := by
    have hlen := congrArg List.length h.front
    have := length_pos_iff.2 hx
    rw [slice, length_take, length_drop] at hlen
    omega
  rw [hpos, h.back]
  refine ⟨h.pos, h.le, ?_, ?_, ?_⟩
  · rw [length_xorKey]
    exact h.endPos
  · exact (slice_overwrite_before hle (by omega)).trans h.front
  · exact slice_overwrite_self hle

theorem websockEncode_gap {s e : Nat} {payload : Bytes} (h : Gap s e [] payload mb) {opcode : Opcode}
    {mkey : Option Bytes} (he : s + (headBytes opcode mkey payload.length).length = e) :
    Gap s e (headBytes opcode mkey payload.length) (maskBytes mkey payload)
      (websockEncode true opcode mkey payload.length mb) := by
  have hsize := he
  rw [headBytes, length_cons, length_append] at hsize
  let b := 0x80 ||| (opcode.code &&& 0x0f)
  have hfirst := h.write [b] (by simp only [nil_append, length_singleton]; omega)
  have hlen : ∀ m : UInt8, s + (1 + (lenField m payload.length).length) ≤ e →
      Gap s e (b :: lenField m payload.length) payload
        (if payload.length > 0xffff then write (beBytes 8 payload.length) (write [m ||| 127] (write [b] mb))
        else if payload.length > 125 then write (beBytes 2 payload.length) (write [m ||| 126] (write [b] mb))
        else write [m ||| UInt8.ofNat payload.length] (write [b] mb)) := by
    intro m hm
    unfold lenField at hm ⊢
    split
    · rename_i hbig
      simp only [if_pos hbig, length_cons, length_beBytes] at hm
      have hsecond := hfirst.write [m ||| 127] (by simp; omega)
      exact hsecond.write (beBytes 8 payload.length) (by simp [length_beBytes]; omega)
    rename_i hbig
    split
    · rename_i hmid
      simp only [if_neg hbig, if_pos hmid, length_cons, length_beBytes] at hm
      have hsecond := hfirst.write [m ||| 126] (by simp; omega)
      exact hsecond.write (beBytes 2 payload.length) (by simp [length_beBytes]; omega)
    · rename_i hmid
      simp only [if_neg hbig, if_neg hmid, length_singleton] at hm
      exact hfirst.write _ (by simp; omega)
  cases mkey with
  | none =>
    have := hlen 0 (by simp only [Option.isSome_none, Bool.false_eq_true, if_false] at hsize; omega)
    simpa [headBytes, maskBytes, websockEncode] using this
  | some key =>
    simp only [Option.isSome_some, if_true, Option.getD_some] at hsize
    have hkey := (hlen 0x80 (by omega)).write key (by simp only [length_append, length_cons]; omega)
    exact gap_mask hkey (by simp) he key

theorem eq_write_of_ok {mem : Bool} {d : Bytes} {mb' : Mbuf} {u : Unit} (h : writeMem mem d mb = .ok u mb') :
    mb' = write d mb := by
  unfold write writeMem at *
  simp only [Bool.true_eq_false, and_false, if_false] at h ⊢
  split at h
  · cases h
  · cases h
    rfl

theorem eq_wire_of_sent {env : SendEnv} {active : Bool} {opcode : Opcode} {payload d : Bytes}
    (h : websockSend env .opened active opcode payload = .ok d) :
    d = wire opcode (if active then some env.mkey.1 else none) payload := by
  let mkey := if active then some env.mkey.1 else none
  let hsz := if active then 14 else 10
  let mb : Mbuf := ⟨List.replicate 2048 0, hsz, 0⟩
  let start := if payload.length > 0xffff then 0 else if payload.length > 125 then 6 else 8
  have hkey : ∀ k ∈ mkey, k.length = 4 := by
    intro k hk
    cases active with
    | false => exact absurd hk (by simp [mkey])
    | true => exact Option.some.inj hk ▸ env.mkey.2
  have hsome : (if mkey.isSome then 14 else 10) = hsz := by cases active <;> rfl
  have hroom : start + (headBytes opcode mkey payload.length).length = hsz :=
    (length_headBytes hkey).trans hsome
  have hwrote : Wrote hsz payload (write payload mb) := by
    obtain ⟨b, -, hlen, hw⟩ := write_eq
    rw [hw]
    exact ⟨rfl, Nat.zero_max _, slice_overwrite_self (by omega)⟩
  have hgap := websockEncode_gap (hwrote.gap hroom.symm) hroom
  have hrest := (hgap.wrote hroom.symm).rest (by simp [headBytes])
  have hlen : (write payload mb).pos - hsz = payload.length := by rw [hwrote.pos, Nat.add_sub_cancel_left]
  unfold websockSend websockVsend at h
  simp only [ne_eq, not_true_eq_false, if_false, Option.map_none, Option.getD_none, nil_append] at h
  split at h
  · cases h
  split at h
  · cases h
  rename_i mb' hmem
  rw [show mb' = write payload mb from eq_write_of_ok hmem, hlen] at h
  split at h
  · cases h
  · exact (Except.ok.inj h).symm.trans hrest.left

/-! ## What is read back -/

theorem xorKey_xorKey : xorKey key (xorKey key d) = d := by
  refine ext_getElem? fun i => ?_
  simp only [xorKey, getElem?_mapIdx, Option.map_map]
  cases d[i]? with
  | none => rfl
  | some b => exact congrArg some (by rw [Function.comp, UInt8.xor_assoc, UInt8.xor_self, UInt8.xor_zero])

theorem small_len : ∀ m ∈ [(0 : UInt8), 0x80], ∀ n < 126, (m ||| UInt8.ofNat n) &&& 0x7f = UInt8.ofNat n ∧
    UInt8.ofNat n ≠ 126 ∧ UInt8.ofNat n ≠ 127 ∧ bit (m ||| UInt8.ofNat n) 7 = decide (m = 0x80) := by decide +kernel

theorem lenField_spec {m : UInt8} (hm : m ∈ [(0 : UInt8), 0x80]) {n : Nat} (hn : n < 2 ^ 64) :
    ∃ x ext, lenField m n = x :: ext ∧ ext.length = extSize x ∧ (∀ t, (lenOf x (ext ++ t)).toNat = n) ∧
      bit x 7 = decide (m = 0x80) := by
  have hcases : m = 0 ∨ m = 0x80 := by simpa using hm
  unfold lenField
  split
  · refine ⟨m ||| 127, beBytes 8 n, rfl, ?_, fun t => ?_, ?_⟩
    · rw [length_beBytes]
      rcases hcases with rfl | rfl <;> rfl
    · have hread : lenOf (m ||| 127) (beBytes 8 n ++ t) = UInt64.ofNat (beNat ((beBytes 8 n ++ t).take 8)) := by
        rcases hcases with rfl | rfl <;> rfl
      rw [hread, take_left' (length_beBytes 8 n), beNat_beBytes, UInt64.toNat_ofNat']
      omega
    · rcases hcases with rfl | rfl <;> rfl
  split
  · refine ⟨m ||| 126, beBytes 2 n, rfl, ?_, fun t => ?_, ?_⟩
    · rw [length_beBytes]
      rcases hcases with rfl | rfl <;> rfl
    · have hread : lenOf (m ||| 126) (beBytes 2 n ++ t) =
          (UInt16.ofNat (beNat ((beBytes 2 n ++ t).take 2))).toUInt64 := by
        rcases hcases with rfl | rfl <;> rfl
      rw [hread, take_left' (length_beBytes 2 n), beNat_beBytes, UInt16.toNat_toUInt64, UInt16.toNat_ofNat']
      omega
    · rcases hcases with rfl | rfl <;> rfl
  obtain ⟨hand, h126, h127, hbit⟩ := small_len m hm n (by omega)
  refine ⟨m ||| UInt8.ofNat n, [], rfl, ?_, fun t => ?_, hbit⟩
  · rw [extSize, hand, if_neg h126, if_neg h127]
    rfl
  · rw [lenOf, hand, if_neg h126, if_neg h127, UInt8.toNat_toUInt64, UInt8.toNat_ofNat']
    omega

theorem readKey_ok {k r : Bytes} (h : mb.Rest (k ++ r)) (hk : k.length = 4) :
    readKey mb = .ok k (mb.setPos (mb.pos + 4)) := by
  match k, hk with
  | [a, b, c, d], _ =>
    have hbyte (i : Nat) (x : UInt8) (hi : i < 4) (hx : slice ([a, b, c, d] ++ r) i 1 = [x]) :
        readU8 (mb.setPos (mb.pos + i)) = .ok x (mb.setPos (mb.pos + (i + 1))) := by
      rw [h.readU8 i (by simp only [length_append, length_cons]; omega), hx, beNat_singleton]
    have hfirst : readU8 mb = .ok a (mb.setPos (mb.pos + 1)) := hbyte 0 a (by decide) rfl
    unfold readKey
    rw [bind_of_ok hfirst, bind_of_ok (hbyte 1 b (by decide) rfl),
      bind_of_ok (hbyte 2 c (by decide) rfl), bind_of_ok (hbyte 3 d (by decide) rfl)]
    rfl

def hdrFor (opcode : Opcode) (mkey : Option Bytes) (n : Nat) : Hdr :=
  ⟨true, false, false, false, opcode.code, mkey.isSome, UInt64.ofNat n, mkey.getD []⟩

section
variable {opcode : Opcode} {mkey : Option Bytes} {payload : Bytes} (hkey : ∀ k ∈ mkey, k.length = 4)
  (hsize : payload.length + 14 < 2 ^ 64)

theorem toNat_len (hsize : payload.length + 14 < 2 ^ 64) :
    (UInt64.ofNat payload.length).toNat = payload.length ∧
      (4 + UInt64.ofNat payload.length).toNat = 4 + payload.length := by
  have hlen : (UInt64.ofNat payload.length).toNat = payload.length := by
    rw [UInt64.toNat_ofNat']
    omega
  refine ⟨hlen, ?_⟩
  rw [UInt64.toNat_add, hlen]
  exact Nat.mod_eq_of_lt (by show 4 + payload.length < 2 ^ 64; omega)

theorem wire_spec (hsize : payload.length + 14 < 2 ^ 64) :
    ∃ v x ext, wire opcode mkey payload = v :: x :: (ext ++ (mkey.getD [] ++ maskBytes mkey payload)) ∧
      ext.length = extSize x ∧
      ∀ t, hdrOf v x (ext ++ t) = { hdrFor opcode mkey payload.length with mkey := [] } := by
  have hm : (if mkey.isSome then (0x80 : UInt8) else 0) ∈ [(0 : UInt8), 0x80] := by split <;> simp
  obtain ⟨x, ext, hfield, hext, hlen, hbit⟩ := lenField_spec hm (n := payload.length) (by omega)
  refine ⟨0x80 ||| (opcode.code &&& 0x0f), x, ext, ?_, hext, fun t => ?_⟩
  · rw [wire, headBytes, hfield]
    simp
  have hmask : bit x 7 = mkey.isSome := by
    rw [hbit]
    cases mkey <;> rfl
  have hlen' : lenOf x (ext ++ t) = UInt64.ofNat payload.length := by
    rw [← hlen t, UInt64.ofNat_toNat]
  rw [hdrOf, hmask, hlen', hdrFor]
  cases opcode <;> rfl

theorem decodeHead_wire {v x : UInt8} {ext t : Bytes} {hdr : Hdr} (hr : mb.Rest (v :: x :: (ext ++ t)))
    (hext : ext.length = extSize x) (hhdr : ∀ t, hdrOf v x (ext ++ t) = hdr) :
    ∃ mb', decodeHead mb = .ok hdr mb' ∧ mb'.Rest t := by
  have hhead := decodeHead_eq hr
  rw [if_neg (by rw [length_append]; omega), hhdr] at hhead
  refine ⟨_, hhead, ?_⟩
  have hdrop := hr.drop (n := 2 + extSize x) (by simp only [length_cons, length_append]; omega)
  rwa [show (v :: x :: (ext ++ t)).drop (2 + extSize x) = t by
    rw [Nat.add_comm, ← hext]; exact drop_left] at hdrop

include hkey hsize

theorem websockDecode_wire (hr : mb.Rest (wire opcode mkey payload ++ rest)) :
    ∃ mb', websockDecode mb = .frame (hdrFor opcode mkey payload.length) mb' ∧ mb'.Rest (payload ++ rest) := by
  obtain ⟨v, x, ext, hwire, hext, hhdr⟩ := wire_spec hsize
  rw [hwire, cons_append, cons_append, append_assoc, append_assoc] at hr
  obtain ⟨mb1, hhead, hrest⟩ := decodeHead_wire hr hext hhdr
  obtain ⟨hlen, hsum⟩ := toNat_len hsize
  have hleft := hrest.getLeft
  rw [length_append, length_append, length_maskBytes] at hleft
  unfold websockDecode
  simp only [hhead]
  cases mkey with
  | none =>
    rw [if_neg (by simp [hdrFor]), if_neg (by simp only [hdrFor, hlen]; omega)]
    exact ⟨mb1, rfl, hrest⟩
  | some k =>
    have hk : k.length = 4 := hkey k rfl
    have hrest2 := hrest.drop (n := 4) (by simp [hk])
    rw [show (Option.getD (some k) [] ++ (maskBytes (some k) payload ++ rest)).drop 4 =
      maskBytes (some k) payload ++ rest from drop_left' hk] at hrest2
    have hleft2 := hrest2.getLeft
    have hpos := hrest2.ok.pos
    have hend := hrest2.ok.endPos
    rw [length_append, length_maskBytes] at hleft2
    rw [if_pos (by rfl), if_neg (by simp only [hdrFor, hsum]; simp only [Option.getD_some, hk] at hleft; omega),
      readKey_ok hrest hk]
    simp only
    rw [if_neg (by simp only [hdrFor, hlen]; unfold getLeft at hleft2; omega)]
    refine ⟨_, rfl, ?_⟩
    have hslice : slice (mb1.setPos (mb1.pos + 4)).buf (mb1.setPos (mb1.pos + 4)).pos payload.length =
        xorKey k payload := by
      rw [hrest2.slice (by rw [length_append, length_maskBytes]; omega)]
      exact take_left' (length_xorKey)
    simp only [hdrFor, hlen, hslice, Option.getD_some, xorKey_xorKey]
    exact hrest2.poke (length_maskBytes).symm

theorem websockDecode_part {w : Bytes} (hr : mb.Rest w) (hw : w <+: wire opcode mkey payload)
    (hlt : w.length < (wire opcode mkey payload).length) : websockDecode mb = .nodata := by
  obtain ⟨v, x, ext, hwire, hext, hhdr⟩ := wire_spec hsize
  rw [hwire] at hw hlt
  have hnodata : ∀ {err mb'}, decodeHead mb = .error err mb' → websockDecode mb = .nodata := by
    intro err mb' herr
    rw [websockDecode, herr]
  rcases w with _ | ⟨v', _ | ⟨x', t⟩⟩
  · exact hnodata (decodeHead_short hr (by simp))
  · exact hnodata (decodeHead_short hr (by simp))
  obtain ⟨hv, hw1⟩ := cons_prefix_cons.1 hw
  obtain ⟨hx, hw2⟩ := cons_prefix_cons.1 hw1
  subst hv hx
  have hhead := decodeHead_eq hr
  split at hhead
  · obtain ⟨mb', herr⟩ := hhead
    exact hnodata herr
  rename_i hge
  have hpre : ext <+: t :=
    List.prefix_of_prefix_length_le ( List.prefix_append ext (mkey.getD [] ++ maskBytes mkey payload)) hw2 (by omega)
  obtain ⟨t', rfl⟩ := hpre
  obtain ⟨mb1, hhead, hrest⟩ := decodeHead_wire hr hext hhdr
  obtain ⟨hlen, hsum⟩ := toNat_len hsize
  have hleft := hrest.getLeft
  simp only [length_cons, length_append, length_maskBytes] at hlt
  unfold websockDecode
  simp only [hhead]
  cases mkey with
  | none =>
    simp only [Option.getD_none, length_nil] at hlt
    rw [if_neg (by simp [hdrFor]), if_pos (by simp only [hdrFor, hlen]; omega)]
  | some k =>
    have hk : k.length = 4 := hkey k rfl
    simp only [Option.getD_some, hk] at hlt
    rw [if_pos (by rfl), if_pos (by simp only [hdrFor, hsum]; omega)]

end

/-! ## Frames that are received -/

structure Sent (active : Bool) where
  env : SendEnv
  opcode : Opcode
  payload : Bytes
  bytes : Bytes
  kind : opcode ∈ [Opcode.text, .bin, .ping]
  -- the size of the buffer is a `size_t`
  size : payload.length + 14 < 2 ^ 64
  sent : websockSend env .opened active opcode payload = .ok bytes

def Sent.mkey {active : Bool} (f : Sent active) : Option Bytes := if active then some f.env.mkey.1 else none

def Sent.calls {active : Bool} (f : Sent active) : List Out :=
  if f.opcode = .ping then [] else [.recvh (hdrFor f.opcode f.mkey f.payload.length) f.payload]

def Out.calls : Out → List Out
  | .send _ => []
  | out => [out]

structure Waits (active : Bool) (conn : Conn) (kept : Bytes) : Prop where
  alive : conn.state ≠ .closed
  owned : conn.owned
  side : conn.active = !active
  buffer : Kept conn.mb kept

structure Fits (conn : Conn) (seg : RecvEnv × Mbuf) : Prop where
  ok : seg.2.Ok
  mem : seg.1.mem
  frames : ∀ k, (seg.1.frames k).mbn ∧ (seg.1.frames k).drop = false
  size : ∀ b ∈ conn.mb, b.getLeft + seg.2.getLeft ≤ bufsizeMax

section
variable {active : Bool} (f : Sent active)

theorem Sent.length_mkey : ∀ k ∈ f.mkey, k.length = 4 := by
  intro k hk
  unfold Sent.mkey at hk
  split at hk
  · exact Option.some.inj hk ▸ f.env.mkey.2
  · cases hk

theorem Sent.isSome_mkey : f.mkey.isSome = active := by
  unfold Sent.mkey
  cases active <;> rfl

theorem Sent.bytes_eq : f.bytes = wire f.opcode f.mkey f.payload := eq_wire_of_sent f.sent

theorem Sent.decoded (hr : mb.Rest (f.bytes ++ rest)) :
    ∃ mb', websockDecode mb = .frame (hdrFor f.opcode f.mkey f.payload.length) mb' ∧ mb'.Rest (f.payload ++ rest) := by
  rw [f.bytes_eq] at hr
  exact websockDecode_wire f.length_mkey f.size hr

theorem decoded_unfinished {fs : List (Sent active)} {part : Bytes} (hr : mb.Rest part)
    (hpart : Partial Sent.bytes part fs) : websockDecode mb = .nodata := by
  cases fs with
  | nil =>
    rw [show part = [] from hpart] at hr
    rw [websockDecode, decodeHead_short hr (by decide)]
  | cons f fs =>
    obtain ⟨hpre, hlt⟩ := hpart
    rw [f.bytes_eq] at hpre hlt
    exact websockDecode_part f.length_mkey f.size hr hpre hlt

variable {conn : Conn} {env : Nat → FrameEnv}

theorem dispatch_sent {env : FrameEnv} (hdrop : env.drop = false) (howned : conn.owned) :
    ∃ out, dispatch env conn (hdrFor f.opcode f.mkey f.payload.length) f.payload = ((conn, out), true) ∧
      out.flatMap Out.calls = f.calls := by
  have hkind := f.kind
  have hcode : (hdrFor f.opcode f.mkey f.payload.length).opcode = f.opcode.code := rfl
  have hdeliver : ∀ hdr payload, deliver env conn hdr payload = (conn, [.recvh hdr payload]) := by
    intro hdr payload
    simp only [deliver, howned, hdrop, if_true, Bool.false_eq_true, if_false]
  unfold dispatch Sent.calls
  rw [hcode]
  cases hop : f.opcode with
  | text | bin => exact ⟨_, congrArg (·, true) (hdeliver _ _), rfl⟩
  | ping =>
    refine ⟨_, rfl, ?_⟩
    unfold sent
    split <;> rfl
  | cont | close | pong => simp [hop] at hkind

theorem restBuf_rest {a r : Bytes} (h : mb.Rest (a ++ r)) : (restBuf mb a.length).Rest r := by
  have hleft := h.getLeft
  have hafter := h.drop (n := a.length) (by rw [length_append]; omega)
  rw [drop_left] at hafter
  have hrest := hafter.slice (le_refl r.length)
  rw [take_length] at hrest
  rw [length_append] at hleft
  have hbuf : (restBuf mb a.length) = ⟨r, 0, r.length⟩ := by
    rw [restBuf, hleft, Nat.add_sub_cancel_left]
    exact congrArg (fun b => (⟨b, 0, r.length⟩ : Mbuf)) hrest
  rw [hbuf]
  exact ⟨⟨Nat.zero_le _, le_refl _⟩, take_length⟩

theorem recvLoop_idle (hmb : conn.mb = some mb)
    (h : websockDecode mb = .nodata) {k : Nat} : recvLoop env (n + 1) k conn = (conn, []) := by
  rw [recvLoop]
  simp only [hmb, h]

theorem recvLoop_empty (hmb : conn.mb = none) (k : Nat) : recvLoop env n k conn = (conn, []) := by
  cases n with
  | zero => rfl
  | succ n =>
    rw [recvLoop]
    simp only [hmb]

theorem recvLoop_frame {n k : Nat} (henv : (env k).mbn ∧ (env k).drop = false)
    (hmb : conn.mb = some mb) (howned : conn.owned) (hside : conn.active = !active)
    (hr : mb.Rest (f.bytes ++ rest)) :
    ∃ mbn out, recvLoop env (n + 1) k conn =
        ((recvLoop env n (k + 1) { conn with mb := mbn }).1, out ++ (recvLoop env n (k + 1) { conn with mb := mbn }).2) ∧
      out.flatMap Out.calls = f.calls ∧ Kept mbn rest := by
  obtain ⟨mb1, hdec, hrest⟩ := f.decoded hr
  obtain ⟨hlen, -⟩ := toNat_len f.size
  have hleft := hrest.getLeft
  have hpos := hrest.ok.pos
  have hpayload : (mb1.setEnd (mb1.pos + f.payload.length)).left = f.payload := by
    rw [(hrest.setEnd (n := f.payload.length) (by rw [length_append]; omega)).left, take_left]
  have hmask : ¬ conn.active = (hdrFor f.opcode f.mkey f.payload.length).mask := by
    rw [hside, show (hdrFor f.opcode f.mkey f.payload.length).mask = active from f.isSome_mkey]
    cases active <;> decide
  have hlen' : (hdrFor f.opcode f.mkey f.payload.length).len.toNat = f.payload.length := hlen
  let mbn := if mb1.endPos > mb1.pos + f.payload.length then some (restBuf mb1 f.payload.length) else none
  have howned' : ({ conn with mb := mbn } : Conn).owned := howned
  obtain ⟨out, hdispatch, hcalls⟩ := dispatch_sent f henv.2 howned'
  refine ⟨mbn, out, ?_, hcalls, ?_⟩
  · rw [recvLoop]
    simp only [hmb, hdec, if_neg hmask, hlen', henv.1, Bool.true_eq_false, and_false, if_false, hpayload]
    rw [if_neg (by simp [hdrFor])]
    simp only [mbn] at hdispatch
    rw [hdispatch]
  rw [getLeft, length_append] at hleft
  by_cases hmore : mb1.endPos > mb1.pos + f.payload.length
  · simp only [mbn, if_pos hmore]
    exact restBuf_rest hrest
  · simp only [mbn, if_neg hmore]
    exact length_eq_zero_iff.1 (by omega)

theorem Sent.bytes_ne_nil : 0 < f.bytes.length := by
  rw [f.bytes_eq, wire, headBytes, cons_append, length_cons]
  omega

theorem recvLoop_deals (henv : ∀ k, (env k).mbn ∧ (env k).drop = false)
    {todo : List (Sent active)} {part : Bytes} (hpart : Partial Sent.bytes part todo) :
    ∀ (done : List (Sent active)) (n k : Nat) (conn : Conn), Waits active conn (done.flatMap Sent.bytes ++ part) →
      (done.flatMap Sent.bytes ++ part).length < n →
      (recvLoop env n k conn).2.flatMap Out.calls = done.flatMap Sent.calls ∧
        Waits active (recvLoop env n k conn).1 part
  | _, 0, _, _, _, hn => absurd hn (Nat.not_lt_zero _)
  | [], n + 1, k, conn, hw, hn => by
    cases hmb : conn.mb with
    | none =>
      rw [recvLoop_empty hmb]
      exact ⟨rfl, hw⟩
    | some mb =>
      have hbuf := hw.buffer
      rw [hmb] at hbuf
      rw [recvLoop_idle hmb (decoded_unfinished hbuf hpart)]
      exact ⟨rfl, hw⟩
  | f :: done, n + 1, k, conn, hw, hn => by
    have hpos := f.bytes_ne_nil
    have hbuf := hw.buffer
    rw [flatMap_cons, append_assoc] at hbuf hn
    rw [length_append] at hn
    cases hmb : conn.mb with
    | none =>
      rw [hmb] at hbuf
      have hnil := congrArg List.length (show f.bytes ++ _ = [] from hbuf)
      rw [length_append, length_nil] at hnil
      omega
    | some mb =>
      rw [hmb] at hbuf
      obtain ⟨mbn, out, hloop, hcalls, hmbn⟩ := recvLoop_frame f (n := n) (henv k) hmb hw.owned hw.side hbuf
      obtain ⟨hrest, hwaits⟩ := recvLoop_deals henv hpart done n (k + 1) { conn with mb := mbn }
        ⟨hw.alive, hw.owned, hw.side, hmbn⟩ (by omega)
      rw [hloop]
      refine ⟨?_, hwaits⟩
      rw [flatMap_append, hcalls, hrest, flatMap_cons]

theorem step_deals :
    Deals (@Sent.bytes active) step (fun seg => seg.2.left) (Waits active) Fits Out.calls Sent.calls := by
  intro conn seg kept done part todo hw hfits hcut hpart
  have hseg : seg.2.Rest seg.2.left := ⟨hfits.ok, rfl⟩
  have hbuf := hw.buffer
  have hloop : ∀ mb, mb.Rest (kept ++ seg.2.left) →
      (recvLoop seg.1.frames (mb.getLeft + 1) 0 { conn with mb := some mb }).2.flatMap Out.calls = done.flatMap Sent.calls ∧
        Waits active (recvLoop seg.1.frames (mb.getLeft + 1) 0 { conn with mb := some mb }).1 part := by
    intro mb hmb
    rw [show kept ++ seg.2.left = _ from hcut] at hmb
    rw [hmb.getLeft]
    exact recvLoop_deals hfits.frames hpart done _ 0 _ ⟨hw.alive, hw.owned, hw.side, hmb⟩ (Nat.lt_succ_self _)
  unfold step recvHandler
  rw [if_neg hw.alive]
  cases hmb : conn.mb with
  | none =>
    rw [hmb] at hbuf
    refine hloop _ ?_
    rw [show kept = [] from hbuf]
    exact hseg
  | some b =>
    rw [hmb] at hbuf
    obtain ⟨b', hwrite, hback⟩ := Rest.append hbuf seg.2.left
    simp only [if_neg (Nat.not_lt.2 (hfits.size b hmb)), hfits.mem, hwrite]
    exact hloop _ hback

/-- However the stream comes, as long as the buffer has room: `recvh` has been called once, in
order, for each text or binary frame that is whole, with its payload and its opcode, no other
handler has been called, and what is kept is a part of the next frame; at the end of the stream all
frames are whole, and nothing is kept. -/
theorem frames_delivered_once (fs : List (Sent active)) (conn : Conn) (segs : List (RecvEnv × Mbuf))
    (hconn : Waits active conn []) (hsegs : segs.flatMap (fun seg => seg.2.left) <+: fs.flatMap Sent.bytes)
    (hfits : Along step Fits conn segs) :
    ∃ done todo part, fs = done ++ todo ∧ segs.flatMap (fun seg => seg.2.left) = done.flatMap Sent.bytes ++ part ∧
      Partial Sent.bytes part todo ∧ (outs step conn segs).flatten.flatMap Out.calls = done.flatMap Sent.calls ∧
      Waits active (exec step conn segs) part ∧
      (segs.flatMap (fun seg => seg.2.left) = fs.flatMap Sent.bytes → done = fs ∧ part = []) := by
  have hstart : Partial Sent.bytes [] fs := by
    cases fs with
    | nil => rfl
    | cons f fs => exact ⟨ List.nil_prefix, f.bytes_ne_nil⟩
  obtain ⟨done, todo, part, hfs, hcut, hpart, hcalls, hwaits⟩ := step_deals.run segs conn fs [] hconn hstart hsegs hfits
  exact ⟨done, todo, part, hfs, hcut, hpart, hcalls, hwaits, fun hall => eq_of_whole hfs (hall.symm.trans hcut) hpart⟩

end

/-! ### A run -/

def calmSend : SendEnv := ⟨true, true, ⟨[1, 2, 3, 4], rfl⟩, none⟩

def hiFrame : Sent true where
  env := calmSend
  opcode := .text
  payload := ascii "hi"
  bytes := [0x81, 0x82, 1, 2, 3, 4, 0x69, 0x6b]
  kind := by decide
  size := by decide
  sent := by decide +kernel

def calmRecv : RecvEnv := ⟨true, fun _ => ⟨true, false, calmSend⟩⟩

def aServer : Conn := ⟨none, .opened, false, true⟩
def hiSegs : List (RecvEnv × Mbuf) := [(calmRecv, ⟨[0x81, 0x82, 1], 0, 3⟩), (calmRecv, ⟨[2, 3, 4, 0x69, 0x6b], 0, 5⟩)]

theorem hiSegs_fit : Along step Fits aServer hiSegs := by
  have hkept : (step aServer (calmRecv, ⟨[0x81, 0x82, 1], 0, 3⟩)).1.mb = some ⟨[0x81, 0x82, 1], 0, 3⟩ := by
    decide +kernel
  refine ⟨⟨⟨by decide, by decide⟩, rfl, fun _ => ⟨rfl, rfl⟩, nofun⟩,
    ⟨⟨by decide, by decide⟩, rfl, fun _ => ⟨rfl, rfl⟩, ?_⟩, trivial⟩
  rw [hkept]
  rintro b ⟨⟩
  decide

theorem frames_delivered_once_hi :
    (outs step aServer hiSegs).flatten.flatMap Out.calls =
        [.recvh ⟨true, false, false, false, 1, true, 2, [1, 2, 3, 4]⟩ (ascii "hi")] ∧
      ∃ done todo part, [hiFrame] = done ++ todo ∧
        hiSegs.flatMap (fun seg => seg.2.left) = done.flatMap Sent.bytes ++ part ∧ Partial Sent.bytes part todo ∧
        (outs step aServer hiSegs).flatten.flatMap Out.calls = done.flatMap Sent.calls ∧
        Waits true (exec step aServer hiSegs) part ∧
        (hiSegs.flatMap (fun seg => seg.2.left) = [hiFrame].flatMap Sent.bytes → done = [hiFrame] ∧ part = []) :=
  ⟨by decide +kernel, frames_delivered_once [hiFrame] aServer hiSegs ⟨by decide, rfl, rfl, rfl⟩ (by decide +kernel)
    hiSegs_fit⟩

theorem calmSend_sent {opcode : Opcode} {payload : Bytes} :
    websockSend calmSend .opened false opcode payload = .ok (wire opcode none payload) := by
  have hwrite (d : Bytes) (mb : Mbuf) : ∃ mb', writeMem true d mb = .ok () mb' :=
    ⟨_, if_neg (fun h => Bool.noConfusion h.2)⟩
  have hok : ∃ d, websockSend calmSend .opened false opcode payload = .ok d := by
    unfold websockSend websockVsend
    rw [if_neg (not_not.2 rfl), if_neg (by decide)]
    obtain ⟨mb', h⟩ := hwrite payload ⟨List.replicate 2048 0, 10, 0⟩
    simp only [Option.map_none, Option.getD_none, nil_append, Bool.false_eq_true, if_false,
      show calmSend.mem from rfl, h]
    exact ⟨_, rfl⟩
  obtain ⟨d, hd⟩ := hok
  rw [hd, eq_wire_of_sent hd]
  rfl

def aClient : Conn := ⟨none, .opened, true, true⟩

theorem recvFail_closeh {env : SendEnv} {conn : Conn} (howned : conn.owned) {err : Errno} :
    .closeh (some err) ∈ (recvFail env conn err).2 := by
  have hclose : (websockClose env conn (websockErr2scode err) []).1.owned := by
    unfold websockClose
    split <;> exact howned
  rw [recvFail, connClose, hclose]
  exact mem_append_right _ mem_cons_self

theorem step_overflow {conn : Conn} {b mb : Mbuf} {env : RecvEnv} (hstate : conn.state ≠ .closed)
    (hmb : conn.mb = some b) (hsize : bufsizeMax < b.getLeft + mb.getLeft) :
    step conn (env, mb) = recvFail (env.frames 0).send conn .EOVERFLOW := by
  unfold step recvHandler
  rw [if_neg hstate]
  simp only [hmb, if_pos hsize]

theorem full_kept {f : Sent false} (hlen : f.bytes.length = bufsizeMax) {b : UInt8} :
    .closeh (some .EOVERFLOW) ∈ (outs step aClient
      [(calmRecv, ⟨f.bytes.take 131071, 0, 131071⟩),
        (calmRecv, ⟨f.bytes.drop 131071 ++ [b], 0, 2⟩)]).flatten := by
  have htake : (f.bytes.take 131071).length = 131071 := by
    rw [length_take, hlen]
    rfl
  have hpart : Partial Sent.bytes (f.bytes.take 131071) [f] :=
    ⟨ take_prefix _ _, by rw [htake, hlen]; decide⟩
  generalize f.bytes.take 131071 = part at htake hpart
  have hrest : (⟨part, 0, 131071⟩ : Mbuf).Rest part :=
    ⟨⟨Nat.zero_le _, htake.ge⟩, take_of_length_le htake.le⟩
  let conn : Conn := { aClient with mb := some ⟨part, 0, 131071⟩ }
  have hopen : aClient.state ≠ .closed := by decide
  have hmb : conn.mb = some ⟨part, 0, 131071⟩ := rfl
  have hstep : step aClient (calmRecv, ⟨part, 0, 131071⟩) = (conn, []) := by
    unfold step recvHandler
    rw [if_neg hopen]
    exact recvLoop_idle hmb (decoded_unfinished hrest hpart)
  have hover : step conn (calmRecv, ⟨f.bytes.drop 131071 ++ [b], 0, 2⟩) = _ :=
    step_overflow hopen hmb (show bufsizeMax < 131071 + 2 by decide)
  rw [outs, outs, hstep, hover, flatten_cons, nil_append, flatten_cons]
  exact mem_append_left _ (recvFail_closeh rfl)

/-- A frame of `BUFSIZE_MAX` bytes comes without its last byte, and then with it and the first byte
of the next frame. No more than `BUFSIZE_MAX` bytes would be left at any time, and the connection is
closed. -/
theorem full_buffer_refused : ∃ f : Sent false, f.bytes.length = bufsizeMax ∧
    .closeh (some .EOVERFLOW) ∈ (outs step aClient
      [(calmRecv, ⟨f.bytes.take 131071, 0, 131071⟩),
        (calmRecv, ⟨f.bytes.drop 131071 ++ [0x82], 0, 2⟩)]).flatten := by
  obtain ⟨payload, hpayload⟩ : ∃ p : Bytes, p.length = 131062 :=
    ⟨List.replicate 131062 0, length_replicate⟩
  let f : Sent false := {
    env := calmSend, opcode := .bin, payload, bytes := wire .bin none payload
    kind := by decide
    size := by rw [hpayload]; decide
    sent := calmSend_sent }
  have hlen : f.bytes.length = bufsizeMax := by
    change (wire .bin none payload).length = 131072
    rw [wire, length_append, length_maskBytes, hpayload]
    rfl
  exact ⟨f, hlen, full_kept hlen⟩

end BareRTC.Websock
