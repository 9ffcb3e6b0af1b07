import BareRTC.Stun.Msg

/-!
# TURN clients: packets from the server (`re/src/turn/turnc.c`, `re/src/turn/chan.c`)

`udpRecvHandler` is the helper on the client's UDP socket, `turncRecv` what a caller uses that has a
connection of its own. Both try a packet as a STUN message first and as channel data then.
-/

namespace BareRTC.Turn

open Sdp (Sa)
open Stun Mbuf

/-! ## Channels -/

def chanNumbMin : UInt16 := 0x4000

def chanNumbMax : UInt16 := 0x7fff

/-- `struct chan`, its number and its peer -/
structure Chan where
  nr : UInt16
  peer : Sa
  deriving DecidableEq, Repr

/-- `struct channels`. Numbers are given out from `CHAN_NUMB_MIN` on, so no channel has one that
could be the type of a STUN message. -/
structure Channels where
  chanl : List Chan
  nr : UInt16
  le_max : nr ≤ chanNumbMax
  min_le : chanNumbMin ≤ nr
  numbered : ∀ c ∈ chanl, chanNumbMin ≤ c.nr ∧ c.nr < nr

def turncChanHashAlloc : Channels where
  chanl := []
  nr := chanNumbMin
  le_max := by decide
  min_le := by decide
  numbered := nofun

def turncChanFindNumb (c : Channels) (nr : UInt16) : Option Chan := c.chanl.find? (·.nr = nr)

def turncChanFindPeer (c : Channels) (peer : Sa) : Option Chan := c.chanl.find? (·.peer = peer)

theorem toNat_succ {nr : UInt16} (h : nr < chanNumbMax) : (nr + 1).toNat = nr.toNat + 1 := by
  have hlt : nr.toNat < 0x7fff := UInt16.lt_iff_toNat_lt.1 h
  rw [UInt16.toNat_add, UInt16.toNat_one]
  exact Nat.mod_eq_of_lt (by omega)

/-- `chan->nr = turnc->chans->nr++` -/
def Channels.take (c : Channels) (h : c.nr < chanNumbMax) : Channels where
  chanl := c.chanl
  nr := c.nr + 1
  le_max := by
    rw [UInt16.le_iff_toNat_le, toNat_succ h]
    exact UInt16.lt_iff_toNat_lt.1 h
  min_le := by
    have := UInt16.le_iff_toNat_le.1 c.min_le
    rw [UInt16.le_iff_toNat_le, toNat_succ h]
    omega
  numbered := by
    intro d hd
    obtain ⟨hmin, hlt⟩ := c.numbered d hd
    refine ⟨hmin, ?_⟩
    rw [UInt16.lt_iff_toNat_lt, toNat_succ h]
    have := UInt16.lt_iff_toNat_lt.1 hlt
    omega

/-- `hash_append` of a channel that took its number. -/
def Channels.append (c : Channels) (d : Chan) (h : chanNumbMin ≤ d.nr ∧ d.nr < c.nr) : Channels :=
  { c with
    chanl := c.chanl ++ [d]
    numbered := by
      intro e he
      rcases List.mem_append.1 he with he | he
      · exact c.numbered e he
      · rw [List.mem_singleton.1 he]
        exact h }

/-- `mem` is whether there is memory for the channel, `req` the result of the bind request; without
success the channel is gone and its number used up. -/
def turncAddChan (peer : Sa) (mem : Bool) (req : Option Errno) (c : Channels) : Option Errno × Channels :=
  if h : c.nr < chanNumbMax then
    if (turncChanFindPeer c peer).isSome then (none, c)
    else if mem = false then (some .ENOMEM, c)
    else match req with
      | some err => (some err, c.take h)
      | none => (none, (c.take h).append ⟨c.nr, peer⟩ ⟨c.min_le, by
          rw [Channels.take, UInt16.lt_iff_toNat_lt, toNat_succ h]
          exact Nat.lt_succ_self _⟩)
  else (some .ERANGE, c)

structure ChanHdr where
  nr : UInt16
  len : UInt16
  deriving DecidableEq, Repr

def turncChanHdrDecode : MbufM ChanHdr := do
  if (← get).getLeft < 4 then throw .ENOENT
  let nr ← readU16
  let len ← readU16
  return { nr, len }

/-! ## Receiving -/

/-- `struct turnc`, what a packet needs of it -/
structure Turnc where
  srv : Sa
  psrv : Sa
  chans : Channels

/-- The arguments `src` and `mb` as a receive function leaves them, and the response it gave to
`stun_ctrans_recv`. -/
structure Packet where
  src : Sa
  mb : Mbuf
  resp : Option (Msg × List UInt16)
  deriving DecidableEq, Repr

/-- The first attribute of a type, with its place (`stun_msg_attr`). -/
def stunMsgDecoded (msg : Msg) (type : UInt16) : Option Decoded := msg.attrl.find? (·.attr.type = type)

/-- Whether the packet is done with, and the packet. -/
def udpRecvHandler (t : Turnc) (src : Sa) (mb : Mbuf) : Bool × Packet :=
  if t.srv ≠ src ∧ t.psrv ≠ src then (false, ⟨src, mb, none⟩)
  else match stunMsgDecode mb (some []) with
    | (.error _, _) =>
      match turncChanHdrDecode mb with
      | .error _ mb => (true, ⟨src, mb, none⟩)
      | .ok hdr mb =>
        if mb.getLeft < hdr.len.toNat then (true, ⟨src, mb, none⟩)
        else match turncChanFindNumb t.chans hdr.nr with
          | none => (true, ⟨src, mb, none⟩)
          | some chan => (false, ⟨chan.peer, mb, none⟩)
    | (.ok msg, ua) =>
      if stunMsgClass msg = 1 then
        if ua ≠ some [] then (true, ⟨src, mb, none⟩)
        else if stunMsgMethod msg ≠ 0x007 then (true, ⟨src, mb, none⟩)
        else match stunMsgAttr msg Attrib.xorPeerAddr.code, stunMsgDecoded msg Attrib.data.code with
          | some (.xorAddr peer), some data =>
            (false, ⟨peer, (mb.setPos data.start).setEnd (data.start + data.len), none⟩)
          | _, _ => (true, ⟨src, mb, none⟩)
      else if stunMsgClass msg = 3 ∨ stunMsgClass msg = 2 then (true, ⟨src, mb, some (msg, ua.getD [])⟩)
      else (true, ⟨src, mb, none⟩)

def turncRecv (t : Turnc) (src : Sa) (mb : Mbuf) : Option Errno × Packet :=
  match stunMsgDecode mb (some []) with
  | (.error _, _) =>
    match turncChanHdrDecode mb with
    | .error _ mb => (some .EBADMSG, ⟨src, mb, none⟩)
    | .ok hdr mb =>
      if mb.getLeft < hdr.len.toNat then (some .EBADMSG, ⟨src, mb, none⟩)
      else match turncChanFindNumb t.chans hdr.nr with
        | none => (some .EBADMSG, ⟨src, mb, none⟩)
        | some chan => (none, ⟨chan.peer, mb, none⟩)
  | (.ok msg, ua) =>
    if stunMsgClass msg = 1 then
      if ua ≠ some [] then (some .ENOSYS, ⟨src, mb, none⟩)
      else if stunMsgMethod msg ≠ 0x007 then (some .ENOSYS, ⟨src, mb, none⟩)
      else match stunMsgAttr msg Attrib.xorPeerAddr.code, stunMsgDecoded msg Attrib.data.code with
        | some (.xorAddr peer), some data =>
          (none, ⟨peer, (mb.setPos data.start).setEnd (data.start + data.len), none⟩)
        | _, _ => (some .EPROTO, ⟨src, mb, none⟩)
    else if stunMsgClass msg = 3 ∨ stunMsgClass msg = 2 then
      (none, ⟨src, mb.setPos mb.endPos, some (msg, ua.getD [])⟩)
    else (some .ENOSYS, ⟨src, mb, none⟩)

end BareRTC.Turn
