import BareRTC.Stun.Proof.Helper
import BareRTC.Re.Write
import BareRTC.Turn.Chan

/-!
# TURN clients: packets to peers (`re/src/turn/chan.c`, `re/src/turn/turnc.c`)

A channel is looked up by its peer, from the moment `turnc_add_chan` has asked for it on. Whether
the server has answered plays no part, and nothing takes a channel out again whose request failed.
So data for a peer goes out as channel data before there is a binding (`channel_before_answer`).

* `udpSendHandler_spec`, `turncSend_spec`: what a packet is put into, from the table and the room in
  front of it.
* `Listed`: the table is the channels that were added, one for each peer.
* `sends_bound_iff`: a packet is relayed as it should exactly if there is room for one header and
  not for a second one, and every channel for its peer has been bound.
-/

namespace BareRTC.Turn

open List

open Sdp (Sa)
open Stun (Attrib Hash Msg Proto)

/-! ## What a packet is put into -/

def headroom (t : Turnc) (dst : Sa) : Nat :=
  match turncChanFindPeer t.chans dst with
  | some _ => chanHdrSize
  | none => stunIndlen dst

def wrapFor (t : Turnc) (dst : Sa) : Wrap :=
  match turncChanFindPeer t.chans dst with
  | some chan => .chanData chan.nr
  | none => .sendInd dst

theorem chanHdrSize_le_stunIndlen (sa : Sa) : chanHdrSize ≤ stunIndlen sa := by
  unfold stunIndlen
  split <;> decide

section
variable (h : Hash) (t : Turnc) {proto : Proto} (p : Outgoing)

theorem udpSendHandler_spec :
    ∃ q, udpSendHandler h t p = (none, q) ∧
      q.wraps = p.wraps ++ if p.mb.pos < headroom t p.dst then [] else [wrapFor t p.dst] := by
  have hle := chanHdrSize_le_stunIndlen p.dst
  unfold udpSendHandler headroom wrapFor
  cases hfind : turncChanFindPeer t.chans p.dst with
  | some chan =>
    by_cases hroom : p.mb.pos < chanHdrSize
    · exact ⟨p, by rw [if_pos hroom], by simp [hroom]⟩
    · refine ⟨_, by rw [if_neg hroom], ?_⟩
      simp only [if_neg hroom]
  | none =>
    by_cases hroom : p.mb.pos < stunIndlen p.dst
    · refine ⟨p, ?_, by simp [hroom]⟩
      simp only [if_pos hroom, ite_self]
    · refine ⟨_, by rw [if_neg (show ¬ p.mb.pos < chanHdrSize by omega)]; simp only [if_neg hroom]; rfl, ?_⟩
      simp only [if_neg hroom]

def Transmits (proto : Proto) (pad : Bool) (dst : Sa) (mb : Mbuf) : Prop :=
  headroom t dst ≤ mb.pos ∧ proto ≠ .other ∧
    (pad ∨ proto ≠ .tcp ∨ turncChanFindPeer t.chans dst = none ∨ mb.getLeft % 4 = 0)

theorem transmit_spec (hproto : proto ≠ .other) {p : Outgoing} :
    ∃ q, transmit h t proto p = .ok q ∧
      q.wraps = p.wraps ++
        if proto = .udp ∧ headroom t p.dst ≤ p.mb.pos then [wrapFor t p.dst] else [] := by
  cases proto with
  | udp =>
    obtain ⟨q, hq, hwraps⟩ := udpSendHandler_spec h t p
    refine ⟨q, by simp only [transmit, hq], ?_⟩
    rw [hwraps]
    by_cases hroom : p.mb.pos < headroom t p.dst
    · rw [if_pos hroom, if_neg fun h => by omega]
    · rw [if_neg hroom, if_pos ⟨rfl, by omega⟩]
  | tcp | dtls => exact ⟨p, rfl, by simp⟩
  | other => exact absurd rfl hproto

theorem transmit_other : transmit h t .other p = .error .EPROTONOSUPPORT := rfl

theorem turncSend_spec {pad : Bool} {dst : Sa} {mb : Mbuf} (hsend : Transmits t proto pad dst mb) :
    ∃ q, turncSend h t proto pad dst mb = .ok q ∧
      q.wraps = wrapFor t dst ::
        if proto = .udp ∧ headroom t t.srv ≤ mb.pos - headroom t dst then [wrapFor t t.srv] else [] := by
  obtain ⟨hroom, hproto, hpad⟩ := hsend
  unfold turncSend
  -- the packet goes on to the server with what is left of the room
  have hsent : ∀ buf wrap n, ∃ q,
      transmit h t proto ⟨t.srv, Mbuf.setPos buf n, [wrap]⟩ = .ok q ∧
      q.wraps = wrap :: if proto = .udp ∧ headroom t t.srv ≤ n then [wrapFor t t.srv] else [] :=
    fun buf wrap n => transmit_spec h t hproto
  unfold headroom at hroom
  cases hfind : turncChanFindPeer t.chans dst with
  | some chan =>
    have hdst : headroom t dst = chanHdrSize := by simp only [headroom, hfind]
    simp only [hfind] at hroom
    simp only [wrapFor, hfind, hdst, if_neg (Nat.not_lt.2 hroom)]
    rw [if_neg ?_]
    · exact hsent _ _ _
    rintro ⟨hne, hfalse⟩
    split at hne
    · rcases hpad with hpad | hpad | hpad | hpad
      · rw [hpad] at hfalse; exact absurd hfalse (by decide)
      · exact hpad ‹_›
      · rw [hfind] at hpad; cases hpad
      · rw [hpad] at hne; exact hne rfl
    · exact hne rfl
  | none =>
    have hdst : headroom t dst = stunIndlen dst := by simp only [headroom, hfind]
    simp only [hfind] at hroom
    simp only [wrapFor, hfind, hdst, if_neg (Nat.not_lt.2 hroom)]
    exact hsent _ _ _

theorem turncSend_error {pad : Bool} {dst : Sa} {mb : Mbuf} (hsend : ¬ Transmits t proto pad dst mb) :
    ∃ err, turncSend h t proto pad dst mb = .error err := by
  unfold Transmits headroom at hsend
  unfold turncSend
  cases hfind : turncChanFindPeer t.chans dst with
  | some chan =>
    simp only [hfind] at hsend
    by_cases hroom : mb.pos < chanHdrSize
    · exact ⟨.EINVAL, if_pos hroom⟩
    simp only [if_neg hroom]
    by_cases hother : proto = .other
    · subst hother
      exact ⟨.EPROTONOSUPPORT, by simp [transmit_other]⟩
    refine ⟨.ENOMEM, if_pos ?_⟩
    have hpad : ¬ (pad ∨ proto ≠ .tcp ∨ some chan = none ∨ mb.getLeft % 4 = 0) :=
      fun hp => hsend ⟨Nat.not_lt.1 hroom, hother, hp⟩
    simp only [not_or, not_not] at hpad
    obtain ⟨hpad, htcp, -, hleft⟩ := hpad
    rw [if_pos htcp]
    exact ⟨by omega, Bool.eq_false_iff.2 hpad⟩
  | none =>
    simp only [hfind] at hsend
    by_cases hroom : mb.pos < stunIndlen dst
    · exact ⟨.EINVAL, if_pos hroom⟩
    simp only [if_neg hroom]
    by_cases hother : proto = .other
    · subst hother
      exact ⟨.EPROTONOSUPPORT, rfl⟩
    · exact absurd ⟨Nat.not_lt.1 hroom, hother, .inr (.inr (.inl trivial))⟩ hsend

end

/-! ## Channels that were added and channels that are bound -/

def Adds (chan : Chan) (c : ChanClient) (ev : ChanEvent) : Prop :=
  (∃ ch, ev = .addChan chan.peer true ch none) ∧ chan.nr = c.t.chans.nr ∧ c.t.chans.nr < chanNumbMax ∧
    turncChanFindPeer c.t.chans chan.peer = none

def Binds (chan : Chan) (c : ChanClient) (ev : ChanEvent) : Prop :=
  (∃ env msg, ev = .resp chan.nr env none 0 msg) ∧ ∃ b ∈ c.binds, b.chan = chan ∧ b.ct

theorem Adds.unique {chan chan' : Chan} {c : ChanClient} {ev : ChanEvent} (h : Adds chan c ev) (h' : Adds chan' c ev) :
    chan = chan' := by
  obtain ⟨⟨ch, rfl⟩, hnr, -⟩ := h
  obtain ⟨⟨ch', hev⟩, hnr', -⟩ := h'
  cases chan
  cases chan'
  cases hev
  simp only at hnr hnr'
  rw [hnr, hnr']

section
variable (md5 : Bytes → Bytes) (h : Hash)

theorem chanStep_chanl {c : ChanClient} {ev : ChanEvent} :
    (∃ chan, Adds chan c ev ∧ (chanStep md5 h c ev).1.t.chans.chanl = c.t.chans.chanl ++ [chan]) ∨
      (∀ chan, ¬ Adds chan c ev) ∧ (chanStep md5 h c ev).1.t.chans.chanl = c.t.chans.chanl := by
  cases ev with
  | addChan peer mem ch req =>
    have hchans :
        (chanStep md5 h c (.addChan peer mem ch req)).1.t.chans = (turncAddChan peer mem req c.t.chans).2 := by
      simp only [chanStep]
      split
      · rfl
      · split <;> rfl
    rw [hchans]
    unfold turncAddChan
    by_cases hnr : c.t.chans.nr < chanNumbMax
    · rw [dif_pos hnr]
      cases hfind : turncChanFindPeer c.t.chans peer with
      | some chan =>
        refine .inr ⟨?_, rfl⟩
        rintro _ ⟨⟨ch', hev⟩, -, -, hnone⟩
        cases hev
        rw [hfind] at hnone
        cases hnone
      | none =>
        cases mem with
        | false =>
          refine .inr ⟨?_, rfl⟩
          rintro _ ⟨⟨ch', hev⟩, -⟩
          cases hev
        | true =>
          cases req with
          | some err =>
            refine .inr ⟨?_, rfl⟩
            rintro _ ⟨⟨ch', hev⟩, -⟩
            cases hev
          | none => exact .inl ⟨⟨c.t.chans.nr, peer⟩, ⟨⟨ch, rfl⟩, rfl, hnr, hfind⟩, rfl⟩
    · rw [dif_neg hnr]
      exact .inr ⟨fun _ hadds => hnr hadds.2.2.1, rfl⟩
  | timer nr req =>
    refine .inr ⟨fun _ hadds => (nomatch hadds.1), ?_⟩
    simp only [chanStep]
    split
    · rfl
    · cases req <;> rfl
  | resp | udpSend | send =>
    refine .inr ⟨fun _ hadds => (nomatch hadds.1), ?_⟩
    simp only [chanStep]
    split <;> rfl

variable (srv : Sa) (proto : Proto) (creds : Creds) (evs : List ChanEvent)

def clientAfter (evs : List ChanEvent) : ChanClient := exec (chanStep md5 h) (newChanClient srv proto creds) evs

def ChanAdded (evs : List ChanEvent) (chan : Chan) : Prop :=
  Once (chanStep md5 h) (Adds chan) (newChanClient srv proto creds) evs

def ChanBound (evs : List ChanEvent) (chan : Chan) : Prop :=
  Once (chanStep md5 h) (Binds chan) (newChanClient srv proto creds) evs

structure Listed (evs : List ChanEvent) (c : ChanClient) : Prop where
  added : ∀ chan, chan ∈ c.t.chans.chanl ↔ ChanAdded md5 h srv proto creds evs chan
  peers : (c.t.chans.chanl.map Chan.peer).Nodup

theorem listed_step (ev : ChanEvent) (hl : Listed md5 h srv proto creds evs (clientAfter md5 h srv proto creds evs)) :
    Listed md5 h srv proto creds (evs ++ [ev]) (chanStep md5 h (clientAfter md5 h srv proto creds evs) ev).1 := by
  have hadded : ∀ chan, ChanAdded md5 h srv proto creds (evs ++ [ev]) chan ↔
      ChanAdded md5 h srv proto creds evs chan ∨ Adds chan (clientAfter md5 h srv proto creds evs) ev :=
    fun chan => once_append_singleton
  rcases chanStep_chanl md5 h with ⟨chan, hadds, heq⟩ | ⟨hnot, heq⟩
  · refine ⟨fun chan' => ?_, ?_⟩
    · rw [heq, mem_append, mem_singleton, hadded, hl.added]
      exact or_congr_right ⟨fun heq => heq ▸ hadds, fun hadds' => hadds'.unique hadds⟩
    · rw [heq, map_append, map_singleton, nodup_append']
      refine ⟨hl.peers, nodup_singleton _, ?_⟩
      simp only [disjoint_singleton, mem_map, not_exists, not_and]
      intro chan' hmem hpeer
      have hfind := find?_eq_none.1 hadds.2.2.2 chan' hmem
      exact hfind (by simpa using hpeer)
  · refine ⟨fun chan' => ?_, by rw [heq]; exact hl.peers⟩
    rw [heq, hadded, hl.added, or_iff_left (hnot chan')]

theorem listed : Listed md5 h srv proto creds evs (clientAfter md5 h srv proto creds evs) := by
  refine @exec_history _ _ _ (chanStep md5 h) (newChanClient srv proto creds) (Listed md5 h srv proto creds) ?_
    (listed_step md5 h srv proto creds) evs
  refine ⟨fun chan => iff_of_false not_mem_nil ?_, nodup_nil⟩
  rintro ⟨pre, ev, post, heq, -⟩
  exact absurd heq (by simp)

theorem find_iff_added {evs : List ChanEvent} {dst : Sa} {chan : Chan} :
    turncChanFindPeer (clientAfter md5 h srv proto creds evs).t.chans dst = some chan ↔
      ChanAdded md5 h srv proto creds evs chan ∧ chan.peer = dst := by
  have hl := listed md5 h srv proto creds evs
  rw [← hl.added]
  constructor
  · intro hfind
    exact ⟨mem_of_find?_eq_some hfind, by simpa using find?_some hfind⟩
  rintro ⟨hmem, hpeer⟩
  cases hfind : turncChanFindPeer (clientAfter md5 h srv proto creds evs).t.chans dst with
  | none => exact absurd (by simpa using hpeer) (find?_eq_none.1 hfind chan hmem)
  | some chan' =>
    have hpeer' : chan'.peer = dst := by simpa using find?_some hfind
    rw [inj_on_of_nodup_map hl.peers (mem_of_find?_eq_some hfind) hmem (hpeer'.trans hpeer.symm)]

/-! ## What goes out -/

def ChanEvent.dst : ChanEvent → Option Sa
  | .udpSend dst _ | .send dst _ _ => some dst
  | _ => none

def Relayed (evs : List ChanEvent) (ev : ChanEvent) : Prop :=
  ∀ dst p, ev.dst = some dst → .sent p ∈ (chanStep md5 h (clientAfter md5 h srv proto creds evs) ev).2 →
    p.wraps = [.sendInd dst] ∨ ∃ nr, p.wraps = [.chanData nr] ∧ ChanBound md5 h srv proto creds evs ⟨nr, dst⟩

def AllBound (evs : List ChanEvent) (dst : Sa) : Prop :=
  ∀ chan, ChanAdded md5 h srv proto creds evs chan → chan.peer = dst → ChanBound md5 h srv proto creds evs chan

def Ready (evs : List ChanEvent) (ev : ChanEvent) : Prop :=
  let c := clientAfter md5 h srv proto creds evs
  match ev with
  | .udpSend dst mb => headroom c.t dst ≤ mb.pos ∧ AllBound md5 h srv proto creds evs dst
  | .send dst mb pad => Transmits c.t c.proto pad dst mb →
      AllBound md5 h srv proto creds evs dst ∧ (c.proto = .udp → mb.pos - headroom c.t dst < headroom c.t c.t.srv)
  | _ => True

theorem wrapFor_bound_iff (dst : Sa) {w : Wrap} (hw : w = wrapFor (clientAfter md5 h srv proto creds evs).t dst) :
    (w = .sendInd dst ∨ ∃ nr, w = .chanData nr ∧ ChanBound md5 h srv proto creds evs ⟨nr, dst⟩) ↔
      AllBound md5 h srv proto creds evs dst := by
  subst hw
  unfold wrapFor
  cases hfind : turncChanFindPeer (clientAfter md5 h srv proto creds evs).t.chans dst with
  | none =>
    refine iff_of_true (.inl rfl) fun chan hadded hpeer => ?_
    rw [(find_iff_added md5 h srv proto creds).2 ⟨hadded, hpeer⟩] at hfind
    cases hfind
  | some chan =>
    obtain ⟨hadded, rfl⟩ := (find_iff_added md5 h srv proto creds).1 hfind
    constructor
    · rintro (heq | ⟨nr, heq, hbound⟩)
      · cases heq
      · cases heq
        intro chan' hadded' hpeer
        rw [(find_iff_added md5 h srv proto creds).2 ⟨hadded', hpeer⟩] at hfind
        cases hfind
        exact hbound
    · exact fun hall => .inr ⟨chan.nr, rfl, hall chan hadded rfl⟩

/-- **Data for a peer.** After any events, what is sent for a peer is relayed as it should exactly
if there is room for one header, not for a second one, and every channel that was added for the peer
has been bound. -/
theorem sends_bound_iff (evs : List ChanEvent) (ev : ChanEvent) :
    Relayed md5 h srv proto creds evs ev ↔ Ready md5 h srv proto creds evs ev := by
  have hone := fun dst => wrapFor_bound_iff md5 h srv proto creds evs dst rfl
  unfold Relayed Ready
  generalize clientAfter md5 h srv proto creds evs = c at hone ⊢
  cases ev with
  | addChan | resp | timer => exact iff_of_true (fun _ _ hdst => nomatch hdst) trivial
  | udpSend dst mb =>
    simp only [ChanEvent.dst, Option.some.injEq, chanStep]
    obtain ⟨q, hq, hwraps⟩ := udpSendHandler_spec h c.t ⟨dst, mb, []⟩
    simp only [hq, mem_singleton, ChanOut.sent.injEq, forall_eq_apply_imp_iff, forall_eq']
    rw [hwraps, nil_append, ← hone]
    by_cases hroom : mb.pos < headroom c.t dst
    · simp [hroom]
    · simp [hroom, Nat.not_lt.1 hroom]
  | send dst mb pad =>
    simp only [ChanEvent.dst, Option.some.injEq, chanStep]
    by_cases hsend : Transmits c.t c.proto pad dst mb
    · obtain ⟨q, hq, hwraps⟩ := turncSend_spec h _ hsend
      simp only [hq, mem_singleton, ChanOut.sent.injEq, forall_eq_apply_imp_iff, forall_eq', hsend, true_implies]
      rw [hwraps, ← hone]
      by_cases htwo : c.proto = .udp ∧ headroom c.t c.t.srv ≤ mb.pos - headroom c.t dst
      · simp [htwo]
      rw [not_and, Nat.not_le] at htwo
      rw [if_neg (by rw [not_and, Nat.not_le]; exact htwo)]
      simp [and_iff_left htwo]
    · obtain ⟨err, herr⟩ := turncSend_error h _ hsend
      simp [herr, hsend]

end

/-! ## A packet before the answer -/

def relay : Sa := ⟨.inet 0xcb007101, 3478⟩

def peer : Sa := ⟨.inet 0xc6336401, 5000⟩

def onePacket : Mbuf := ⟨List.replicate 36 0 ++ [0x61], 36, 37⟩

/-- A packet is sent after `turnc_add_chan`, before the server has answered: it goes out in channel
data. -/
theorem channel_before_answer :
    ¬ Relayed (fun _ => []) Stun.noHash relay .udp ⟨[], [], none, none, []⟩ [.addChan peer true true none]
        (.udpSend peer onePacket) ∧
      (chanStep (fun _ => []) Stun.noHash
        (clientAfter (fun _ => []) Stun.noHash relay .udp ⟨[], [], none, none, []⟩ [.addChan peer true true none])
        (.udpSend peer onePacket)).2 =
      [.sent ⟨relay, ⟨List.replicate 32 0 ++ [0x40, 0, 0, 1, 0x61], 32, 37⟩, [.chanData 0x4000]⟩] := by
  have hsent : (chanStep (fun _ => []) Stun.noHash
        (clientAfter (fun _ => []) Stun.noHash relay .udp ⟨[], [], none, none, []⟩ [.addChan peer true true none])
        (.udpSend peer onePacket)).2 =
      [.sent ⟨relay, ⟨List.replicate 32 0 ++ [0x40, 0, 0, 1, 0x61], 32, 37⟩, [.chanData 0x4000]⟩] := by
    decide +kernel
  refine ⟨fun hrelayed => ?_, hsent⟩
  rcases hrelayed peer _ rfl (by rw [hsent]; exact mem_singleton_self _) with heq | ⟨nr, -, hbound⟩
  · exact absurd heq (by decide)
  obtain ⟨before, ev, after, hevs, ⟨env, msg, rfl⟩, -⟩ := hbound
  have hmem : ChanEvent.resp nr env none 0 msg ∈ [ChanEvent.addChan peer true true none] := by
    rw [hevs]
    exact mem_append_right _ mem_cons_self
  cases mem_singleton.1 hmem

end BareRTC.Turn
