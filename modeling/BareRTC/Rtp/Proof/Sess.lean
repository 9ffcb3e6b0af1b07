import BareRTC.Rtp.Proof.RoundTrip
import BareRTC.Rtp.Sess

/-!
# The counters of an RTCP session

`Sess.Ok`: `memberc` is the number of members, which are at most eight and differ in their sources,
and `senderc` is the number of members that have a source state. Every function of the session keeps
it; all but three change members in place (`Ok.update`). A sender report has its count from
`senderc` and its blocks from the table, so that the two agree (`mkSr_counts`).
-/

namespace BareRTC.Rtcp

open List

open Mbuf

variable {sess sess' : Sess} {src : UInt32} {f : Member → Member} {l : List Member} {m : Member} (now : UInt64)

def Member.isSender (mbr : Member) : Bool := mbr.s.isSome

structure Sess.Ok (sess : Sess) : Prop where
  members : sess.memberc.toNat = sess.members.length
  max : sess.members.length ≤ maxMembers
  nodup : (sess.members.map (·.src)).Nodup
  senders : sess.senderc.toNat = sess.members.countP Member.isSender

theorem rtcpSessAlloc_ok (ssrc : UInt32) : (rtcpSessAlloc ssrc).Ok := ⟨rfl, Nat.zero_le _, nodup_nil, rfl⟩

/-! ## Members -/

theorem memberFind_split (hnd : (l.map (·.src)).Nodup) (hm : memberFind l src = some m) :
    m.src = src ∧ ∃ l1 l2, l = l1 ++ m :: l2 ∧ (∀ a ∈ l1, a.src ≠ src) ∧ ∀ a ∈ l2, a.src ≠ src := by
  obtain ⟨hsrc, l1, l2, rfl, h1⟩ := find?_eq_some_iff_append.1 hm
  simp only [decide_eq_true_eq] at hsrc
  refine ⟨hsrc, l1, l2, rfl, fun a ha => by simpa using h1 a ha, fun a ha hne => ?_⟩
  rw [map_append, map_cons, nodup_append] at hnd
  obtain ⟨-, hnd, -⟩ := hnd
  rw [nodup_cons] at hnd
  apply hnd.1
  rw [hsrc, ← hne]
  exact mem_map_of_mem ha

theorem memberFind_none (h : memberFind l src = none) : ∀ m ∈ l, m.src ≠ src := by
  intro m hm
  have := find?_eq_none.1 h m hm
  simpa using this

theorem map_other (h : ∀ a ∈ l, a.src ≠ src) : (l.map fun m => if m.src = src then f m else m) = l := by
  refine (map_congr_left fun a ha => ?_).trans (map_id l)
  exact if_neg (h a ha)

theorem countP_updateMember (hnd : (sess.members.map (·.src)).Nodup) (hm : memberFind sess.members src = some m) :
    (updateMember sess src f).members.countP Member.isSender + (if m.isSender then 1 else 0) =
      sess.members.countP Member.isSender + (if (f m).isSender then 1 else 0) := by
  obtain ⟨hsrc, l1, l2, hl, h1, h2⟩ := memberFind_split hnd hm
  unfold updateMember
  rw [hl]
  simp only [map_append, map_cons, map_other h1, map_other h2, if_pos hsrc, countP_append, countP_cons]
  omega

/-- Members are changed in place. -/
theorem Sess.Ok.map (h : sess.Ok) (hl : sess'.members = sess.members.map f) (hc : sess'.memberc = sess.memberc)
    (hf : ∀ m, (f m).src = m.src) (hs : sess'.senderc.toNat = sess'.members.countP Member.isSender) : sess'.Ok where
  members := by rw [hc, hl, length_map, h.members]
  max := by rw [hl, length_map]; exact h.max
  nodup := by
    rw [hl, map_map, show (·.src) ∘ f = (·.src) from funext hf]
    exact h.nodup
  senders := hs

/-- A member is changed in place; `senderc` is adjusted if it becomes a sender. -/
theorem Sess.Ok.update {senderc : UInt32} (h : sess.Ok) (hm : memberFind sess.members src = some m)
    (hf : ∀ m, (f m).src = m.src)
    (hc : senderc.toNat + (if m.isSender then 1 else 0) = sess.senderc.toNat + (if (f m).isSender then 1 else 0)) :
    ({ updateMember sess src f with senderc } : Sess).Ok := by
  refine h.map rfl rfl (fun m => ?_) ?_
  · split
    · exact hf m
    · rfl
  · have := countP_updateMember (f := f) h.nodup hm
    have := h.senders
    dsimp only
    omega

theorem getMember_ok {mem : Bool} (h : sess.Ok) (hget : getMember sess src mem = some sess') :
    sess'.Ok ∧ ∃ m, memberFind sess'.members src = some m := by
  unfold getMember at hget
  split at hget
  case isTrue hsome =>
    cases hget
    exact ⟨h, Option.isSome_iff_exists.1 hsome⟩
  case isFalse hnone =>
    split at hget
    · cases hget
    case isFalse hmax =>
      split at hget
      case isFalse => cases hget
      cases hget
      have hmembers := h.members
      have hnew := memberFind_none (by simpa using hnone)
      unfold maxMembers at hmax
      refine ⟨⟨?_, ?_, ?_, ?_⟩, { src }, ?_⟩
      · show (sess.memberc + 1).toNat = _
        rw [UInt32.toNat_add, length_append, ← hmembers]
        simp
        omega
      · show (sess.members ++ _).length ≤ maxMembers
        rw [length_append, length_singleton, maxMembers]
        omega
      · show ((sess.members ++ _).map _).Nodup
        rw [map_append, nodup_append]
        refine ⟨h.nodup, nodup_singleton _, ?_⟩
        rintro a ha b hb rfl
        obtain ⟨m, hm, rfl⟩ := mem_map.1 ha
        exact hnew m hm (mem_singleton.1 hb)
      · show sess.senderc.toNat = (sess.members ++ _).countP _
        rw [countP_append, ← h.senders]
        rfl
      · show (sess.members ++ [_]).find? _ = _
        rw [find?_append, find?_eq_none.2 fun m hm => by simpa using hnew m hm]
        simp

/-! ## What is received -/

theorem handleRrBlocks_same (srateTx : UInt32) (ntp : Option NtpTime) {rrv : List Rr} (m : Member) :
    (rrv.foldl (handleRrBlock srateTx ntp) m).src = m.src ∧ (rrv.foldl (handleRrBlock srateTx ntp) m).s = m.s := by
  induction rrv generalizing m with
  | nil => exact ⟨rfl, rfl⟩
  | cons rr rrv ih => exact ih (handleRrBlock srateTx ntp m rr)

section
variable (h : sess.Ok) (count : Nat)
include h

theorem handleIncomingRr_ok (ssrc : UInt32) (rrv : List Rr) (ntp : Option NtpTime)
    (mem : Bool) : (handleIncomingRr sess count ssrc rrv ntp mem).Ok := by
  unfold handleIncomingRr
  cases hget : getMember sess ssrc mem with
  | none => exact h
  | some sess' =>
    obtain ⟨h', m, hm⟩ := getMember_ok h hget
    refine h'.update hm (fun m => (handleRrBlocks_same _ _ m).1) ?_
    rw [Member.isSender, Member.isSender, (handleRrBlocks_same _ _ m).2]

theorem handleIncomingSr_ok (ssrc ntpSec ntpFrac rtpTs psent osent : UInt32)
    (rrv : List Rr) (now : UInt64) (ntp : Option NtpTime) (mem : Bool) :
    (handleIncomingSr sess count ssrc ntpSec ntpFrac rtpTs psent osent rrv now ntp mem).Ok := by
  unfold handleIncomingSr
  cases hget : getMember sess ssrc mem with
  | none => exact h
  | some sess' =>
    obtain ⟨h', m, hm⟩ := getMember_ok h hget
    refine h'.update hm (fun m => (handleRrBlocks_same _ _ _).1) ?_
    dsimp only
    rw [Member.isSender, Member.isSender, (handleRrBlocks_same _ _ _).2, Option.isSome_map]

theorem byeSource_ok : (byeSource sess src).Ok := by
  unfold byeSource
  cases hm : memberFind sess.members src with
  | none => exact h
  | some m =>
    obtain ⟨hsrc, l1, l2, hl, h1, -⟩ := memberFind_split h.nodup hm
    have herase : sess.members.eraseP (·.src = src) = l1 ++ l2 := by
      rw [hl, eraseP_append_right _ fun a ha => by simpa using h1 a ha, eraseP_cons_of_pos (by simpa using hsrc)]
    have hlen : sess.members.length = l1.length + l2.length + 1 := by
      rw [hl, length_append, length_cons]
      omega
    have hcount : sess.members.countP Member.isSender =
        (l1 ++ l2).countP Member.isSender + if m.isSender then 1 else 0 := by
      rw [hl, countP_append, countP_append, countP_cons]
      omega
    have hmembers := h.members
    have hsenders := h.senders
    have hmax := h.max
    have hnd := h.nodup
    rw [hl, map_append, map_cons] at hnd
    dsimp only
    refine ⟨?_, ?_, ?_, ?_⟩
    · show (sess.memberc - 1).toNat = (sess.members.eraseP _).length
      have := sess.memberc.toNat_lt
      rw [herase, length_append, UInt32.toNat_sub, UInt32.toNat_one]
      omega
    · show (sess.members.eraseP _).length ≤ maxMembers
      rw [herase, length_append]
      omega
    · show ((sess.members.eraseP _).map _).Nodup
      rw [herase, map_append]
      exact hnd.sublist (List.Sublist.append_left (sublist_cons_self _ _) _)
    show (if m.s.isSome then sess.senderc - 1 else sess.senderc).toNat = (sess.members.eraseP _).countP _
    rw [herase]
    by_cases hs : m.s.isSome
    · have hs' : m.isSender := hs
      have := sess.senderc.toNat_lt
      rw [if_pos hs', hsenders.symm] at hcount
      rw [if_pos hs, UInt32.toNat_sub, UInt32.toNat_one]
      omega
    · have hs' : ¬ m.isSender := hs
      rw [if_neg hs'] at hcount
      rw [if_neg hs]
      omega

theorem handleIncomingBye_ok (srcv : List UInt32) : (handleIncomingBye sess count srcv).Ok := by
  unfold handleIncomingBye
  induction srcv.take count generalizing sess with
  | nil => exact h
  | cons src srcs ih => exact ih (byeSource_ok h)

theorem rtcpHandler_ok (msg : Msg) (now : UInt64) (ntp : Option NtpTime) (mem : Bool) :
    (rtcpHandler sess msg now ntp mem).Ok := by
  unfold rtcpHandler
  cases msg.r with
  | sr => exact handleIncomingSr_ok h ..
  | rr => exact handleIncomingRr_ok h ..
  | bye => exact handleIncomingBye_ok h ..
  | _ => exact h

theorem senderc_le : sess.senderc.toNat ≤ 8 := by
  rw [h.senders]
  exact countP_le_length.trans h.max

theorem rtcpSessRxRtp_ok (seq : UInt16) (ts ssrc : UInt32) (payloadSize : UInt64) (peer : Sdp.Sa)
    (now : UInt64) (mem memSource : Bool) :
    (rtcpSessRxRtp sess seq ts ssrc payloadSize peer now mem memSource).Ok := by
  unfold rtcpSessRxRtp
  cases hget : getMember sess ssrc mem with
  | none => exact h
  | some sess' =>
    obtain ⟨h', m, hm⟩ := getMember_ok h hget
    simp only [hm, Option.bind_some]
    cases hs : m.s with
    | some s =>
      refine h'.update hm (fun m => rfl) ?_
      simp [Member.isSender, hs]
    | none =>
      simp only
      split
      · -- the member becomes a sender
        have hlt := senderc_le h'
        refine h'.update hm (fun m => rfl) ?_
        simp only [Member.isSender, hs, Option.isSome_none, Option.isSome_some, Bool.false_eq_true, if_true, if_false]
        rw [UInt32.toNat_add, UInt32.toNat_one]
        omega
      · exact h'

end

/-! ## Reports -/

def reportBlocks (now : UInt64) (members : List Member) : List Rr :=
  (hashApply members).filterMap fun mbr => mbr.s.map (reportBlock now mbr.src)

variable {members : List Member}

theorem countP_hashApply (p : Member → Bool) :
    (hashApply members).countP p = members.countP p := by
  unfold hashApply
  rw [countP_flatMap]
  induction members with
  | nil => simp [Function.comp_def]
  | cons m members ih =>
    -- the new member is in one bucket
    have hstep : ∀ i, (List.countP p ∘ fun i => (m :: members).filter fun mbr => mbr.src.toNat % maxMembers = i) i =
        (List.countP p ∘ fun i => members.filter fun mbr => mbr.src.toNat % maxMembers = i) i +
          if i = m.src.toNat % maxMembers then (if p m then 1 else 0) else 0 := by
      intro i
      simp only [Function.comp_apply, filter_cons, decide_eq_true_eq, eq_comm (a := i)]
      split
      · rw [countP_cons]
      · rw [Nat.add_zero]
    have hlt : m.src.toNat % maxMembers < maxMembers := Nat.mod_lt _ (by decide)
    have hone := Finset.sum_ite_eq' (Finset.range maxMembers) (m.src.toNat % maxMembers) fun _ => if p m then 1 else 0
    rw [if_pos (Finset.mem_range.2 hlt)] at hone
    rw [map_congr_left fun i _ => hstep i, sum_map_add, ih, countP_cons]
    exact congrArg _ hone

theorem length_reportBlocks (members : List Member) :
    (reportBlocks now members).length = members.countP Member.isSender := by
  rw [← countP_hashApply]
  unfold reportBlocks
  induction hashApply members with
  | nil => rfl
  | cons m l ih =>
    rw [filterMap_cons, countP_cons, ← ih]
    cases hs : m.s with
    | none | some => simp [Member.isSender, hs]

theorem encodeHandler_eq :
    encodeHandler now members = Packet.each (fun rr mb => (none, rtcpRrEncode rr mb)) (reportBlocks now members) := by
  funext mb
  unfold encodeHandler Packet.each reportBlocks
  induction hashApply members generalizing mb with
  | nil => rfl
  | cons m l ih =>
    cases hs : m.s with
    | none =>
      simp only [foldl_cons, filterMap_cons, hs, Option.map_none]
      exact ih mb
    | some s =>
      simp only [foldl_cons, filterMap_cons, hs, Option.map_some]
      exact ih _

def Report.Counts (r : Report) : Prop :=
  ∃ hdr ssrc ntpSec ntpFrac rtpTs psent osent rrv,
    rtcpDecode (r.mb.setPos r.start) = .ok ⟨hdr, .sr ssrc ntpSec ntpFrac rtpTs psent osent rrv⟩ r.mb ∧
      r.mb.pos = r.mb.endPos ∧ hdr.count.toNat = rrv.length

theorem mkSr_counts (h : sess.Ok) (ntp : NtpTime) (now : UInt64) (mb : Mbuf) :
    ∃ mb', (mkSr sess (.ok ntp) now mb).1 = (none, mb') ∧ Report.Counts ⟨mb.pos, mb'⟩ := by
  have hlen := length_reportBlocks now sess.members
  have hcount : sess.senderc = UInt32.ofNat (reportBlocks now sess.members).length := by
    rw [hlen, ← h.senders, UInt32.ofNat_toNat]
  have hle : (reportBlocks now sess.members).length ≤ 8 := by
    rw [hlen, ← h.senders]
    exact senderc_le h
  have hbytes := flatMap_length (f := rrBytes) (n := 24) (fun _ => by simp [rrBytes]) (reportBlocks now sess.members)
  have hok (a b c d e f : UInt32) : (Packet.sr a b c d e f (reportBlocks now sess.members)).Ok := by
    refine ⟨trivial, ?_, ?_⟩
    · show (reportBlocks now sess.members).length ≤ 31
      omega
    · simp only [Packet.bytes, length_append, length_u32Bytes, hbytes, pad4]
      omega
  unfold mkSr
  rw [hcount, encodeHandler_eq]
  obtain ⟨mb', henc, hpos, hdr, hc, -, hdec⟩ := roundTrips_of_whole (hok _ _ _ _ _ _) trivial mb
  exact ⟨mb', henc, hdr, _, _, _, _, _, _, _, hdec, hpos, hc⟩

theorem mkSr_ok (h : sess.Ok) (ntp : Except Errno NtpTime) (now : UInt64) (mb : Mbuf) :
    (mkSr sess ntp now mb).2.Ok := by
  unfold mkSr
  cases ntp with
  | error err => exact h
  | ok ntp =>
    refine h.map rfl rfl (fun _ => rfl) ?_
    show sess.senderc.toNat = (sess.members.map _).countP _
    rw [countP_map, h.senders]
    apply countP_congr
    intro m _
    simp [Member.isSender]

theorem step_ok (h : sess.Ok) {ev : Event} : (step sess ev).1.Ok ∧ ∀ r, (step sess ev).2 = some r → r.Counts := by
  cases ev with
  | rxRtp => exact ⟨rtcpSessRxRtp_ok h .., nofun⟩
  | rtcp => exact ⟨rtcpHandler_ok h .., nofun⟩
  | txRtp | setSrate => exact ⟨⟨h.members, h.max, h.nodup, h.senders⟩, nofun⟩
  | report ntp now mb =>
    have hok := mkSr_ok h ntp now mb
    cases ntp with
    | error err => exact ⟨h, nofun⟩
    | ok ntp =>
      obtain ⟨mb', hmk, hcounts⟩ := mkSr_counts h ntp now mb
      obtain ⟨sess', hres⟩ : ∃ sess', mkSr sess (.ok ntp) now mb = ((none, mb'), sess') := ⟨_, Prod.ext hmk rfl⟩
      rw [hres] at hok
      simp only [step, hres]
      refine ⟨hok, ?_⟩
      rintro r ⟨⟩
      exact hcounts

/-- **The counters of an RTCP session.** After any packets that were received and sent, in any
order: `memberc` is the number of members, at most eight and one for each source, `senderc` is the
number of those with a source state; and every sender report on the way has as many blocks as its
count says. -/
theorem counters_agree (ssrc : UInt32) (evs : List Event) :
    (exec step (rtcpSessAlloc ssrc) evs).Ok ∧ ∀ r, some r ∈ outs step (rtcpSessAlloc ssrc) evs → r.Counts := by
  have hinv : ∀ (sess : Sess) (ev : Event), sess.Ok → (step sess ev).1.Ok := fun sess ev h => (step_ok h).1
  have hout : ∀ o ∈ outs step (rtcpSessAlloc ssrc) evs, ∀ r, o = some r → r.Counts :=
    outs_inv hinv (fun sess ev h => (step_ok h).2) evs _ (rtcpSessAlloc_ok ssrc)
  exact ⟨exec_inv_all Sess.Ok hinv evs _ (rtcpSessAlloc_ok ssrc), fun r hr => hout _ hr r rfl⟩

end BareRTC.Rtcp
