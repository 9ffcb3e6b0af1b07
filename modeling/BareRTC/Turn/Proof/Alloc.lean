import BareRTC.Stun.Proof.Ctrans
import BareRTC.Turn.Alloc

/-!
# The allocation of a TURN client ends

While the client waits there is one transaction in its STUN instance, with its timer running
(`Waiting`); afterwards there is none (`Idle`). Every answer that leads to another request counts as
a failure, and with the sixteenth the client gives up: so there are as many requests as failures,
and one (`Progress`). Every time that the timer runs off takes from a budget (`Client.budget`), so
that the handler is called after a bounded number of them.
-/

namespace BareRTC.Turn

open List

open Sdp (Sa)
open Stun (Attrib AttrVal Ctrans Hash Inst Msg Proto Request stunMsgAttr)

/-! ## The STUN instance of a client -/

structure Idle (st : Inst) : Prop where
  heap : st.heap = []
  ctl : st.ctl = []
  tmrs : st.tmrs = []

structure Waiting (st : Inst) (ct : Ctrans) : Prop where
  heap : st.heap = [ct]
  ctl : st.ctl = [ct.id]
  tmrs : st.tmrs = [ct.id]
  resph : ct.resph

section
variable {st : Inst} {ct : Ctrans}

theorem Waiting.find (h : Waiting st ct) : st.find ct.id = some ct := by simp [Inst.find, h.heap]

structure Requests (st : Inst) (r : Option Errno × Inst × List Stun.Out) : Prop where
  conf : r.2.1.conf = st.conf
  sent : ∀ o ∈ r.2.2, ∃ ct, o = .sent ct
  fails : r.1.isSome → Idle r.2.1
  waits : r.1 = none → ∃ ct, Waiting r.2.1 ct

theorem deref_idle (hheap : st.heap = [ct]) (hctl : st.ctl = [ct.id]) (htmrs : ∀ i ∈ st.tmrs, i = ct.id) :
    Idle (st.deref ct.id) := by
  simp only [Inst.deref, Inst.unlink, Inst.tmrCancel, hheap, hctl]
  exact ⟨by simp, by simp, filter_eq_nil_iff.2 fun i hi => by simpa using htmrs i hi⟩

theorem Waiting.deref (h : Waiting st ct) : Idle (st.deref ct.id) := deref_idle h.heap h.ctl (by simp [h.tmrs])

/-- The timer may have been cancelled. -/
theorem Waiting.completed (h : Waiting st ct) {st' : Inst} (hst : st'.deref ct.id = st.deref ct.id) {ct' : Ctrans}
    (hid : ct'.id = ct.id) (hresph : ct'.resph) (err : Option Errno) (scode : UInt16) (reason : Option Bytes)
    (msg : Option Msg) : ∃ st1, Stun.completed st' ct' err scode reason msg = (st1, [.resp ct' err scode reason msg]) ∧
      Idle st1 ∧ st1.conf = st.conf := by
  refine ⟨st.deref ct.id, ?_, h.deref, rfl⟩
  rw [Stun.completed_eq, hid, if_pos hresph, hst]

structure Added (st : Inst) (ct : Ctrans) : Prop where
  heap : st.heap = [ct]
  ctl : st.ctl = [ct.id]
  tmrs : st.tmrs = []

theorem Added.deref (h : Added st ct) : Idle (st.deref ct.id) := deref_idle h.heap h.ctl (by simp [h.tmrs])

theorem Added.tmrStart (h : Added st ct) {c : Ctrans} (hid : c.id = ct.id) (hc : c.resph) :
    Waiting ((st.put c).tmrStart c.id) c := by
  refine ⟨?_, ?_, ?_, hc⟩
  · simp [Inst.tmrStart, Inst.put, h.heap, hid]
  · simp [Inst.tmrStart, Inst.put, h.ctl, hid]
  · simp [Inst.tmrStart, Inst.put, h.tmrs]

theorem startTransport_cases {r : Request} (hsock : r.sock) (hdst : r.dst) (hresph : ct.resph) :
    (∃ err, Stun.startTransport r st ct = (some err, st, [])) ∨
      ∃ c : Ctrans, c.id = ct.id ∧ c.resph ∧
        Stun.startTransport r st ct = (r.send, (st.put c).tmrStart c.id, [.sent c]) := by
  unfold Stun.startTransport
  cases r.proto with
  | udp =>
    simp only [hdst, hsock, Bool.true_eq_false, if_false, false_and]
    exact .inr ⟨{ ct with ival := st.conf.rto, txc := 1 }, rfl, hresph, rfl⟩
  | tcp =>
    simp only [hsock, if_true]
    exact .inr ⟨{ ct with txc := st.conf.rc }, rfl, hresph, rfl⟩
  | dtls =>
    simp only [hsock, Bool.true_eq_false, if_false]
    exact .inr ⟨{ ct with ival := st.conf.rto, txc := 1 }, rfl, hresph, rfl⟩
  | other => exact .inl ⟨_, rfl⟩

theorem Idle.request (h : Idle st) (r : Request) (hsock : r.sock) (hresph : r.resph) (hdst : r.dst) :
    Requests st (Stun.stunCtransRequest st r) := by
  unfold Stun.stunCtransRequest
  split
  · exact ⟨rfl, forall_mem_nil _, fun _ => h, nofun⟩
  generalize hct : (⟨st.next, r.tid, r.key, r.proto, r.sock, 0, 0, r.met, r.resph⟩ : Ctrans) = ct
  generalize hst : ({ st with heap := st.heap ++ [ct], ctl := st.ctl ++ [ct.id], next := st.next + 1 } : Inst) = st1
  have hconf : st1.conf = st.conf := by rw [← hst]
  have hresph' : ct.resph := by rw [← hct]; exact hresph
  have hadded : Added st1 ct := by
    rw [← hst]
    exact ⟨by rw [h.heap]; rfl, by rw [h.ctl]; rfl, h.tmrs⟩
  simp only [hst]
  split
  · exact ⟨hconf, forall_mem_nil _, fun _ => hadded.deref, nofun⟩
  rcases @startTransport_cases st1 _ _ hsock hdst hresph' with ⟨err, heq⟩ | ⟨c, hid, hc, heq⟩
  · rw [heq]
    exact ⟨hconf, forall_mem_nil _, fun _ => hadded.deref, nofun⟩
  have hw := hadded.tmrStart hid hc
  rw [heq]
  cases r.send with
  | none => exact ⟨hconf, fun o ho => ⟨c, mem_singleton.1 ho⟩, nofun, fun _ => ⟨c, hw⟩⟩
  | some err => exact ⟨hconf, fun o ho => ⟨c, mem_singleton.1 ho⟩, fun _ => hid ▸ hw.deref, nofun⟩

theorem checkResponse_attrl {h : Hash} {code : UInt16} {msg msg' : Msg}
    (hc : Stun.checkResponse h ct code msg = (none, msg')) : msg'.attrl = msg.attrl := by
  unfold Stun.checkResponse at hc
  split at hc
  · cases hc
    rfl
  split at hc
  · cases hc
    rfl
  · have hattrl := (Stun.stunMsgChkMi_same (h := h) ‹_› msg).2.2
    rwa [hc] at hattrl

theorem Waiting.matched (hw : Waiting st ct) {h : Hash} {msg : Msg} {ua : Bool} {code : UInt16} {reason : Bytes}
    {herr : Option Errno} :
    (Stun.ctransMatched h st msg ua code reason herr).2 = (st, []) ∨
      ∃ st' err msg', (Stun.ctransMatched h st msg ua code reason herr).2 =
          (st', [.resp ct err code (some reason) (some msg')]) ∧ Idle st' ∧ st'.conf = st.conf ∧
        msg'.attrl = msg.attrl := by
  have happly : Stun.applyMatch st msg st.ctl = some (if Stun.matchHandler msg ct then some ct else none) := by
    rw [hw.ctl]
    simp only [Stun.applyMatch, hw.find]
    split <;> rfl
  unfold Stun.ctransMatched
  rw [happly]
  split
  · rename_i heq
    cases heq
  · exact .inl rfl
  rename_i ct' heq
  have hct : ct' = ct := by
    split at heq
    · exact (Option.some.inj (Option.some.inj heq)).symm
    · cases heq
  subst hct
  cases hcheck : Stun.checkResponse h ct' code msg with
  | mk err msg' =>
    cases err with
    | some err => exact .inl rfl
    | none =>
      obtain ⟨st', heq, hidle, hconf⟩ := hw.completed rfl rfl hw.resph
        (if herr.isNone ∧ ua then some .EPROTO else herr) code (some reason) (some msg')
      exact .inr ⟨st', _, msg', heq, hidle, hconf, checkResponse_attrl hcheck⟩

/-- Something is received: nothing happens, or the transaction completes, with the message that was
received. -/
theorem Waiting.recv (hw : Waiting st ct) {h : Hash} {mb : Mbuf} :
    Stun.step h st (.recv mb) = (st, []) ∨
      ∃ st' err scode reason msg, Stun.step h st (.recv mb) = (st', [.resp ct err scode reason (some msg)]) ∧ Idle st' ∧
        st'.conf = st.conf ∧ ∃ msg0 ua, Stun.stunMsgDecode mb (some []) = (.ok msg0, ua) ∧ msg.attrl = msg0.attrl := by
  rcases Stun.stunRecv_cases h st mb with heq | ⟨msg0, ua, code, reason, herr, hdec, heq⟩
  · exact .inl heq
  refine (hw.matched).imp heq.trans ?_
  rintro ⟨st', err, msg', heq', hidle, hconf, hattrl⟩
  exact ⟨st', err, code, some reason, msg', heq.trans heq', hidle, hconf, msg0, ua, hdec, hattrl⟩

/-- The timer runs off: the request is sent again, or the transaction completes with an error. -/
theorem Waiting.timer (hw : Waiting st ct) (h : Hash) (send : Option Errno) :
    (∃ st' ct' os, Stun.step h st (.timer ct.id send) = (st', os) ∧ Waiting st' ct' ∧ st'.conf = st.conf ∧
        (∀ o ∈ os, ∃ ct, o = .sent ct) ∧ ct'.txc.toNat = ct.txc.toNat + 1 ∧ ct.txc.toNat < st.conf.rc.toNat) ∨
      ∃ st' ct' err os, Stun.step h st (.timer ct.id send) = (st', os ++ [.resp ct' (some err) 0 none none]) ∧ Idle st' ∧
        st'.conf = st.conf ∧ ∀ o ∈ os, ∃ ct, o = .sent ct := by
  have hin : ct.id ∈ st.tmrs := by rw [hw.tmrs]; exact .head _
  have hcancel : (st.tmrCancel ct.id).deref ct.id = st.deref ct.id := Inst.deref_tmrCancel ..
  simp only [Stun.step, if_pos hin, Stun.timeoutHandler]
  rw [show (st.tmrCancel ct.id).find ct.id = some ct from hw.find]
  simp only
  split
  · obtain ⟨st', heq, hidle, hconf⟩ := hw.completed hcancel rfl hw.resph (some .ETIMEDOUT) 0 none none
    exact .inr ⟨st', ct, .ETIMEDOUT, [], heq, hidle, hconf, forall_mem_nil _⟩
  rename_i hlt
  obtain ⟨htxc, hrc⟩ := Stun.txc_succ hlt
  cases send with
  | some err =>
    have hid : ({ ct with txc := ct.txc + 1 } : Ctrans).id = ct.id := rfl
    obtain ⟨st', heq, hidle, hconf⟩ := hw.completed hcancel hid hw.resph (some err) 0 none none
    exact .inr ⟨st', _, err, [.sent { ct with txc := ct.txc + 1 }], by simp only [heq]; rfl, hidle, hconf,
      fun o ho => ⟨_, mem_singleton.1 ho⟩⟩
  | none =>
    simp only
    generalize hival : (if ct.txc + 1 ≥ (st.tmrCancel ct.id).conf.rc then
      (st.tmrCancel ct.id).conf.rto * (st.tmrCancel ct.id).conf.rm else ct.ival * 2) = ival
    refine .inl ⟨_, { ct with txc := ct.txc + 1, ival }, _, rfl, ⟨?_, ?_, ?_, hw.resph⟩, rfl,
      fun o ho => ⟨_, mem_singleton.1 ho⟩, htxc, hrc⟩
    · simp [Inst.tmrStart, Inst.put, Inst.tmrCancel, hw.heap]
    · simp [Inst.tmrStart, Inst.put, Inst.tmrCancel, hw.ctl]
    · simp [Inst.tmrStart, Inst.put, Inst.tmrCancel, hw.tmrs]

theorem Waiting.timer_other (hw : Waiting st ct) {h : Hash} {id : Nat} (hid : id ≠ ct.id) {send : Option Errno} :
    Stun.step h st (.timer id send) = (st, []) := by
  simp only [Stun.step]
  rw [if_neg (by rw [hw.tmrs]; simpa using hid)]

theorem Idle.step (hi : Idle st) {h : Hash} {ev : AllocEvent} : Stun.step h st ev.stun = (st, []) := by
  cases ev with
  | recv env mb =>
    rcases Stun.stunRecv_cases h st mb with heq | ⟨msg, ua, code, reason, herr, -, heq⟩
    · exact heq
    refine heq.trans ?_
    rw [Stun.ctransMatched, hi.ctl]
    rfl
  | timer env id send =>
    show (if id ∈ st.tmrs then _ else _) = _
    rw [if_neg (by rw [hi.tmrs]; exact not_mem_nil)]

end

/-! ## One answer -/

def AllocOut.isRequest : AllocOut → Bool
  | .request .. => true
  | _ => false

def AllocOut.isTh : AllocOut → Bool
  | .th .. => true
  | _ => false

def AllocOut.IsSuccess (rel map : Option AttrVal) : AllocOut → Prop
  | .th err scode _ rel' map' _ => err = none ∧ scode = 0 ∧ rel' = rel ∧ map' = map
  | _ => False

def counts (os : List AllocOut) : Nat × Nat := (os.countP AllocOut.isRequest, os.countP AllocOut.isTh)

theorem counts_append (os os' : List AllocOut) :
    counts (os ++ os') = ((counts os).1 + (counts os').1, (counts os).2 + (counts os').2) := by
  simp only [counts, countP_append]

theorem counts_stun (os : List Stun.Out) : counts (os.map .stun) = (0, 0) := by
  simp [counts, countP_map, Function.comp_def, AllocOut.isRequest, AllocOut.isTh]

def Client.Waits (t : Client) : Prop := ∃ ct, Waiting t.stun ct

structure Asked (t : Client) (r : Option Errno × Client × List AllocOut) : Prop where
  ls : r.2.1.ls = t.ls
  conf : r.2.1.stun.conf = t.stun.conf
  counts : counts r.2.2 = (1, 0)
  quiet : ∀ rel map, ∀ o ∈ r.2.2, ¬ o.IsSuccess rel map
  fails : r.1.isSome → Idle r.2.1.stun
  waits : r.1 = none → r.2.1.Waits

theorem allocateRequest_asked (env : ReqEnv) {t : Client} (hi : Idle t.stun) : Asked t (allocateRequest env t) := by
  have hone : ∀ os : List Stun.Out, Turn.counts (.request t.srv t.creds.key t.attrs :: os.map .stun) = (1, 0) := by
    intro os
    rw [← singleton_append, counts_append, counts_stun]
    rfl
  have hquiet : ∀ os : List Stun.Out, ∀ rel map,
      ∀ o ∈ AllocOut.request t.srv t.creds.key t.attrs :: os.map .stun, ¬ o.IsSuccess rel map := by
    intro os rel map o ho
    rcases mem_cons.1 ho with rfl | ho
    · exact id
    · obtain ⟨o', -, rfl⟩ := mem_map.1 ho
      exact id
  unfold allocateRequest
  split
  · exact ⟨rfl, rfl, hone [], hquiet [], fun _ => hi, nofun⟩
  split
  · exact ⟨rfl, rfl, hone [], hquiet [], fun _ => hi, nofun⟩
  have hreq := hi.request
    ⟨t.proto, true, true, env.tid, 0x003, t.creds.key, true, env.mem, env.memKey, none, env.send⟩ rfl rfl rfl
  dsimp only
  split
  · rename_i err st os heq
    rw [heq] at hreq
    exact ⟨rfl, hreq.conf, hone os, hquiet os, fun _ => hreq.fails rfl, nofun⟩
  rename_i st os heq
  rw [heq] at hreq
  exact ⟨rfl, hreq.conf, hone os, hquiet os, nofun, fun _ => hreq.waits rfl⟩

structure Answered (t : Client) (r : Client × List AllocOut) : Prop where
  conf : r.1.stun.conf = t.stun.conf
  after : ((counts r.2).2 = 1 ∧ Idle r.1.stun) ∨
    ((counts r.2).2 = 0 ∧ r.1.Waits ∧ (counts r.2).1 = 1 ∧ r.1.ls.failc.toNat = t.ls.failc.toNat + 1)
  requests : (counts r.2).1 = 0 ∨ (counts r.2).1 = 1 ∧ t.ls.failc.toNat + 1 < 16

variable {t' : Client} {scode : UInt16}

theorem report_answered {t : Client} (hstun : t'.stun = t.stun) (hi : Idle t.stun) (err : Option Errno) (scode : UInt16)
    (reason : Option Bytes) (rel map : Option AttrVal) (msg : Option Msg) :
    Answered t (t', report err scode reason rel map msg) :=
  ⟨by rw [hstun], .inl ⟨rfl, hstun ▸ hi⟩, .inl rfl⟩

theorem retry_answered {env : ReqEnv} {t : Client} (hstun : t'.stun = t.stun) (hi : Idle t.stun)
    (hls : t'.ls.failc.toNat = t.ls.failc.toNat + 1) (hlt : t.ls.failc.toNat + 1 < 16) (scode : UInt16)
    (reason : Option Bytes) (msg : Option Msg) : Answered t (retry env t' scode reason msg) := by
  have hasked := allocateRequest_asked env (t := t') (hstun ▸ hi)
  unfold retry
  split
  · rename_i err t1 os heq
    rw [heq] at hasked
    have hcounts : counts (os ++ report (some err) scode reason none none msg) = (1, 1) := by
      rw [counts_append, show counts os = (1, 0) from hasked.counts]
      rfl
    exact ⟨hasked.conf.trans (by rw [hstun]), .inl ⟨by rw [hcounts], hasked.fails rfl⟩, .inr ⟨by rw [hcounts], hlt⟩⟩
  rename_i t1 os heq
  rw [heq] at hasked
  have hcounts : counts os = (1, 0) := hasked.counts
  refine ⟨hasked.conf.trans (by rw [hstun]), .inr ⟨by rw [hcounts], hasked.waits rfl, by rw [hcounts], ?_⟩,
    .inr ⟨by rw [hcounts], hlt⟩⟩
  rw [show t1.ls = t'.ls from hasked.ls]
  exact hls

theorem failc_of_not_loops {ls : LoopState} (hfailc : ls.failc.toNat < 16)
    (h : (turncRequestLoops ls scode).2 = false) (hscode : scode ≠ 0) :
    (turncRequestLoops ls scode).1.failc.toNat = ls.failc.toNat + 1 ∧ ls.failc.toNat + 1 < 16 := by
  have hsucc : (ls.failc + 1).toNat = ls.failc.toNat + 1 := by
    rw [UInt32.toNat_add]
    exact Nat.mod_eq_of_lt (by show ls.failc.toNat + 1 < 2 ^ 32; omega)
  rw [turncRequestLoops, if_neg hscode] at h ⊢
  have hlt : ¬ ls.failc + 1 ≥ failcMax := fun hge => by simp [hge] at h
  refine ⟨hsucc, ?_⟩
  rw [← hsucc]
  exact UInt32.lt_iff_toNat_lt.1 (UInt32.not_le.1 hlt)

theorem allocateRespHandler_answered (md5 : Bytes → Bytes) (env : RespEnv) {t : Client} (hi : Idle t.stun)
    (hfailc : t.ls.failc.toNat < 16) (err : Option Errno) (scode : UInt16) (reason : Option Bytes) (msg : Option Msg) :
    Answered t (allocateRespHandler md5 env t err scode reason msg) := by
  unfold allocateRespHandler
  split
  · exact report_answered (by rfl) hi ..
  simp only
  split
  · exact report_answered (by rfl) hi ..
  rename_i hloops
  have hnot : (turncRequestLoops t.ls scode).2 = false := by simpa using hloops
  split
  · split <;> exact report_answered (by rfl) hi ..
  rename_i hscode
  obtain ⟨hsucc, hlt⟩ := failc_of_not_loops hfailc hnot hscode
  split
  · split
    · exact report_answered (by rfl) hi ..
    · split
      · exact retry_answered (by rfl) hi (by exact hsucc) hlt ..
      · exact report_answered (by rfl) hi ..
  split
  · split
    · exact report_answered (by rfl) hi ..
    · exact retry_answered (by rfl) hi (by exact hsucc) hlt ..
  · exact report_answered (by rfl) hi ..

variable {rel map : Option AttrVal} {o : AllocOut}

variable {env : RespEnv}

/-- `th` is told of success only with both addresses, and they are those of the message. -/
theorem allocateRespHandler_success {md5 : Bytes → Bytes} {t : Client} (hi : Idle t.stun)
    {err : Option Errno} {reason : Option Bytes} {msg : Option Msg}
    (ho : o ∈ (allocateRespHandler md5 env t err scode reason msg).2) (hs : o.IsSuccess rel map) :
    rel.isSome ∧ map.isSome ∧ rel = msg.bind (stunMsgAttr · Attrib.xorRelayAddr.code) ∧
      map = msg.bind (stunMsgAttr · Attrib.xorMappedAddr.code) := by
  have hreport : ∀ {err' : Option Errno} {rel' map' : Option AttrVal}, o ∈ report err' scode reason rel' map' msg →
      err' = none ∧ scode = 0 ∧ rel' = rel ∧ map' = map := by
    intro err' rel' map' ho
    rw [mem_singleton.1 ho] at hs
    exact hs
  have hretry : ∀ {env t'}, Idle t'.stun → o ∈ (retry env t' scode reason msg).2 → False := by
    intro env t' hi' ho
    have hasked := allocateRequest_asked env hi'
    unfold retry at ho
    split at ho
    · rename_i err' t1 os heq
      rw [heq] at hasked
      rcases mem_append.1 ho with ho | ho
      · exact hasked.quiet rel map o ho hs
      · cases (hreport ho).1
    · rename_i t1 os heq
      rw [heq] at hasked
      exact hasked.quiet rel map o ho hs
  unfold allocateRespHandler at ho
  split at ho
  · rename_i herr
    rw [(hreport ho).1] at herr
    cases herr
  simp only at ho
  split at ho
  · rename_i hloops
    rw [(hreport ho).2.1] at hloops
    cases hloops
  split at ho
  · rename_i hscode
    split at ho
    · cases (hreport ho).1
    rename_i hboth
    obtain ⟨-, -, rfl, rfl⟩ := hreport ho
    rw [not_or] at hboth
    refine ⟨?_, ?_, rfl, rfl⟩
    · rw [Option.isSome_iff_ne_none]
      exact fun hnone => hboth.1 (by rw [hnone]; rfl)
    · rw [Option.isSome_iff_ne_none]
      exact fun hnone => hboth.2 (by rw [hnone]; rfl)
  rename_i hscode
  split at ho
  · split at ho
    · exact absurd (hreport ho).2.1 hscode
    · split at ho
      · exact (hretry (by exact hi) ho).elim
      · exact absurd (hreport ho).2.1 hscode
  split at ho
  · split at ho
    · cases (hreport ho).1
    · exact (hretry (by exact hi) ho).elim
  · exact absurd (hreport ho).2.1 hscode

/-! ## Steps -/

section
variable (md5 : Bytes → Bytes) (h : Hash)

theorem react_cons (t : Client) (ct : Ctrans) (os : List Stun.Out) :
    react md5 env t (.sent ct :: os) = ((react md5 env t os).1, .stun (.sent ct) :: (react md5 env t os).2) := rfl

theorem react_sent (env : RespEnv) (t : Client) : ∀ os : List Stun.Out, (∀ o ∈ os, ∃ ct, o = .sent ct) →
    react md5 env t os = (t, os.map .stun)
  | [], _ => rfl
  | o :: os, hos => by
    obtain ⟨ct, rfl⟩ := hos o mem_cons_self
    rw [react_cons, react_sent env t os fun o ho => hos o (mem_cons_of_mem _ ho)]
    rfl

theorem react_resp (env : RespEnv) (t : Client) (ct : Ctrans) (err : Option Errno) (scode : UInt16)
    (reason : Option Bytes) (msg : Option Msg) : ∀ os : List Stun.Out, (∀ o ∈ os, ∃ ct, o = .sent ct) →
    ∃ os' : List Stun.Out, react md5 env t (os ++ [.resp ct err scode reason msg]) =
      ((allocateRespHandler md5 env { t with ct := t.ct.filter (· ≠ ct.id) } err scode reason msg).1, os'.map .stun ++
        (allocateRespHandler md5 env { t with ct := t.ct.filter (· ≠ ct.id) } err scode reason msg).2)
  | [], _ => ⟨[.resp ct err scode reason msg], by simp only [nil_append, react, append_nil]; rfl⟩
  | o :: os, hos => by
    obtain ⟨ct', rfl⟩ := hos o mem_cons_self
    obtain ⟨os', heq⟩ := react_resp env t ct err scode reason msg os fun o ho => hos o (mem_cons_of_mem _ ho)
    refine ⟨.sent ct' :: os', ?_⟩
    rw [cons_append, react_cons, heq]
    rfl

def RunsOff (t : Client) : AllocEvent → Prop
  | .recv _ _ => False
  | .timer _ id _ => id ∈ t.stun.tmrs

instance (t : Client) (ev : AllocEvent) : Decidable (RunsOff t ev) := by
  cases ev <;> unfold RunsOff <;> infer_instance

def Client.budget (t : Client) (ct : Ctrans) : Nat :=
  (15 - t.ls.failc.toNat) * (t.stun.conf.rc.toNat + 1) + (t.stun.conf.rc.toNat - ct.txc.toNat) + 1

structure Steps (t : Client) (ct : Ctrans) (ev : AllocEvent) (r : Client × List AllocOut) : Prop where
  conf : r.1.stun.conf = t.stun.conf
  requests : (counts r.2).1 + t.ls.failc.toNat + 1 ≤ 16
  after : ((counts r.2).2 = 1 ∧ Idle r.1.stun) ∨
    ((counts r.2).2 = 0 ∧ r.1.ls.failc.toNat = t.ls.failc.toNat + (counts r.2).1 ∧
      ∃ ct', Waiting r.1.stun ct' ∧ (if RunsOff t ev then 1 else 0) + r.1.budget ct' ≤ t.budget ct)

variable {md5 h} {t : Client} {ct : Ctrans}

variable {ev : AllocEvent} {os : List Stun.Out}

theorem steps_of_answered (hfailc : t.ls.failc.toNat < 16) (hls : t'.ls = t.ls)
    (hconf : t'.stun.conf = t.stun.conf) {r : Client × List AllocOut} (ha : Answered t' r) (os : List Stun.Out) :
    Steps t ct ev (r.1, os.map .stun ++ r.2) := by
  obtain ⟨t1, os1⟩ := r
  have hcounts : counts (os.map .stun ++ os1) = counts os1 := by
    rw [counts_append, counts_stun, Nat.zero_add, Nat.zero_add]
  have hls' : t'.ls.failc.toNat = t.ls.failc.toNat := by rw [hls]
  have hreq := ha.requests
  dsimp only at hreq ⊢
  refine ⟨ha.conf.trans hconf, ?_, ?_⟩
  · rw [hcounts]
    omega
  rw [hcounts]
  refine ha.after.imp id ?_
  rintro ⟨hth, ⟨ct', hct'⟩, hone, hsucc⟩
  dsimp only at hth hone hsucc hct' ⊢
  have hrc : t1.stun.conf.rc.toNat = t.stun.conf.rc.toNat := by rw [ha.conf, hconf]
  refine ⟨hth, by omega, ct', hct', ?_⟩
  -- the request to come has its share of the budget
  have hshare : (15 - t.ls.failc.toNat) * (t.stun.conf.rc.toNat + 1) =
      (15 - t1.ls.failc.toNat) * (t.stun.conf.rc.toNat + 1) + (t.stun.conf.rc.toNat + 1) := by
    rw [show 15 - t.ls.failc.toNat = 15 - t1.ls.failc.toNat + 1 by omega, Nat.add_mul, Nat.one_mul]
  unfold Client.budget
  rw [hrc, hshare]
  split <;> omega

theorem allocStep_eq {st' : Inst} (heq : Stun.step h t.stun ev.stun = (st', os)) :
    allocStep md5 h t ev = react md5 ev.env { t with stun := st' } os := by
  unfold allocStep
  rw [heq]

/-- What a step of a client that waits can do: nothing, send the request again, or handle the
answer. -/
theorem allocStep_cases (hw : Waiting t.stun ct) (ev : AllocEvent) :
    (¬ RunsOff t ev ∧ allocStep md5 h t ev = (t, [])) ∨
      (∃ st' ct', ∃ os : List Stun.Out, allocStep md5 h t ev = ({ t with stun := st' }, os.map .stun) ∧
        Waiting st' ct' ∧ st'.conf = t.stun.conf ∧ ct'.txc.toNat = ct.txc.toNat + 1 ∧ ct.txc.toNat < t.stun.conf.rc.toNat) ∨
      ∃ st' id err scode reason msg r, ∃ os : List Stun.Out, Idle st' ∧ st'.conf = t.stun.conf ∧
        r = allocateRespHandler md5 ev.env { t with stun := st', ct := t.ct.filter (· ≠ id) } err scode reason msg ∧
        allocStep md5 h t ev = (r.1, os.map .stun ++ r.2) ∧ ∀ m ∈ msg, ∃ env mb msg0 ua, ev = .recv env mb ∧
          Stun.stunMsgDecode mb (some []) = (.ok msg0, ua) ∧ m.attrl = msg0.attrl := by
  cases ev with
  | recv env mb =>
    rcases hw.recv with heq | ⟨st', err, scode, reason, msg, heq, hidle, hconf, msg0, ua, hdec, hattrl⟩
    · have heq' : Stun.step h t.stun (AllocEvent.stun (.recv env mb)) = (t.stun, []) := heq
      exact .inl ⟨id, by rw [allocStep_eq heq']; rfl⟩
    obtain ⟨os, hreact⟩ := react_resp md5 env { t with stun := st' } ct err scode reason (some msg) []
      (forall_mem_nil _)
    refine .inr (.inr ⟨st', ct.id, err, scode, reason, some msg, _, os, hidle, hconf, rfl,
      (allocStep_eq heq).trans hreact, fun m hm => ?_⟩)
    cases hm
    exact ⟨env, mb, msg0, ua, rfl, hdec, hattrl⟩
  | timer env id send =>
    by_cases hid : id = ct.id
    · subst hid
      rcases hw.timer h send with ⟨st', ct', os, heq, hw', hconf, hos, hrest⟩ | ⟨st', ct', err, os, heq, hidle, hconf, hos⟩
      · exact .inr (.inl ⟨st', ct', os, (allocStep_eq heq).trans (react_sent md5 env _ os hos), hw', hconf, hrest⟩)
      obtain ⟨os', hreact⟩ := react_resp md5 env { t with stun := st' } ct' (some err) 0 none none os hos
      exact .inr (.inr ⟨st', ct'.id, some err, 0, none, none, _, os', hidle, hconf, rfl,
        (allocStep_eq heq).trans hreact, nofun⟩)
    have heq : Stun.step h t.stun (AllocEvent.stun (.timer env id send)) = (t.stun, []) := hw.timer_other hid
    refine .inl ⟨?_, by rw [allocStep_eq heq]; rfl⟩
    show ¬ id ∈ t.stun.tmrs
    rw [hw.tmrs]
    simpa using hid

theorem allocStep_steps (hw : Waiting t.stun ct) (hfailc : t.ls.failc.toNat < 16) (ev : AllocEvent) :
    Steps t ct ev (allocStep md5 h t ev) := by
  rcases allocStep_cases hw ev with ⟨hoff, heq⟩ | ⟨st', ct', os, heq, hw', hconf, htxc, hrc⟩ |
    ⟨st', id, err, scode, reason, msg, r, os, hidle, hconf, rfl, heq, -⟩
  · rw [heq]
    refine ⟨rfl, ?_, .inr ⟨rfl, rfl, ct, hw, ?_⟩⟩
    · show 0 + t.ls.failc.toNat + 1 ≤ 16
      omega
    · rw [if_neg hoff, Nat.zero_add]
  · rw [heq]
    refine ⟨hconf, ?_, .inr ⟨by rw [counts_stun], by rw [counts_stun]; rfl, ct', hw', ?_⟩⟩
    · rw [counts_stun]
      omega
    unfold Client.budget
    rw [show ({ t with stun := st' } : Client).stun.conf = t.stun.conf from hconf]
    dsimp only
    split <;> omega
  · rw [heq]
    exact steps_of_answered hfailc (by rfl) (by exact hconf)
      (allocateRespHandler_answered md5 ev.env (by exact hidle) (by exact hfailc) err scode reason msg) os

theorem allocStep_idle (hi : Idle t.stun) : allocStep md5 h t ev = (t, []) :=
  allocStep_eq (hi.step)

theorem not_success_stun (hs : o.IsSuccess rel map) : o ∉ os.map .stun := by
  intro ho
  obtain ⟨o', -, rfl⟩ := mem_map.1 ho
  exact hs

theorem allocStep_success (hs : o.IsSuccess rel map) (hw : Waiting t.stun ct) (ho : o ∈ (allocStep md5 h t ev).2) :
    rel.isSome ∧ map.isSome ∧
      ∃ env mb msg ua, ev = .recv env mb ∧ Stun.stunMsgDecode mb (some []) = (.ok msg, ua) ∧
        stunMsgAttr msg Attrib.xorRelayAddr.code = rel ∧ stunMsgAttr msg Attrib.xorMappedAddr.code = map := by
  rcases allocStep_cases hw ev with ⟨-, heq⟩ | ⟨st', ct', os, heq, -⟩ |
    ⟨st', id, err, scode, reason, msg, r, os, hidle, -, rfl, heq, hmsg⟩
  · rw [heq] at ho
    exact absurd ho not_mem_nil
  · rw [heq] at ho
    exact absurd ho (not_success_stun hs)
  rw [heq] at ho
  rcases mem_append.1 ho with ho | ho
  · exact absurd ho (not_success_stun hs)
  obtain ⟨hrel, hmap, rfl, rfl⟩ := allocateRespHandler_success (by exact hidle) ho hs
  cases msg with
  | none => cases hrel
  | some m =>
    obtain ⟨env, mb, msg0, ua, hev, hdec, hattrl⟩ := hmsg m rfl
    refine ⟨hrel, hmap, env, mb, msg0, ua, hev, hdec, ?_, ?_⟩ <;>
      rw [Option.bind_some, stunMsgAttr, stunMsgAttr, hattrl]

/-! ## Runs -/

variable (md5 h) in
def ticks : Client → List AllocEvent → Nat
  | _, [] => 0
  | t, ev :: evs => (if RunsOff t ev then 1 else 0) + ticks (allocStep md5 h t ev).1 evs

theorem outs_idle (hi : Idle t.stun) : ∀ evs : List AllocEvent, (outs (allocStep md5 h) t evs).flatten = []
  | [] => rfl
  | ev :: evs => by
    rw [outs_cons, allocStep_idle hi]
    exact outs_idle hi evs

theorem run_waiting : ∀ (evs : List AllocEvent) (t : Client) (ct : Ctrans), Waiting t.stun ct → t.ls.failc.toNat < 16 →
    (counts (outs (allocStep md5 h) t evs).flatten).1 + t.ls.failc.toNat + 1 ≤ 16 ∧
      ((counts (outs (allocStep md5 h) t evs).flatten).2 = 1 ∨
        (counts (outs (allocStep md5 h) t evs).flatten).2 = 0 ∧ ticks md5 h t evs < t.budget ct ∧
          (exec (allocStep md5 h) t evs).Waits)
  | [], t, ct, hw, hfailc => by
    refine ⟨?_, .inr ⟨rfl, Nat.succ_pos _, ct, hw⟩⟩
    show 0 + t.ls.failc.toNat + 1 ≤ 16
    omega
  | ev :: evs, t, ct, hw, hfailc => by
    have hstep : Steps t ct ev (allocStep md5 h t ev) := allocStep_steps hw hfailc ev
    have hreq := hstep.requests
    rw [outs_cons, flatten_cons, counts_append]
    rcases hstep.after with ⟨hth, hidle⟩ | ⟨hth, hls, ct', hw', hbudget⟩
    · rw [outs_idle hidle]
      refine ⟨?_, .inl ?_⟩
      · show _ + 0 + _ + 1 ≤ 16
        omega
      · show _ + 0 = 1
        omega
    obtain ⟨hreqs, hrest⟩ := run_waiting evs _ ct' hw' (by omega)
    refine ⟨by dsimp only; omega, ?_⟩
    rcases hrest with hone | ⟨hzero, hticks, hwaits⟩
    · exact .inl (by dsimp only; omega)
    refine .inr ⟨by dsimp only; omega, ?_, hwaits⟩
    rw [ticks]
    omega

theorem success_received (hs : o.IsSuccess rel map) :
    ∀ (evs : List AllocEvent) (t : Client) (ct : Ctrans), Waiting t.stun ct → t.ls.failc.toNat < 16 →
    o ∈ (outs (allocStep md5 h) t evs).flatten → rel.isSome ∧ map.isSome ∧
      ∃ env mb msg ua, .recv env mb ∈ evs ∧ Stun.stunMsgDecode mb (some []) = (.ok msg, ua) ∧
        stunMsgAttr msg Attrib.xorRelayAddr.code = rel ∧ stunMsgAttr msg Attrib.xorMappedAddr.code = map
  | [], _, _, _, _, ho => absurd ho not_mem_nil
  | ev :: evs, t, ct, hw, hfailc, ho => by
    rw [outs_cons, flatten_cons] at ho
    rcases mem_append.1 ho with ho | ho
    · obtain ⟨hrel, hmap, env, mb, msg, ua, rfl, hrest⟩ := allocStep_success hs hw ho
      exact ⟨hrel, hmap, env, mb, msg, ua, mem_cons_self, hrest⟩
    have hstep : Steps t ct ev (allocStep md5 h t ev) := allocStep_steps hw hfailc ev
    have hreq := hstep.requests
    rcases hstep.after with ⟨-, hidle⟩ | ⟨-, hls, ct', hw', -⟩
    · rw [outs_idle hidle] at ho
      exact absurd ho not_mem_nil
    · obtain ⟨hrel, hmap, env, mb, msg, ua, hmem, hrest⟩ := success_received hs evs _ ct' hw' (by omega) ho
      exact ⟨hrel, hmap, env, mb, msg, ua, mem_cons_of_mem _ hmem, hrest⟩

/-- Whatever the servers answer, and whatever is received and runs off: a client that `turnc_alloc`
made makes at most sixteen Allocate requests; `th` is called once at most, and as long as it has not
been called there is a transaction whose timer is running, which can run off fewer than `16 * (rc +
1)` times; and `th` is told of success only if a response with both addresses was received. -/
theorem allocation_ends (software : Bytes) (conf : Stun.Conf) (proto : Proto) (srv : Sa) (username password : Bytes)
    (lifetime : UInt32) (setup : Option Errno) (env : ReqEnv) (t : Client) (os : List AllocOut)
    (halloc : turncAlloc software conf proto srv username password lifetime setup env = .ok (t, os))
    (evs : List AllocEvent) :
    (counts (os ++ (outs (allocStep md5 h) t evs).flatten)).1 ≤ 16 ∧
      ((counts (os ++ (outs (allocStep md5 h) t evs).flatten)).2 = 1 ∨
        (counts (os ++ (outs (allocStep md5 h) t evs).flatten)).2 = 0 ∧
          (exec (allocStep md5 h) t evs).Waits ∧ ticks md5 h t evs < 16 * (conf.rc.toNat + 1)) ∧
      ∀ o ∈ os ++ (outs (allocStep md5 h) t evs).flatten, ∀ rel map, o.IsSuccess rel map →
        rel.isSome ∧ map.isSome ∧
          ∃ env mb msg ua, .recv env mb ∈ evs ∧ Stun.stunMsgDecode mb (some []) = (.ok msg, ua) ∧
            stunMsgAttr msg Attrib.xorRelayAddr.code = rel ∧ stunMsgAttr msg Attrib.xorMappedAddr.code = map := by
  unfold turncAlloc at halloc
  split at halloc
  · cases halloc
  have hasked := allocateRequest_asked env
    (t := ⟨Stun.stunAlloc conf, {}, none, { username, password }, proto, srv, srv, lifetime, false, software⟩)
    ⟨rfl, rfl, rfl⟩
  split at halloc
  · cases halloc
  rename_i heq
  cases halloc
  rw [heq] at hasked
  obtain ⟨ct, hw⟩ : t.Waits := hasked.waits rfl
  have hls : t.ls.failc.toNat = 0 := by rw [show t.ls = {} from hasked.ls]; rfl
  have hcounts : counts os = (1, 0) := hasked.counts
  have hbudget : t.budget ct ≤ 16 * (conf.rc.toNat + 1) := by
    unfold Client.budget
    rw [hls, show t.stun.conf = conf from hasked.conf]
    omega
  obtain ⟨hreqs, hths⟩ := @run_waiting md5 h evs t ct hw (by omega)
  rw [counts_append, hcounts]
  refine ⟨by dsimp only; omega, ?_, ?_⟩
  · refine hths.imp (fun hone => by dsimp only; omega) ?_
    rintro ⟨hzero, hticks, hwaits⟩
    exact ⟨by dsimp only; omega, hwaits, by omega⟩
  intro o ho rel map hs
  rcases mem_append.1 ho with ho | ho
  · exact absurd hs (hasked.quiet rel map o ho)
  · exact success_received hs evs t ct hw (by omega) ho

end
def calmReq : ReqEnv := ⟨true, none, List.replicate 12 7, true, true, none⟩

def newClient : Except Errno (Client × List AllocOut) :=
  turncAlloc [] ⟨500, 1, 16⟩ .udp ⟨.inet 0xcb007101, 3478⟩ (ascii "a") (ascii "b") 600 none calmReq

/-- There is no answer: `th` is called when the timer has run off. -/
theorem allocation_ends_silent : ∃ t os, newClient = .ok (t, os) ∧
    (outs (allocStep id Stun.noHash) t [.timer ⟨none, calmReq⟩ 0 none]).flatten.countP AllocOut.isTh = 1 ∧
    (counts (os ++ (outs (allocStep id Stun.noHash) t [.timer ⟨none, calmReq⟩ 0 none]).flatten)).1 ≤ 16 :=
  ⟨_, _, rfl, by decide +kernel, (allocation_ends [] ⟨500, 1, 16⟩ .udp ⟨.inet 0xcb007101, 3478⟩ (ascii "a") (ascii "b") 600
    none calmReq _ _ rfl [.timer ⟨none, calmReq⟩ 0 none]).1⟩

end BareRTC.Turn
