import BareRTC.Stun.Ctrans

/-!
# Client transactions complete once

`Inst.Ok`: what the list, the timers and the connections of an instance refer to is on the heap.
From it every step is `Good`: nothing that was freed is read, and the step takes what it does from a
budget. A transaction that is there, or not started yet, may call its handler once (`respBudget`);
over UDP it may be sent as often as its counter has left (`sendBudget`). Runs follow by the budget
rule.
-/

namespace BareRTC.Stun

open List

variable {h : Hash} {st st' : Inst} {ct : Ctrans} {id j : Nat} {os : List Out}

/-! ## The heap -/

namespace Inst

theorem find_id (hct : st.find id = some ct) : ct.id = id := by
  have := find?_some hct
  simpa using this

theorem mem_of_find (hct : st.find id = some ct) : ct ∈ st.heap := mem_of_find?_eq_some hct

theorem find_deref : (st.deref id).find j = if j = id then none else st.find j := by
  unfold find deref
  simp only [find?_filter]
  split
  · rename_i hj
    rw [find?_eq_none]
    intro c _
    by_cases hc : c.id = id
    · simp [hc]
    · simp [hj, hc]
  rename_i hj
  refine find?_congr fun c _ => ?_
  by_cases hc : c.id = j
  · simp [hc, hj]
  · simp [hc]

theorem find_put :
    (st.put ct).find j = if j = ct.id then (st.find j).map fun _ => ct else st.find j := by
  unfold find put
  simp only
  induction st.heap with
  | nil => simp
  | cons c l ih =>
    rw [map_cons, find?_cons, find?_cons, ih]
    by_cases hc : c.id = ct.id
    · by_cases hj : j = ct.id
      · simp [hc, hj]
      · simp [hc, hj, Ne.symm hj]
    by_cases hcj : c.id = j
    · subst hcj
      simp [hc]
    · simp [hc, hcj]

structure Ok (st : Inst) : Prop where
  ctl : ∀ id ∈ st.ctl, (st.find id).isSome
  tmrs : ∀ id ∈ st.tmrs, (st.find id).isSome
  conns : ∀ id ∈ st.conns, ∃ ct, st.find id = some ct ∧ ct.proto = .tcp
  fresh : ∀ ct ∈ st.heap, ct.id < st.next

theorem Ok.lt_next (hok : st.Ok) (hct : st.find id = some ct) : id < st.next := by
  have := hok.fresh ct (mem_of_find hct)
  rwa [find_id hct] at this

theorem Ok.deref (hok : st.Ok) (id : Nat) : (st.deref id).Ok := by
  have hkeep : ∀ {l : List Nat} {j}, j ∈ l.filter (· ≠ id) → j ∈ l ∧ (st.deref id).find j = st.find j := by
    intro l j hj
    obtain ⟨hj, hne⟩ := mem_filter.1 hj
    exact ⟨hj, by rw [find_deref, if_neg (by simpa using hne)]⟩
  refine ⟨fun j hj => ?_, fun j hj => ?_, fun j hj => ?_, fun c hc => hok.fresh c (mem_of_mem_filter hc)⟩
  · exact (hkeep hj).2 ▸ hok.ctl j (hkeep hj).1
  · exact (hkeep hj).2 ▸ hok.tmrs j (hkeep hj).1
  · exact (hkeep hj).2 ▸ hok.conns j (hkeep hj).1

theorem Ok.put (hok : st.Ok) {ct0 : Ctrans} (hfind : st.find ct.id = some ct0) (hproto : ct.proto = ct0.proto) :
    (st.put ct).Ok := by
  have hsome : ∀ j, (st.find j).isSome → ((st.put ct).find j).isSome := by
    intro j hj
    rw [find_put]
    split
    · rwa [Option.isSome_map]
    · exact hj
  refine ⟨fun j hj => hsome j (hok.ctl j hj), fun j hj => hsome j (hok.tmrs j hj), fun j hj => ?_, fun c hc => ?_⟩
  · obtain ⟨c, hc, htcp⟩ := hok.conns j hj
    by_cases hj' : j = ct.id
    · subst hj'
      rw [hfind] at hc
      cases hc
      exact ⟨ct, by rw [find_put, if_pos rfl, hfind]; rfl, by rw [hproto, htcp]⟩
    · exact ⟨c, by rw [find_put, if_neg hj', hc], htcp⟩
  · obtain ⟨c', hc', rfl⟩ := mem_map.1 hc
    show (if c'.id = ct.id then ct else c').id < st.next
    split
    · exact hok.lt_next hfind
    · exact hok.fresh c' hc'

theorem Ok.tmrStart (hok : st.Ok) (hfind : (st.find id).isSome) : (st.tmrStart id).Ok := by
  refine ⟨hok.ctl, fun j hj => ?_, hok.conns, hok.fresh⟩
  rcases mem_append.1 hj with hj | hj
  · exact hok.tmrs j (mem_of_mem_filter hj)
  · rw [mem_singleton.1 hj]
    exact hfind

theorem Ok.tmrCancel (hok : st.Ok) : (st.tmrCancel id).Ok :=
  ⟨hok.ctl, fun j hj => hok.tmrs j (mem_of_mem_filter hj), hok.conns, hok.fresh⟩

theorem deref_tmrCancel (st : Inst) (id : Nat) : (st.tmrCancel id).deref id = st.deref id := by
  simp [deref, tmrCancel, unlink, filter_filter]

theorem deref_unlink : (st.unlink id).deref id = st.deref id := by
  simp [deref, tmrCancel, unlink, filter_filter]

theorem deref_put : (st.put ct).deref ct.id = st.deref ct.id := by
  unfold deref put unlink tmrCancel
  simp only [Inst.mk.injEq, true_and, and_true]
  induction st.heap with
  | nil => rfl
  | cons c l ih =>
    rw [map_cons, filter_cons, filter_cons, ih]
    by_cases hc : c.id = ct.id
    · simp [hc]
    · simp [hc]

end Inst

theorem stunAlloc_ok (conf : Conf) : (stunAlloc conf).Ok := ⟨nofun, nofun, nofun, nofun⟩

open Inst

/-! ## Good steps -/

def isResp (id : Nat) : Out → Bool
  | .resp ct _ _ _ _ => ct.id = id
  | _ => false

def isUdpSent (id : Nat) : Out → Bool
  | .sent ct => ct.id = id ∧ ct.proto = .udp
  | _ => false

def respBudget (st : Inst) (id : Nat) : Nat := if st.next ≤ id ∨ (st.find id).isSome then 1 else 0

def sendBudget (st : Inst) (id : Nat) : Nat :=
  if st.next ≤ id then max st.conf.rc.toNat 1
  else
    match st.find id with
    | some ct => if ct.proto = .udp then st.conf.rc.toNat - ct.txc.toNat else 0
    | none => 0

def Checked (h : Hash) (ct : Ctrans) (scode : UInt16) (msg : Msg) : Prop :=
  msg.hdr.tid = ct.tid ∧ stunMsgMethod msg = ct.met ∧
    (scode = 401 ∨ scode = 438 ∨ ct.key = none ∨ ∃ key msg₀, ct.key = some key ∧ stunMsgChkMi h key msg₀ = (none, msg))

structure Good (h : Hash) (st st' : Inst) (os : List Out) : Prop where
  ok : st'.Ok
  conf : st'.conf = st.conf
  faultless : .fault ∉ os
  resp : ∀ id, os.countP (isResp id) + respBudget st' id ≤ respBudget st id
  sent : ∀ id, os.countP (isUdpSent id) + sendBudget st' id ≤ sendBudget st id
  checked : ∀ ct err scode reason msg, .resp ct err scode reason (some msg) ∈ os → Checked h ct scode msg

theorem Good.same (hok : st'.Ok) (hfind : ∀ j, st'.find j = st.find j) (hnext : st'.next = st.next)
    (hconf : st'.conf = st.conf) : Good h st st' [] := by
  refine ⟨hok, hconf, not_mem_nil, fun j => ?_, fun j => ?_, fun _ _ _ _ _ hm => absurd hm not_mem_nil⟩
  · simp only [respBudget, hfind, hnext, countP_nil, Nat.zero_add, le_refl]
  · simp only [sendBudget, hfind, hnext, hconf, countP_nil, Nat.zero_add, le_refl]

theorem Good.refl (hok : st.Ok) : Good h st st [] := Good.same hok (fun _ => rfl) rfl rfl

theorem Good.trans {st1 : Inst} {os1 : List Out} (h1 : Good h st st1 os1) (h2 : Good h st1 st' os) :
    Good h st st' (os1 ++ os) := by
  refine ⟨h2.ok, h2.conf.trans h1.conf, fun hf => ?_, fun j => ?_, fun j => ?_, fun c err scode reason m hm => ?_⟩
  · rcases mem_append.1 hf with hf | hf
    · exact h1.faultless hf
    · exact h2.faultless hf
  · have := h1.resp j
    have := h2.resp j
    rw [countP_append]
    omega
  · have := h1.sent j
    have := h2.sent j
    rw [countP_append]
    omega
  · rcases mem_append.1 hm with hm | hm
    · exact h1.checked c err scode reason m hm
    · exact h2.checked c err scode reason m hm

theorem budget_deref (j : Nat) (hlt : id < st.next) :
    respBudget (st.deref id) j = (if j = id then 0 else respBudget st j) ∧
      sendBudget (st.deref id) j = if j = id then 0 else sendBudget st j := by
  unfold respBudget sendBudget
  rw [find_deref]
  by_cases hj : j = id
  · subst hj
    simp [show ¬ (st.deref j).next ≤ j from Nat.not_le.2 hlt]
  · simp only [if_neg hj]
    exact ⟨rfl, rfl⟩

theorem Good.deref (hok : st.Ok) (hct : st.find id = some ct) (hos : ∀ o ∈ os, ∃ err scode reason msg,
    o = .resp ct err scode reason msg ∧ ∀ m, msg = some m → Checked h ct scode m) (hlen : os.length ≤ 1) :
    Good h st (st.deref id) os := by
  have hid := find_id hct
  have hbudget := fun j => budget_deref j (hok.lt_next hct)
  refine ⟨hok.deref id, rfl, fun hf => ?_, fun j => ?_, fun j => ?_, fun c err scode reason m hm => ?_⟩
  · obtain ⟨_, _, _, _, heq, -⟩ := hos _ hf
    cases heq
  · rw [(hbudget j).1]
    split
    · rename_i hj
      have hle := countP_le_length (p := isResp j) (l := os)
      have hone : respBudget st j = 1 := by
        unfold respBudget
        rw [hj, hct]
        exact if_pos (Or.inr rfl)
      omega
    rename_i hj
    rw [countP_eq_zero.2, Nat.zero_add]
    intro o ho
    obtain ⟨_, _, _, _, rfl, -⟩ := hos o ho
    simp only [isResp, decide_eq_true_eq]
    omega
  · rw [countP_eq_zero.2, Nat.zero_add, (hbudget j).2]
    · split
      · exact Nat.zero_le _
      · exact le_refl _
    · intro o ho
      obtain ⟨_, _, _, _, rfl, -⟩ := hos o ho
      simp [isUdpSent]
  · obtain ⟨_, _, _, _, heq, hm'⟩ := hos _ hm
    cases heq
    exact hm' m rfl

variable {err : Option Errno}

theorem completed_eq (ct : Ctrans) (scode : UInt16) (reason : Option Bytes)
    (msg : Option Msg) : completed st ct err scode reason msg =
      (st.deref ct.id, if ct.resph then [.resp ct err scode reason msg] else []) := by
  rw [completed, deref_tmrCancel, deref_unlink]

theorem Good.completed (hok : st.Ok) (hct : st.find id = some ct) (err : Option Errno) (scode : UInt16)
    (reason : Option Bytes) (msg : Option Msg) (hmsg : ∀ m, msg = some m → Checked h ct scode m) :
    Good h st (completed st ct err scode reason msg).1 (completed st ct err scode reason msg).2 := by
  rw [completed_eq, find_id hct]
  refine Good.deref hok hct ?_ ?_
  · intro o ho
    split at ho
    · exact ⟨err, scode, reason, msg, mem_singleton.1 ho, hmsg⟩
    · cases ho
  · show (if ct.resph then _ else _ : List Out).length ≤ 1
    split <;> simp

theorem Good.sent_other (hok : st.Ok) (hproto : ct.proto ≠ .udp) : Good h st st [.sent ct] := by
  refine ⟨hok, rfl, by simp, fun j => ?_, fun j => ?_, by simp⟩
  · rw [countP_eq_zero.2 (by simp [isResp]), Nat.zero_add]
  · rw [countP_eq_zero.2 (by simp [isUdpSent, hproto]), Nat.zero_add]

theorem Good.resend {ct1 ct2 : Ctrans} (hok : st.Ok) (hct : st.find id = some ct) (hid1 : ct1.id = id)
    (hproto1 : ct1.proto = ct.proto) (hid2 : ct2.id = id) (hproto2 : ct2.proto = ct.proto)
    (htxc : ct1.txc.toNat = ct.txc.toNat + 1) (hlt : ct.txc.toNat < st.conf.rc.toNat) :
    Good h st (st.put ct1) [.sent ct2] := by
  have hnext := hok.lt_next hct
  have hfind : ∀ j, (st.put ct1).find j = if j = id then some ct1 else st.find j := by
    intro j
    rw [find_put, hid1]
    split
    · rename_i hj
      rw [hj, hct]
      rfl
    · rfl
  refine ⟨hok.put (by rw [hid1]; exact hct) hproto1, rfl, by simp, fun j => ?_, fun j => ?_, by simp⟩
  · rw [countP_eq_zero.2 (by simp [isResp]), Nat.zero_add]
    unfold respBudget
    rw [hfind]
    by_cases hj : j = id
    · rw [hj, hct]
      simp
    · rw [if_neg hj]
      rfl
  unfold sendBudget
  rw [hfind]
  by_cases hj : j = id
  · subst hj
    have hnot : ¬ (st.put ct1).next ≤ j := Nat.not_le.2 hnext
    rw [if_neg hnot, if_neg (Nat.not_le.2 hnext), if_pos rfl, hct]
    by_cases hudp : ct.proto = .udp
    · simp only [hproto1, hproto2, hudp, if_true, isUdpSent, hid2, decide_true, countP_singleton, and_self, htxc]
      show 1 + (st.conf.rc.toNat - _) ≤ _
      omega
    · simp [hproto1, hproto2, hudp, isUdpSent]
  · rw [if_neg hj, countP_eq_zero.2 (by simp [isUdpSent, hid2, Ne.symm hj]), Nat.zero_add]
    exact le_refl _

/-! ## The handlers -/

theorem txc_succ {txc rc : UInt32} (hlt : ¬ txc ≥ rc) : (txc + 1).toNat = txc.toNat + 1 ∧ txc.toNat < rc.toNat := by
  have hlt : txc.toNat < rc.toNat := by
    have := UInt32.not_le.1 hlt
    exact UInt32.lt_iff_toNat_lt.1 this
  refine ⟨?_, hlt⟩
  rw [UInt32.toNat_add]
  exact Nat.mod_eq_of_lt (by have := rc.toNat_lt; show txc.toNat + 1 < 2 ^ 32; omega)

variable {send : Option Errno}

theorem timeoutHandler_good (hok : st.Ok) (hlive : (st.find id).isSome) :
    Good h st (timeoutHandler st id send).1 (timeoutHandler st id send).2 := by
  obtain ⟨ct, hct⟩ := Option.isSome_iff_exists.1 hlive
  have hid := find_id hct
  have hcancel : Good h st (st.tmrCancel id) [] := Good.same (hok.tmrCancel) (fun _ => rfl) rfl rfl
  have hok' := hcancel.ok
  have hct' : (st.tmrCancel id).find id = some ct := hct
  show Good h st _ ([] ++ (timeoutHandler st id send).2)
  refine hcancel.trans ?_
  unfold timeoutHandler
  simp only [hct']
  split
  · exact Good.completed hok' hct' _ _ _ _ nofun
  case isFalse hlt =>
    obtain ⟨htxc, hlt⟩ := txc_succ hlt
    cases send with
    | some err =>
      have hsent : Good h (st.tmrCancel id) ((st.tmrCancel id).put { ct with txc := ct.txc + 1 })
          [.sent { ct with txc := ct.txc + 1 }] := Good.resend hok' hct' hid rfl hid rfl htxc hlt
      have hfind : ((st.tmrCancel id).put { ct with txc := ct.txc + 1 }).find id =
          some { ct with txc := ct.txc + 1 } := by
        rw [find_put, if_pos hid.symm, hct']
        rfl
      have hdone := Good.completed (h := h) hsent.ok hfind (some err) 0 none none nofun
      dsimp only
      rw [completed_eq] at hdone ⊢
      rw [deref_put] at hdone
      exact hsent.trans hdone
    | none =>
      have hsent (ival : UInt32) : Good h (st.tmrCancel id)
          ((st.tmrCancel id).put { ct with txc := ct.txc + 1, ival }) [.sent { ct with txc := ct.txc + 1 }] :=
        Good.resend hok' hct' hid rfl hid rfl htxc hlt
      have hstart (ival : UInt32) : (((st.tmrCancel id).put { ct with txc := ct.txc + 1, ival }).tmrStart id).Ok := by
        refine (hsent ival).ok.tmrStart ?_
        rw [find_put, if_pos hid.symm, hct']
        rfl
      show Good h _ _ ([_] ++ [])
      exact (hsent _).trans (Good.same (hstart _) (fun _ => rfl) rfl rfl)

theorem tcpEstabHandler_good (hok : st.Ok) (hconn : id ∈ st.conns) :
    Good h st (tcpEstabHandler st id send).1 (tcpEstabHandler st id send).2 := by
  obtain ⟨ct, hct, htcp⟩ := hok.conns id hconn
  have hsent : Good h st st [.sent ct] := Good.sent_other hok (by simp [htcp])
  unfold tcpEstabHandler
  simp only [hct]
  cases send with
  | none => exact hsent
  | some err => exact hsent.trans (Good.completed hok hct _ _ _ _ nofun)

theorem tcpCloseHandler_good (hok : st.Ok) (hconn : id ∈ st.conns) :
    Good h st (tcpCloseHandler st id err).1 (tcpCloseHandler st id err).2 := by
  obtain ⟨ct, hct, -⟩ := hok.conns id hconn
  unfold tcpCloseHandler
  simp only [hct]
  exact Good.completed hok hct _ _ _ _ nofun

/-! ## Responses -/

theorem applyMatch_spec {msg : Msg} : ∀ ids : List Nat, (∀ id ∈ ids, (st.find id).isSome) →
    ∃ r, applyMatch st msg ids = some r ∧ ∀ ct, r = some ct → matchHandler msg ct ∧ ∃ id, st.find id = some ct
  | [], _ => ⟨none, rfl, nofun⟩
  | id :: ids, hlive => by
    obtain ⟨ct, hct⟩ := Option.isSome_iff_exists.1 (hlive id mem_cons_self)
    unfold applyMatch
    simp only [hct]
    split
    case isTrue hm =>
      refine ⟨some ct, rfl, ?_⟩
      rintro _ ⟨⟩
      exact ⟨hm, id, hct⟩
    case isFalse => exact applyMatch_spec ids fun j hj => hlive j (mem_cons_of_mem _ hj)

theorem stunMsgChkMi_same (key : Bytes) (msg : Msg) :
    (stunMsgChkMi h key msg).2.hdr.tid = msg.hdr.tid ∧ (stunMsgChkMi h key msg).2.hdr.type = msg.hdr.type ∧
      (stunMsgChkMi h key msg).2.attrl = msg.attrl := by
  unfold stunMsgChkMi
  split
  · exact ⟨rfl, rfl, rfl⟩
  dsimp only
  split <;> exact ⟨rfl, rfl, rfl⟩

theorem checkResponse_checked {code : UInt16} {msg msg' : Msg} (hm : matchHandler msg ct)
    (hc : checkResponse h ct code msg = (none, msg')) : Checked h ct code msg' := by
  simp only [matchHandler, decide_eq_true_eq] at hm
  obtain ⟨hmet, htid⟩ := hm
  unfold checkResponse at hc
  split at hc
  case isTrue hcode =>
    cases hc
    refine ⟨htid.symm, hmet.symm, ?_⟩
    rcases hcode with hcode | hcode
    · exact Or.inl hcode
    · exact Or.inr (Or.inl hcode)
  case isFalse =>
    split at hc
    case h_1 hkey =>
      cases hc
      exact ⟨htid.symm, hmet.symm, Or.inr (Or.inr (Or.inl hkey))⟩
    case h_2 key hkey =>
      obtain ⟨htid', htype', -⟩ := stunMsgChkMi_same (h := h) key msg
      rw [hc] at htid' htype'
      refine ⟨?_, ?_, Or.inr (Or.inr (Or.inr ⟨key, msg, hkey, hc⟩))⟩
      · rw [htid', htid]
      · rw [stunMsgMethod, htype', hmet]
        rfl

theorem ctransMatched_good (hok : st.Ok) (msg : Msg) (ua : Bool) (code : UInt16) (reason : Bytes)
    (herr : Option Errno) :
    Good h st (ctransMatched h st msg ua code reason herr).2.1 (ctransMatched h st msg ua code reason herr).2.2 := by
  obtain ⟨r, hr, hmatch⟩ := applyMatch_spec st.ctl hok.ctl
  unfold ctransMatched
  rw [hr]
  cases r with
  | none => exact Good.refl hok
  | some ct =>
    obtain ⟨hm, id, hct⟩ := hmatch ct rfl
    cases hcheck : checkResponse h ct code msg with
    | mk err msg' =>
      cases err with
      | some err =>
        simp only [hcheck]
        exact Good.refl hok
      | none =>
        simp only [hcheck]
        refine Good.completed hok hct _ _ _ _ ?_
        rintro _ ⟨⟩
        exact checkResponse_checked hm hcheck

/-- Something is received: nothing happens, or a response is looked up. -/
theorem stunRecv_cases (h : Hash) (st : Inst) (mb : Mbuf) : (stunRecv h st mb).2 = (st, []) ∨
    ∃ msg ua code reason herr, stunMsgDecode mb (some []) = (.ok msg, ua) ∧
      (stunRecv h st mb).2 = (ctransMatched h st msg (ua.any (· ≠ [])) code reason herr).2 := by
  unfold stunRecv
  split
  · exact .inl rfl
  rename_i msg ua hdec
  unfold stunCtransRecv
  split
  · split <;> exact .inr ⟨msg, ua, _, _, _, hdec, rfl⟩
  split
  · exact .inr ⟨msg, ua, _, _, _, hdec, rfl⟩
  · exact .inl rfl

theorem stunRecv_good (hok : st.Ok) {mb : Mbuf} : Good h st (stunRecv h st mb).2.1 (stunRecv h st mb).2.2 := by
  rcases stunRecv_cases h st mb with heq | ⟨msg, ua, code, reason, herr, -, heq⟩
  · rw [heq]
    exact Good.refl hok
  · rw [heq]
    exact ctransMatched_good hok ..

/-! ## Requests -/

/-- The transaction with the next number is started. If it is there afterwards, it has been sent
once at most, and its counter says so. -/
theorem Good.start (hok : st'.Ok) (hfind : ∀ j, j ≠ st.next → st'.find j = st.find j) (hnext : st'.next = st.next + 1)
    (hconf : st'.conf = st.conf) (htxc : ∀ c, st'.find st.next = some c → c.proto = .udp → c.txc.toNat = 1)
    (hos : os = [] ∨ ∃ c, os = [.sent c] ∧ c.id = st.next) : Good h st st' os := by
  refine ⟨hok, hconf, ?_, fun j => ?_, fun j => ?_, ?_⟩
  · rcases hos with rfl | ⟨c, rfl, -⟩ <;> simp
  · have hzero : os.countP (isResp j) = 0 := by rcases hos with rfl | ⟨c, rfl, -⟩ <;> simp [isResp]
    rw [hzero, Nat.zero_add, respBudget, respBudget]
    by_cases hj : j = st.next
    · rw [if_pos (c := st.next ≤ j ∨ _) (Or.inl (by omega))]
      split <;> omega
    rw [hfind j hj, hnext]
    split
    · rename_i hc
      rw [if_pos (hc.imp_left (by omega))]
    · exact Nat.zero_le _
  · by_cases hj : j = st.next
    · have hle : os.countP (isUdpSent j) ≤ 1 := by
        rcases hos with rfl | ⟨c, rfl, -⟩
        · simp
        · exact countP_le_length
      rw [sendBudget, sendBudget, hnext, hconf, if_neg (by omega), if_pos (by omega), hj]
      rw [hj] at hle
      cases hc : st'.find st.next with
      | none =>
        dsimp only
        omega
      | some c =>
        dsimp only
        split
        · have := htxc c hc ‹_›
          omega
        · omega
    · have hzero : os.countP (isUdpSent j) = 0 := by
        rcases hos with rfl | ⟨c, rfl, hc⟩
        · rfl
        · simp [isUdpSent, hc, Ne.symm hj]
      rw [hzero, Nat.zero_add, sendBudget, sendBudget, hnext, hconf, hfind j hj]
      by_cases hle : st.next ≤ j
      · rw [if_pos (by omega), if_pos hle]
      · rw [if_neg (by omega), if_neg hle]
  · rcases hos with rfl | ⟨c, rfl, -⟩ <;> simp

namespace Inst

def add (st : Inst) (ct : Ctrans) : Inst :=
  { st with heap := st.heap ++ [ct], ctl := st.ctl ++ [ct.id], next := st.next + 1 }

theorem find_add (hok : st.Ok) (hid : ct.id = st.next) (j : Nat) :
    (st.add ct).find j = if j = ct.id then some ct else st.find j := by
  have hnew : st.find ct.id = none := by
    refine find?_eq_none.2 fun c hc => ?_
    have := hok.fresh c hc
    simp only [decide_eq_true_eq]
    omega
  show (st.heap ++ [ct]).find? _ = _
  rw [find?_append, ← Inst.find]
  by_cases hj : j = ct.id
  · subst hj
    rw [hnew, if_pos rfl]
    simp
  · rw [if_neg hj]
    simp [Ne.symm hj]

theorem Ok.add (hok : st.Ok) (hid : ct.id = st.next) : (st.add ct).Ok := by
  have hfind := find_add hok hid
  have hkeep : ∀ {j c}, st.find j = some c → (st.add ct).find j = some c := by
    intro j c hc
    have := hok.lt_next hc
    rw [hfind, if_neg (by omega), hc]
  have hlive : ∀ j, (st.find j).isSome → ((st.add ct).find j).isSome := by
    intro j hj
    obtain ⟨c, hc⟩ := Option.isSome_iff_exists.1 hj
    rw [hkeep hc]
    rfl
  refine ⟨fun j hj => ?_, fun j hj => hlive j (hok.tmrs j hj), fun j hj => ?_, fun c hc => ?_⟩
  · rcases mem_append.1 hj with hj | hj
    · exact hlive j (hok.ctl j hj)
    · rw [hfind, if_pos (mem_singleton.1 hj)]
      rfl
  · obtain ⟨c, hc, htcp⟩ := hok.conns j hj
    exact ⟨c, hkeep hc, htcp⟩
  show c.id < st.next + 1
  rcases mem_append.1 hc with hc | hc
  · have := hok.fresh c hc
    omega
  · rw [mem_singleton.1 hc]
    omega

theorem Ok.addConn (hok : st.Ok) (hct : st.find id = some ct) (htcp : ct.proto = .tcp) :
    ({ st with conns := st.conns ++ [id] } : Inst).Ok := by
  refine ⟨hok.ctl, hok.tmrs, fun j hj => ?_, hok.fresh⟩
  rcases mem_append.1 hj with hj | hj
  · exact hok.conns j hj
  · rw [mem_singleton.1 hj]
    exact ⟨ct, hct, htcp⟩

end Inst

structure Started (st : Inst) (id : Nat) (r : Option Errno × Inst × List Out) : Prop where
  ok : r.2.1.Ok
  find : ∀ j, j ≠ id → r.2.1.find j = st.find j
  next : r.2.1.next = st.next
  conf : r.2.1.conf = st.conf
  os : r.2.2 = [] ∨ ∃ c, r.2.2 = [.sent c] ∧ c.id = id
  txc : r.1 = none → ∀ c, r.2.1.find id = some c → c.proto = .udp → c.txc.toNat = 1

theorem Started.refused (hok : st.Ok) (err : Errno) : Started st id (some err, st, []) :=
  ⟨hok, fun _ _ => rfl, rfl, rfl, Or.inl rfl, nofun⟩

theorem find_started {c : Ctrans} (hct : st.find c.id = some ct) : ((st.put c).tmrStart c.id).find c.id = some c := by
  show (st.put c).find c.id = some c
  rw [find_put, if_pos rfl, hct]
  rfl

theorem Started.running (hok : st.Ok) (c : Ctrans) (hct : st.find c.id = some ct) (hproto : c.proto = ct.proto)
    (htxc : c.proto = .udp → c.txc.toNat = 1) (err : Option Errno) (hos : os = [] ∨ os = [.sent c]) :
    Started st c.id (err, (st.put c).tmrStart c.id, os) := by
  have hself := find_started hct
  refine ⟨(hok.put hct hproto).tmrStart ?_, fun j hj => ?_, rfl, rfl, hos.imp_right fun h => ⟨c, h, rfl⟩,
    fun _ c' hc => ?_⟩
  · exact Option.isSome_iff_exists.2 ⟨c, hself⟩
  · show (st.put c).find j = st.find j
    rw [find_put, if_neg hj]
  dsimp only at hc
  rw [hself] at hc
  cases hc
  exact htxc

variable {r : Request}

theorem startTransport_started (hok : st.Ok) (hct : st.find ct.id = some ct)
    (hproto : ct.proto = r.proto) : Started st ct.id (startTransport r st ct) := by
  unfold startTransport
  cases hp : r.proto with
  | udp =>
    dsimp only
    split
    · exact Started.refused hok _
    split
    · exact Started.running hok { ct with ival := st.conf.rto, txc := 1 } hct rfl (fun _ => rfl) _ (Or.inl rfl)
    · exact Started.running hok { ct with ival := st.conf.rto, txc := 1 } hct rfl (fun _ => rfl) _ (Or.inr rfl)
  | tcp =>
    have hne : ct.proto ≠ .udp := by
      rw [hproto, hp]
      nofun
    have hrun (err : Option Errno) (os : List Out) (hos : os = [] ∨ os = [.sent { ct with txc := st.conf.rc }]) :
        Started st ct.id (err, (st.put { ct with txc := st.conf.rc }).tmrStart ct.id, os) :=
      Started.running hok { ct with txc := st.conf.rc } hct rfl (fun hudp => absurd hudp hne) err hos
    dsimp only
    split
    · exact hrun _ _ (Or.inr rfl)
    split
    · exact hrun _ _ (Or.inl rfl)
    have hs := hrun none [] (Or.inl rfl)
    have hself : ((st.put { ct with txc := st.conf.rc }).tmrStart ct.id).find ct.id =
        some { ct with txc := st.conf.rc } := find_started hct
    exact ⟨hs.ok.addConn hself (hproto.trans hp), hs.find, hs.next, hs.conf, hs.os, hs.txc⟩
  | dtls =>
    dsimp only
    split
    · exact Started.refused hok _
    exact Started.running hok { ct with ival := st.conf.rto, txc := 1 } hct rfl (fun _ => rfl) _ (Or.inr rfl)
  | other => exact Started.refused hok _

theorem stunCtransRequest_good (hok : st.Ok) :
    Good h st (stunCtransRequest st r).2.1 (stunCtransRequest st r).2.2 := by
  unfold stunCtransRequest
  split
  · exact Good.refl hok
  generalize hct : (⟨st.next, r.tid, r.key, r.proto, r.sock, 0, 0, r.met, r.resph⟩ : Ctrans) = ct
  have hid : ct.id = st.next := by rw [← hct]
  have hproto : ct.proto = r.proto := by rw [← hct]
  have hadd : (st.add ct).Ok := hok.add hid
  have hself : (st.add ct).find ct.id = some ct := by rw [find_add hok hid, if_pos rfl]
  have hother : ∀ j, j ≠ st.next → (st.add ct).find j = st.find j := by
    intro j hj
    rw [find_add hok hid, if_neg (by omega)]
  -- a transaction that is destroyed again at once
  have hfail {st1 : Inst} {os : List Out} {err : Option Errno} (hs : Started (st.add ct) ct.id (err, st1, os)) :
      Good h st (st1.deref ct.id) os := by
    refine Good.start (hs.ok.deref _) (fun j hj => ?_) hs.next hs.conf (fun c hc => ?_) ?_
    · rw [find_deref, if_neg (by omega), ← hother j hj]
      exact hs.find j (by omega)
    · rw [find_deref, if_pos hid.symm] at hc
      cases hc
    · rw [← hid]
      exact hs.os
  show Good h st (if _ then _ else _ : Option Errno × Inst × List Out).2.1
    (if _ then _ else _ : Option Errno × Inst × List Out).2.2
  split
  · exact hfail (Started.refused hadd .ENOMEM)
  have hs := startTransport_started hadd hself hproto
  unfold Inst.add at hs
  generalize startTransport r _ ct = res at hs
  obtain ⟨err, st1, os⟩ := res
  cases err with
  | some err => exact hfail hs
  | none =>
    refine Good.start hs.ok (fun j hj => ?_) hs.next hs.conf (fun c hc => ?_) ?_
    · rw [← hother j hj]
      exact hs.find j (by omega)
    · rw [← hid] at hc
      exact hs.txc rfl c hc
    · rw [← hid]
      exact hs.os

/-! ## Runs -/

theorem step_good (hok : st.Ok) (ev : Event) : Good h st (step h st ev).1 (step h st ev).2 := by
  have hif : ∀ {p : Prop} [Decidable p] {r : Inst × List Out}, (p → Good h st r.1 r.2) →
      Good h st (if p then r else (st, [])).1 (if p then r else (st, [])).2 := by
    intro p _ r hr
    split
    · exact hr ‹_›
    · exact Good.refl hok
  cases ev with
  | request r => exact stunCtransRequest_good hok
  | recv mb => exact stunRecv_good hok
  | timer id send => exact hif fun hin => timeoutHandler_good hok (hok.tmrs id hin)
  | tcpEstab id send => exact hif fun hin => tcpEstabHandler_good hok hin
  | tcpRecv id mb =>
    refine hif fun hin => ?_
    obtain ⟨ct, hct, -⟩ := hok.conns id hin
    simp only [tcpRecvHandler, hct]
    exact stunRecv_good hok
  | tcpClose id err => exact hif fun hin => tcpCloseHandler_good hok hin
  | destroy id =>
    refine hif fun hlive => ?_
    obtain ⟨ct, hct⟩ := Option.isSome_iff_exists.1 hlive
    exact Good.deref hok hct (forall_mem_nil _) (Nat.zero_le _)

theorem exec_ok (h : Hash) (conf : Conf) (evs : List Event) : (exec (step h) (stunAlloc conf) evs).Ok :=
  exec_inv_all Inst.Ok (fun _ ev hok => (step_good hok ev).ok) evs _ (stunAlloc_ok conf)

theorem countP_outs_le {p : Out → Bool} (budget : Inst → Nat)
    (hcost : ∀ st ev, st.Ok → (step h st ev).2.countP p + budget (step h st ev).1 ≤ budget st) (hok : st.Ok)
    (evs : List Event) : (outs (step h) st evs).flatten.countP p ≤ budget st := by
  rw [countP_flatten]
  exact outs_cost_le (fun st ev hok => (step_good hok ev).ok) hcost evs st hok

/-- **Client transactions.** Whatever is received, runs off, fails to be sent, is closed or is
destroyed, in any order: nothing that was freed is read; the handler of a transaction is called once
at most, and not after the owner destroyed the transaction; over UDP a request is sent `rc` times at
most, or once if `rc` is `0`; and a message that a handler gets is for its transaction and has
passed the check of its integrity. -/
theorem transactions_complete (h : Hash) (conf : Conf) (evs : List Event) :
    .fault ∉ (outs (step h) (stunAlloc conf) evs).flatten ∧
    (∀ id, (outs (step h) (stunAlloc conf) evs).flatten.countP (isResp id) ≤ 1) ∧
    (∀ evs₁ id evs₂, evs = evs₁ ++ .destroy id :: evs₂ → ((exec (step h) (stunAlloc conf) evs₁).find id).isSome →
      (outs (step h) (exec (step h) (stunAlloc conf) (evs₁ ++ [.destroy id])) evs₂).flatten.countP (isResp id) = 0) ∧
    (∀ id, (outs (step h) (stunAlloc conf) evs).flatten.countP (isUdpSent id) ≤ max conf.rc.toNat 1) ∧
    ∀ ct err scode reason msg, .resp ct err scode reason (some msg) ∈ (outs (step h) (stunAlloc conf) evs).flatten →
      Checked h ct scode msg := by
  have hresp (id : Nat) (st : Inst) (hok : st.Ok) (evs : List Event) :
      (outs (step h) st evs).flatten.countP (isResp id) ≤ respBudget st id :=
    countP_outs_le (respBudget · id) (fun _ ev hok => (step_good hok ev).resp id) hok evs
  have hsent (id : Nat) : (outs (step h) (stunAlloc conf) evs).flatten.countP (isUdpSent id) ≤
      sendBudget (stunAlloc conf) id :=
    countP_outs_le (sendBudget · id) (fun _ ev hok => (step_good hok ev).sent id) (stunAlloc_ok conf) evs
  have hinv : ∀ (st : Inst) (ev : Event), st.Ok → (step h st ev).1.Ok := fun _ ev hok => (step_good hok ev).ok
  have hall : ∀ os ∈ outs (step h) (stunAlloc conf) evs, .fault ∉ os ∧
      ∀ ct err scode reason msg, .resp ct err scode reason (some msg) ∈ os → Checked h ct scode msg :=
    outs_inv hinv (fun _ ev hok => ⟨(step_good hok ev).faultless, (step_good hok ev).checked⟩) evs _ (stunAlloc_ok conf)
  refine ⟨fun hf => ?_, fun id => hresp id _ (stunAlloc_ok conf) evs, ?_, fun id => ?_, ?_⟩
  · obtain ⟨os, hos, hf⟩ := mem_flatten.1 hf
    exact (hall os hos).1 hf
  · rintro evs₁ id evs₂ - hlive
    -- the transaction is gone, and its number is not given out again
    have hok := exec_ok h conf evs₁
    have hdone := hresp id _ (exec_ok h conf (evs₁ ++ [.destroy id])) evs₂
    have hzero : respBudget (exec (step h) (stunAlloc conf) (evs₁ ++ [.destroy id])) id = 0 := by
      obtain ⟨ct, hct⟩ := Option.isSome_iff_exists.1 hlive
      rw [exec_append]
      show respBudget (step h (exec (step h) (stunAlloc conf) evs₁) (.destroy id)).1 id = 0
      simp only [step, if_pos hlive]
      rw [(budget_deref _ (hok.lt_next hct)).1, if_pos rfl]
    omega
  · have hstart : sendBudget (stunAlloc conf) id = max conf.rc.toNat 1 := if_pos (Nat.zero_le id)
    rw [← hstart]
    exact hsent id
  · intro ct err scode reason msg hm
    obtain ⟨os, hos, hm⟩ := mem_flatten.1 hm
    exact (hall os hos).2 ct err scode reason msg hm

/-- With `rc = 0` the request is sent all the same. -/
theorem sent_once_without_rc :
    let request : Request :=
      ⟨.udp, true, true, [1, 2, 3, 4, 5, 6, 7, 8, 9, 10, 11, 12], 1, none, true, true, true, none, none⟩
    (outs (step ⟨fun _ _ => ⟨List.replicate 20 0, rfl⟩, fun _ => 0⟩) (stunAlloc ⟨500, 0, 16⟩)
      [.request request]).flatten.countP (isUdpSent 0) = 1 := by
  decide

end BareRTC.Stun
