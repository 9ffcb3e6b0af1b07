import BareRTC.Ice.Proof.Linked

/-!
# The connectivity check handler

`icem_checklist_update` calls the handler whenever all pairs of the check list are completed. It is
called by `pace_next`, which does nothing once the check list is not running any more, and by
`icem_conncheck_stop` in any case. A check that the transport refuses calls `pace_next` from within
`pace_next`: if that completes the check list, and does not fail, the outer one goes on and calls
the handler again. So the handler is called at most once if the check list is stopped while it is
running only, and no check is refused while every component has a valid pair (`once_exec`).
-/

namespace BareRTC.Ice

open List

variable {env : Env} {icem : Icem} {n : Nat}

/-! ## What does not call the handler -/

variable {icem' icem'' : Icem} {cp : Nat} (err : Option Errno)

variable {laddr : Sdp.Sa}

namespace Silent

theorem makeValid (cp : Nat) : Silent icem (icemCandpairMakeValid cp icem) := ⟨rfl, rfl, rfl, rfl⟩

theorem confirm (cp : Nat) (icem : Icem) : Silent icem (icem.confirm cp) := by
  have hsel : Silent (icemCandpairMakeValid cp icem) (icemCompSetSelected
      ((icemCandpairMakeValid cp icem).pairs cp).comp cp (icemCandpairMakeValid cp icem)) := setComp _ fun _ => rfl
  exact ((makeValid cp).trans hsel).trans (set _ _)

theorem withLcand (cp : Nat) (laddr : Sdp.Sa) (icem : Icem) :
    Silent icem (withLcand env cp laddr icem) := by
  unfold Ice.withLcand
  split <;> exact ⟨rfl, rfl, rfl, rfl⟩

theorem handleSuccess (hl : Linked icem) (hcp : cp ∈ icem.checkl ++ icem.validl)
    : Silent icem (handleSuccess env cp laddr icem) :=
  handleSuccess_inv hl hcp laddr (fun _ _ => (withLcand cp laddr icem).trans (makeValid cp))
    (fun _ _ h => h.trans (confirm _ _)) fun _ _ _ h => h.trans ⟨rfl, rfl, rfl, rfl⟩

theorem handleResp (env : Env) (hl : Linked icem) (hcp : cp ∈ icem.checkl ++ icem.validl)
    (resp : Resp) : Silent icem (handleResp env cp resp icem) := by
  cases hv : resp.verdict with
  | success laddr =>
    rw [handleResp_success hv]
    exact handleSuccess hl hcp
  | conflict =>
    rw [handleResp_conflict hv]
    have hswitch : Silent icem (iceSwitchLocalRole icem) := ⟨rfl, rfl, rfl, rfl⟩
    exact hswitch.trans (send ..)
  | failure =>
    obtain ⟨err, scode, hf⟩ := handleResp_failure env icem hv cp
    rw [hf]
    exact set _ _

theorem recv {compid : UInt32} {src : Sdp.Sa} {req : BindReq} :
    Silent icem (icemStundRecv env compid src req icem).2 := by
  refine trans ?_ (softs_icemStundRecv compid src req icem).silent
  split
  · exact ⟨rfl, rfl, rfl, rfl⟩
  · exact .refl _

end Silent

/-! ## What calls it -/

def Outcome (icem icem' : Icem) : Prop :=
  icem'.state = .running ∧ icem'.calls = icem.calls ∨
    icem'.state ≠ .running ∧ icem'.calls.length ≤ icem.calls.length + 1

theorem silent_loop (ids : List UInt32) : ∀ icem : Icem, Silent icem (icemChecklistUpdate.loop env id ids icem).2 := by
  induction ids with
  | nil => exact fun _ => .refl _
  | cons compid ids ih =>
    intro icem
    have hconc : Silent icem (concludingIce env id compid icem) := by
      rcases concludingIce_cases env compid icem with h | ⟨cp, -, -, h⟩
      · rw [h]
        exact .refl _
      rw [h]
      have hsel : Silent icem (icemCompSetSelected compid cp icem) := .setComp compid fun _ => rfl
      exact (hsel.trans (.send ..)).trans (.setComp compid fun _ => rfl)
    unfold icemChecklistUpdate.loop
    split
    · exact .refl _
    refine (hconc.trans ?_).trans (ih _)
    split
    · exact .setComp compid fun _ => rfl
    · exact .refl _

theorem call_calls :
    (icem.call err).calls.length ≤ icem.calls.length + 1 ∧
      (icem.chkh = false → (icem.call err).calls = icem.calls) := by
  unfold Icem.call
  split
  · rename_i h
    exact ⟨by simp, fun hf => by rw [hf] at h; cases h⟩
  · exact ⟨Nat.le_succ _, fun _ => rfl⟩

@[simp] theorem call_state : (icem.call err).state = icem.state := by
  unfold Icem.call
  split <;> rfl

/-- **The check list is looked at**: nothing is done, or it comes to its end and the handler is
called once. -/
theorem update_cases (env : Env) :
    icemChecklistUpdate env id icem = icem ∨
    (icemChecklistUpdate env id icem).state =
        (if (icemChecklistUpdate.loop env id (icem.compl.map (·.id)) icem).1.isSome then .failed else .completed) ∧
      (icemChecklistUpdate env id icem).calls.length ≤ icem.calls.length + 1 ∧
      (icem.chkh = false → (icemChecklistUpdate env id icem).calls = icem.calls) := by
  unfold icemChecklistUpdate
  split
  · exact .inl rfl
  have hs := @silent_loop env (icem.compl.map (·.id)) icem
  generalize icemChecklistUpdate.loop env id (icem.compl.map (·.id)) icem = r at hs ⊢
  obtain ⟨hle, hoff⟩ := call_calls r.1
  exact .inr ⟨call_state _, hs.calls ▸ hle, fun hf => (hoff (hs.chkh.trans hf)).trans hs.calls⟩

theorem outcome_update (h : icem.state = .running) : Outcome icem (icemChecklistUpdate env id icem) := by
  rcases update_cases env with he | ⟨hst, hle, -⟩
  · rw [he]
    exact .inl ⟨h, rfl⟩
  refine .inr ⟨?_, hle⟩
  rw [hst]
  split <;> exact nofun

theorem abort_outcome (err : Errno) (icem : Icem) :
    (abortIce err icem).state = .failed ∧ (abortIce err icem).calls.length ≤ icem.calls.length + 1 :=
  ⟨call_state _, (call_calls (some err)).1⟩

/-! ### No check is refused -/

def Idle (icem : Icem) : Prop := ∀ cp ∈ icem.checkl, (icem.pairs cp).ctConn.isSome →
  (icem.pairs cp).state ≠ .waiting ∧ (icem.pairs cp).state ≠ .frozen

theorem Idle.set (h : Idle icem) {f : Pair → Pair} (hf : (f (icem.pairs cp)).ctConn = none) : Idle (icem.set cp f) := by
  intro x hx hsome
  by_cases hx' : x = cp
  · rw [hx', set_pairs_self, hf] at hsome
    cases hsome
  · rw [set_pairs_ne _ hx'] at hsome ⊢
    exact h x hx hsome

def Env.Takes (env : Env) (tid : Nat) : Prop := ∀ err ∈ env.send tid, err = .ENOMEM

instance (icem : Icem) : Decidable (Idle icem) := by unfold Idle; infer_instance
instance (env : Env) (tid : Nat) : Decidable (env.Takes tid) := by unfold Env.Takes; infer_instance

structure Accepts (env : Env) (icem : Icem) : Prop where
  role : icem.lrole ≠ .unknown
  idle : Idle icem
  send : env.Takes icem.sends

theorem paceNext_eq (hrun : icem.state = .running) : paceNext env icem =
    if (icemConncheckScheduleCheck env icem).state = .failed then icemConncheckScheduleCheck env icem
    else icemChecklistUpdate env id (icemConncheckScheduleCheck env icem) := by
  unfold paceNext paceNextWith
  rw [if_neg (by simp [hrun])]
  dsimp only
  rw [icemChecklistUpdate_schedule]

theorem not_completed_sent (hcp : cp ∈ icem.checkl)
    (hopen : (icem.pairs cp).state = .waiting ∨ (icem.pairs cp).state = .frozen) (useCand : Bool) :
    iscompleted (icem.sent cp useCand) = false := by
  have hnot : ¬ (icem.pairs cp).isCompleted := by
    rw [Pair.isCompleted_iff]
    rcases hopen with h | h <;> simp [h]
  have hst : ((icem.sent cp useCand).pairs cp).isCompleted = false := by
    rw [sent_pairs_self, Pair.setState_of_not hnot]
    rfl
  refine all_eq_false.2 ⟨cp, hcp, ?_⟩
  simp [hst]

theorem outcome_accepts (hrun : icem.state = .running) (ha : Accepts env icem) : Outcome icem (paceNext env icem) := by
  rw [paceNext_eq hrun, icemConncheckScheduleCheck_eq]
  cases hn : nextCheck icem with
  | none =>
    dsimp only
    rw [if_neg (by simp [hrun])]
    exact outcome_update hrun
  | some cp =>
    have hcp := nextCheck_mem hn
    have hopen := nextCheck_open hn
    unfold doCheck
    rcases icemConncheckSend_cases env cp false icem with ⟨e, h, -, hwhy⟩ | ⟨e, h, hsend⟩ | ⟨h, -⟩
    · exfalso
      rcases hwhy with hr | ⟨-, hf⟩ | hct
      · exact ha.role hr
      · cases hf
      rcases hopen with ho | ho
      · exact (ha.idle cp hcp hct).1 ho
      · exact (ha.idle cp hcp hct).2 ho
    · obtain rfl := ha.send e hsend
      obtain ⟨hst, hle⟩ := abort_outcome .ENOMEM (icemCandpairFailed cp (some .ENOMEM) 0
        { icem.tried cp with sends := icem.sends + 1 })
      simp only [h, if_true, hst]
      exact .inr ⟨by rw [hst]; exact nofun, hle⟩
    · have hcomp := not_completed_sent hcp hopen false
      simp only [h]
      rw [if_neg (by simp [Icem.sent, Icem.tried, Icem.set, hrun]), icemChecklistUpdate, if_pos (by simp [hcomp])]
      exact .inl ⟨hrun, rfl⟩

/-! ### A component has no valid pair -/

def Lacking (icem : Icem) : Prop :=
  ∃ compid ∈ icem.compl.map (·.id), ∀ cp ∈ icem.validl, (icem.pairs cp).lcand.compid ≠ compid

theorem Lacking.still (h : Lacking icem) (hs : Still icem icem') (hq : Silent icem icem') : Lacking icem' := by
  obtain ⟨compid, hmem, hnone⟩ := h
  refine ⟨compid, hq.compl ▸ hmem, fun cp hcp => ?_⟩
  rw [hs.lcand]
  exact hnone cp (hs.validl ▸ hcp)

theorem loop_lacking {compid : UInt32} {ids : List UInt32} : ∀ {icem : Icem}, compid ∈ ids →
    (∀ cp ∈ icem.validl, (icem.pairs cp).lcand.compid ≠ compid) →
    (icemChecklistUpdate.loop env id ids icem).1.isSome := by
  induction ids with
  | nil => exact fun h _ => nomatch h
  | cons i ids ih =>
    intro icem hmem hnone
    unfold icemChecklistUpdate.loop
    cases hfind : icemCandpairFindCompid icem.pairs icem.validl i with
    | none => rfl
    | some cp =>
      have hne : compid ≠ i := by
        rintro rfl
        have := find?_some hfind
        exact hnone cp (mem_of_find?_eq_some hfind) (by simpa using this)
      have hid : ∀ icem, Micros env icem (id icem) := fun _ => .refl
      have hs := (micros_concludingIce hid i icem).progress.still
      have hkeep : Still (concludingIce env id i icem)
          (if ((icemCompFind (concludingIce env id i icem) i).bind (·.cpSel)).isSome then
            icemCompKeepalive i true (concludingIce env id i icem) else concludingIce env id i icem) := by
        split
        · exact (Progress.book _ _ _ _ _ _).still
        · exact .refl _
      have hall := hs.trans hkeep
      refine ih ((mem_cons.1 hmem).resolve_left hne) fun x hx => ?_
      rw [hall.lcand]
      exact hnone x (hall.validl ▸ hx)

theorem update_lacking (h : Lacking icem) : icemChecklistUpdate env id icem = icem ∨
    (icemChecklistUpdate env id icem).state = .failed ∧
      (icemChecklistUpdate env id icem).calls.length ≤ icem.calls.length + 1 := by
  obtain ⟨compid, hmem, hnone⟩ := h
  rcases update_cases env with he | ⟨hst, hle, -⟩
  · exact .inl he
  · rw [loop_lacking hmem hnone] at hst
    exact .inr ⟨hst, hle⟩

def Fails (icem icem' : Icem) : Prop :=
  icem'.state = .running ∧ icem'.calls = icem.calls ∧ Lacking icem' ∨
    icem'.state = .failed ∧ icem'.calls.length ≤ icem.calls.length + 1

theorem Silent.fails (h : Silent icem icem') (ho : Fails icem' icem'') : Fails icem icem'' := by
  unfold Fails at ho ⊢
  rwa [h.calls] at ho

theorem Fails.outcome (h : Fails icem icem') : Outcome icem icem' := by
  rcases h with ⟨hst, hcalls, -⟩ | ⟨hst, hle⟩
  · exact .inl ⟨hst, hcalls⟩
  · exact .inr ⟨by rw [hst]; exact nofun, hle⟩

theorem Fails.update (h : Fails icem icem') :
    Fails icem (if icem'.state = .failed then icem' else icemChecklistUpdate env id icem') := by
  rcases h with ⟨hst, hcalls, hl⟩ | ⟨hst, hle⟩
  · rw [if_neg (by simp [hst])]
    rcases @update_lacking env icem' hl with he | ⟨hf, hle⟩
    · rw [he]
      exact .inl ⟨hst, hcalls, hl⟩
    · exact .inr ⟨hf, hcalls ▸ hle⟩
  · rw [if_pos hst]
    exact .inr ⟨hst, hle⟩

/-- **A refused check is nothing to worry about while a component has no valid pair.** -/
theorem fails_scheduleCheck : ∀ (n : Nat) {icem : Icem}, icem.state = .running → Lacking icem →
    Fails icem (scheduleCheck env n icem)
  | 0, _, hrun, hl => .inl ⟨hrun, rfl, hl⟩
  | n + 1, icem, hrun, hl => by
    rw [scheduleCheck]
    cases hn : nextCheck icem with
    | none => exact .inl ⟨hrun, rfl, hl⟩
    | some cp =>
      have hq := Silent.send env cp false icem
      have hs := Still.send env cp false icem
      dsimp only
      unfold doCheck
      split
      · rename_i icem' h
        rw [h] at hq hs
        exact .inl ⟨hq.state.trans hrun, hq.calls, hl.still hs hq⟩
      rename_i err icem' h
      rw [h] at hq hs
      have hq' : Silent icem (icemCandpairFailed cp (some err) 0 icem') := hq.trans (.set _ _)
      have hs' := hs.trans (.failed cp (some err) 0 icem')
      dsimp only
      split
      · obtain ⟨hst, hle⟩ := abort_outcome err (icemCandpairFailed cp (some err) 0 icem')
        exact hq'.fails (.inr ⟨hst, hle⟩)
      have hrun' := hq'.state.trans hrun
      have ih := fails_scheduleCheck n hrun' (hl.still hs' hq')
      unfold paceNextWith
      rw [if_neg (by simp [hrun'])]
      dsimp only
      rw [icemChecklistUpdate_eq]
      exact hq'.fails ih.update

theorem outcome_lacking (hrun : icem.state = .running) (hl : Lacking icem) : Outcome icem (paceNext env icem) := by
  rw [paceNext_eq hrun]
  have h : Fails icem (icemConncheckScheduleCheck env icem) := fails_scheduleCheck _ hrun hl
  exact h.update.outcome

/-! ## Answers -/

def confirms (env : Env) (icem : Icem) (cp : Nat) : Verdict → List UInt32
  | .success laddr => [(icem.pairs cp).lcand.compid, (answerLcand env icem cp laddr).compid]
  | .conflict | .failure => []

def LackingBut (ids : List UInt32) (icem : Icem) : Prop :=
  ∃ compid ∈ icem.compl.map (·.id), compid ∉ ids ∧ ∀ cp ∈ icem.validl, (icem.pairs cp).lcand.compid ≠ compid

instance (ids : List UInt32) (icem : Icem) : Decidable (LackingBut ids icem) := by unfold LackingBut; infer_instance

structure Confirms (ids : List UInt32) (icem icem' : Icem) : Prop where
  sends : icem'.sends = icem.sends
  lrole : icem'.lrole = icem.lrole
  checkl : ∀ cp ∈ icem'.checkl, cp ∈ icem.checkl ∧ icem'.pairs cp = icem.pairs cp
  validl : ∀ cp ∈ icem'.validl, (icem'.pairs cp).lcand.compid ∈ ids ∨
    ∃ c ∈ icem.validl, (icem'.pairs cp).lcand = (icem.pairs c).lcand

namespace Confirms

variable {ids : List UInt32}

theorem trans (h : Confirms ids icem icem') (h' : Confirms ids icem' icem'') : Confirms ids icem icem'' where
  sends := h'.sends.trans h.sends
  lrole := h'.lrole.trans h.lrole
  checkl cp hcp := by
    obtain ⟨hcp, hp⟩ := h'.checkl cp hcp
    obtain ⟨hcp, hp'⟩ := h.checkl cp hcp
    exact ⟨hcp, hp.trans hp'⟩
  validl cp hcp := by
    rcases h'.validl cp hcp with hid | ⟨c, hc, hl⟩
    · exact .inl hid
    · rw [hl]
      exact h.validl c hc

theorem withLcand (env : Env) (cp : Nat) (icem : Icem) :
    Confirms ids icem (withLcand env cp laddr icem) := by
  unfold Ice.withLcand
  split <;> exact ⟨rfl, rfl, fun _ h => ⟨h, rfl⟩, fun c h => .inr ⟨c, h, rfl⟩⟩

theorem makeValid (hl : Linked icem) (h : cp ∈ icem.validl ∨ (icem.pairs cp).lcand.compid ∈ ids) :
    Confirms ids icem (icemCandpairMakeValid cp icem) where
  sends := rfl
  lrole := rfl
  checkl x hx := by
    obtain ⟨hne, hx⟩ := (mem_makeValid_checkl hl).1 hx
    exact ⟨hx, makeValid_pairs_ne hne⟩
  validl x hx := by
    rw [makeValid_lcand]
    rcases (mem_makeValid_validl hl).1 hx with rfl | hx
    · exact h.symm.imp_right fun h => ⟨x, h, rfl⟩
    · exact .inr ⟨x, hx, rfl⟩

theorem confirm (hl : Linked icem) (h : cp ∈ icem.validl) : Confirms ids icem (icem.confirm cp) := by
  have hv : Confirms ids icem (icemCandpairMakeValid cp icem) := makeValid hl (.inl h)
  refine hv.trans ⟨rfl, rfl, fun x hx => ⟨hx, ?_⟩, fun x hx => .inr ⟨x, hx, ?_⟩⟩
  · exact set_pairs_ne _ ((mem_makeValid_checkl hl).1 hx).1
  · exact (progress_confirm cp icem).still.lcand x

theorem cloned (hl : Linked icem) {lcand rcand : Cand} (hr : rcand ∈ icem.rcandl)
    (h : lcand.compid ∈ ids) : Confirms ids icem (icem.cloned cp lcand rcand) where
  sends := rfl
  lrole := rfl
  checkl x hx := by
    obtain ⟨hne, hx⟩ := (mem_makeValid_checkl (hl.clone hr)).1 hx
    refine ⟨(mem_listAddSorted.1 hx).resolve_left hne, ?_⟩
    rw [Icem.cloned, makeValid_pairs_ne hne, clone_pairs_ne hne]
  validl x hx := by
    rw [Icem.cloned, makeValid_lcand]
    rcases (mem_cloned_validl hl hr).1 hx with rfl | hx
    · rw [clone_pairs_self]
      exact .inl h
    · rw [clone_pairs_ne (hl.fresh x (mem_append_right _ hx)).ne]
      exact .inr ⟨x, hx, rfl⟩

theorem handleSuccess (env : Env) (hl : Linked icem) (hcp : cp ∈ icem.checkl ++ icem.validl)
    (laddr : Sdp.Sa) : Confirms [(icem.pairs cp).lcand.compid, (answerLcand env icem cp laddr).compid] icem
      (handleSuccess env cp laddr icem) :=
  handleSuccess_inv hl hcp laddr (fun hw _ => (withLcand env cp icem).trans (makeValid hw (.inr (by simp))))
    (fun hl hc h => h.trans (confirm hl hc)) fun hl _ hr h => h.trans (cloned hl hr (by simp))

end Confirms

theorem Pair.setState_inprogress (p : Pair) :
    (p.setState .inprogress).state ≠ .waiting ∧ (p.setState .inprogress).state ≠ .frozen := by
  by_cases hc : p.isCompleted
  · rw [Pair.setState_of_completed _ hc]
    rcases Pair.isCompleted_iff.1 hc with h | h <;> simp [h]
  · rw [Pair.setState_of_not hc]
    exact ⟨nofun, nofun⟩

theorem Idle.send (h : Idle icem) (cp : Nat) (useCand : Bool) :
    Idle (icemConncheckSend env cp useCand icem).2 := by
  -- the pair of the request is in progress or completed, the others are as before
  have hpairs : ∀ x, ((icemConncheckSend env cp useCand icem).2.pairs x).state ≠ .waiting ∧
      ((icemConncheckSend env cp useCand icem).2.pairs x).state ≠ .frozen ∨
      (icemConncheckSend env cp useCand icem).2.pairs x = icem.pairs x := by
    intro x
    have htried : ((icem.tried cp).pairs x).state ≠ .waiting ∧ ((icem.tried cp).pairs x).state ≠ .frozen ∨
        (icem.tried cp).pairs x = icem.pairs x := by
      by_cases hx : x = cp
      · rw [hx, Icem.tried, set_pairs_self]
        exact .inl (Pair.setState_inprogress _)
      · exact .inr (set_pairs_ne _ hx)
    rcases icemConncheckSend_cases env cp useCand icem with ⟨e, h, -⟩ | ⟨e, h, -⟩ | ⟨h, -⟩ <;> rw [h]
    · exact htried
    · exact htried
    by_cases hx : x = cp
    · rw [hx, sent_pairs_self]
      exact .inl (Pair.setState_inprogress _)
    · exact .inr (sent_pairs_ne useCand hx)
  intro x hx hsome
  rw [(Still.send env cp useCand icem).checkl] at hx
  rcases hpairs x with hst | he
  · exact hst
  · rw [he] at hsome ⊢
    exact h x hx hsome

theorem send_sends (hrole : icem.lrole ≠ .unknown) (hct : (icem.pairs cp).ctConn = none) :
    (icemConncheckSend env cp false icem).2.sends = icem.sends + 1 := by
  rcases icemConncheckSend_cases env cp false icem with ⟨e, h, -, hr | ⟨-, hf⟩ | hs⟩ | ⟨e, h, -⟩ | ⟨h, -⟩
  · exact absurd hr hrole
  · cases hf
  · simp [hct] at hs
  · rw [h]
  · rw [h]
    rfl

def Verdict.Calm (env : Env) (icem : Icem) (cp : Nat) (v : Verdict) : Prop :=
  LackingBut (confirms env icem cp v) icem ∨ Idle icem ∧
    match v with
    | .conflict => env.Takes (icem.sends + 1)
    | _ => icem.lrole ≠ .unknown ∧ env.Takes icem.sends

instance (env : Env) (icem : Icem) (cp : Nat) (v : Verdict) : Decidable (v.Calm env icem cp) := by
  unfold Verdict.Calm
  cases v <;> infer_instance

theorem calm_handleResp (hl : Linked icem) (hcp : cp ∈ icem.checkl ++ icem.validl)
    (hct : (icem.pairs cp).ctConn = none) {resp : Resp} (h : resp.verdict.Calm env icem cp) :
    Lacking (handleResp env cp resp icem) ∨ Accepts env (handleResp env cp resp icem) := by
  have hq := Silent.handleResp env hl hcp resp
  cases hv : resp.verdict with
  | success laddr =>
    rw [handleResp_success hv] at hq ⊢
    rw [hv] at h
    have hc := Confirms.handleSuccess env hl hcp laddr
    rcases h with ⟨compid, hmem, hnot, hnone⟩ | ⟨hidle, hrole, hsend⟩
    · refine .inl ⟨compid, hq.compl ▸ hmem, fun x hx => ?_⟩
      rcases hc.validl x hx with hid | ⟨c, hcv, hlc⟩
      · exact fun he => hnot (he ▸ hid)
      · rw [hlc]
        exact hnone c hcv
    refine .inr ⟨hc.lrole ▸ hrole, fun x hx => ?_, hc.sends ▸ hsend⟩
    obtain ⟨hx, hp⟩ := hc.checkl x hx
    rw [hp]
    exact hidle x hx
  | conflict =>
    have hs : Still icem (handleResp env cp resp icem) := .handleResp (by simp [hv]) cp icem
    rw [hv] at h
    rcases h with ⟨compid, hmem, -, hnone⟩ | ⟨hidle, hsend⟩
    · exact .inl (Lacking.still ⟨compid, hmem, hnone⟩ hs hq)
    rw [handleResp_conflict hv]
    have hrole : (iceSwitchLocalRole icem).lrole ≠ .unknown := by
      unfold iceSwitchLocalRole
      dsimp only
      split <;> exact nofun
    have hidle' : Idle (iceSwitchLocalRole icem) := hidle
    refine .inr ⟨by simpa using hrole, hidle'.send cp false, ?_⟩
    rw [send_sends hrole hct]
    exact hsend
  | failure =>
    have hs : Still icem (handleResp env cp resp icem) := .handleResp (by simp [hv]) cp icem
    rw [hv] at h
    rcases h with ⟨compid, hmem, -, hnone⟩ | ⟨hidle, hrole, hsend⟩
    · exact .inl (Lacking.still ⟨compid, hmem, hnone⟩ hs hq)
    obtain ⟨err, scode, hf⟩ := handleResp_failure env icem hv cp
    rw [hf]
    exact .inr ⟨hrole, hidle.set (by simp [hct]), hsend⟩

/-! ## Runs -/

def Calm (env : Env) (icem : Icem) : Op → Prop
  | .pace => icem.state = .running → LackingBut [] icem ∨ Idle icem ∧ icem.lrole ≠ .unknown ∧ env.Takes icem.sends
  | .resp tid resp => icem.state = .running → ∀ cp ∈ transaction icem tid, resp.verdict.Calm env icem cp
  | .stop _ => icem.state = .running ∨ icem.chkh = false
  | _ => True

instance (env : Env) (icem : Icem) (op : Op) : Decidable (Calm env icem op) := by
  unfold Calm
  cases op <;> infer_instance

theorem LackingBut.cancel {ids : List UInt32} (h : LackingBut ids icem) (cp : Nat) :
    LackingBut ids (icemCandpairCancel cp icem) := by
  obtain ⟨compid, hmem, hnot, hnone⟩ := h
  refine ⟨compid, hmem, hnot, fun x hx => ?_⟩
  rw [(Still.cancel cp icem).lcand]
  exact hnone x hx

theorem Verdict.Calm.cancel {v : Verdict} (h : v.Calm env icem cp) : v.Calm env (icemCandpairCancel cp icem) cp := by
  have hs := Still.cancel cp icem
  have hconf : confirms env (icemCandpairCancel cp icem) cp v = confirms env icem cp v := by
    cases v with
    | success laddr =>
      have hl : answerLcand env (icemCandpairCancel cp icem) cp laddr = answerLcand env icem cp laddr :=
        answerLcand_cancel cp laddr
      rw [confirms, confirms, hl, hs.lcand]
    | conflict | failure => rfl
  exact h.imp (fun hl => hconf ▸ hl.cancel cp) (And.imp_left (Idle.set · rfl))

def Once (n : Nat) (icem : Icem) : Prop := icem.calls.length ≤ n ∨ icem.calls.length ≤ n + 1 ∧ icem.state ≠ .running

theorem Once.silent (h : Once n icem) (hq : Silent icem icem') : Once n icem' := by
  unfold Once at h ⊢
  rwa [hq.calls, hq.state]

theorem Once.outcome (h : Once n icem) (hrun : icem.state = .running) (ho : Outcome icem icem') : Once n icem' := by
  have hle : icem.calls.length ≤ n := h.resolve_right fun h => h.2 hrun
  rcases ho with ⟨-, hc⟩ | ⟨hst, hc⟩
  · exact .inl (hc ▸ hle)
  · exact .inr ⟨hc.trans (Nat.succ_le_succ hle), hst⟩

theorem Once.pace (h : Once n icem) (hc : icem.state = .running → Lacking icem ∨ Accepts env icem) :
    Once n (paceNext env icem) := by
  by_cases hrun : icem.state = .running
  · exact h.outcome hrun ((hc hrun).elim (outcome_lacking hrun) (outcome_accepts hrun))
  · have hsame : paceNext env icem = icem := if_pos hrun
    rwa [hsame]

theorem silent_interrupt (l : List Nat) : ∀ icem : Icem, Silent icem (l.foldl icemConncheckStop.interrupt icem) := by
  induction l with
  | nil => exact .refl
  | cons cp l ih =>
    intro icem
    refine Silent.trans ?_ (ih _)
    unfold icemConncheckStop.interrupt
    split
    · exact .refl _
    · exact ⟨rfl, rfl, rfl, rfl⟩

theorem Once.stop (h : Once n icem) (hc : icem.state = .running ∨ icem.chkh = false) (err : Option Errno) :
    Once n (icemConncheckStop env err icem) := by
  let icem0 : Icem := { icem with state := if err.isSome then .failed else .completed, tmrPace := false }
  have hq := silent_interrupt icem.checkl icem0
  have hst : icem0.state ≠ .running := by
    show (if err.isSome then _ else _) ≠ ChecklState.running
    split <;> exact nofun
  have hstop : icemConncheckStop env err icem =
      icemChecklistUpdate env id (icem.checkl.foldl icemConncheckStop.interrupt icem0) :=
    icemChecklistUpdate_schedule _
  have hcalls : icem0.calls = icem.calls := rfl
  rw [hstop]
  rcases update_cases env with he | ⟨hst', hle, hoff⟩
  · rw [he, Once, hq.calls, hq.state]
    exact h.imp_right fun h => ⟨h.1, hst⟩
  have hend : (icemChecklistUpdate env id (icem.checkl.foldl icemConncheckStop.interrupt icem0)).state ≠ .running := by
    rw [hst']
    split <;> exact nofun
  rw [hq.calls] at hle hoff
  rcases hc with hrun | hchkh
  · have hn : icem.calls.length ≤ n := h.resolve_right fun h => h.2 hrun
    exact .inr ⟨hle.trans (Nat.succ_le_succ hn), hend⟩
  · rw [Once, hoff (hq.chkh.trans hchkh)]
    exact h.imp_right fun h => ⟨h.1, hend⟩

theorem once_step (hl : Linked icem) (h : Once n icem) {op : Op} (hop : op ≠ .start)
    (hc : Calm env icem op) : Once n (icem.step env op).1 := by
  cases op with
  | start => exact absurd rfl hop
  | compAdd compid lport =>
    show Once n (icemCompAdd compid lport icem)
    unfold icemCompAdd
    split <;> exact h
  | candAdd compid lprio addr =>
    show Once n (icemCandAdd env compid lprio addr icem)
    unfold icemCandAdd
    split <;> exact h
  | lcandAdd base type addr =>
    unfold Icem.step
    dsimp only
    split <;> exact h
  | rcandAdd | redundElim | setRole | lite | cont => exact h
  | setStates => exact h.silent (@softs_iceCandpairSetStates env icem).silent
  | pace =>
    show Once n (paceTimeout env icem)
    unfold paceTimeout
    split
    · have h0 : Once n { icem with tmrPace := false } := h
      refine h0.pace fun hrun => (hc hrun).imp (fun ⟨compid, hmem, _, hnone⟩ => ⟨compid, hmem, hnone⟩) ?_
      exact fun ⟨hidle, hrole, hsend⟩ => ⟨hrole, hidle, hsend⟩
    · exact h
  | resp tid resp =>
    show Once n (ctransCompleted env tid resp icem)
    unfold ctransCompleted
    cases htr : transaction icem tid with
    | none => exact h
    | some cp =>
      have hcp : cp ∈ icem.checkl ++ icem.validl := transaction_mem htr
      have hl' := hl.still (.cancel cp icem)
      have hct : ((icemCandpairCancel cp icem).pairs cp).ctConn = none := by
        rw [icemCandpairCancel, set_pairs_self]
      have hq := Silent.handleResp env hl' hcp resp
      have h' : Once n (icemCandpairCancel cp icem) := h
      refine (h'.silent hq).pace fun hrun => calm_handleResp hl' hcp hct ?_
      exact (hc (hq.state.symm.trans hrun) cp htr).cancel
  | recv compid src req =>
    unfold Icem.step
    dsimp only
    split
    · exact h.silent (.recv)
    · exact h
  | stop err => exact h.stop hc err
  | update =>
    have hq : Silent icem (icemUpdate icem) :=
      icemUpdate_inv (P := Silent icem) (fun _ _ hq => hq.trans ⟨rfl, rfl, rfl, rfl⟩) (.refl icem)
    exact h.silent hq

theorem once_run {ops : List Op} (hl : Linked icem) (h : Once n icem) (hops : ∀ op ∈ ops, op ≠ .start)
    (hc : Along (Icem.step env) (Calm env) icem ops) : Once n (exec (Icem.step env) icem ops) := by
  have hstep : ∀ icem op, Linked icem ∧ Once n icem → op ≠ .start ∧ Calm env icem op →
      Linked (icem.step env op).1 ∧ Once n (icem.step env op).1 :=
    fun _ op hi hok => ⟨linked_step hi.1 op, once_step hi.1 hi.2 hok.1 hok.2⟩
  have hok := along_and ops icem (along_of_forall ops (fun op hop _ => hops op hop) icem) hc
  exact (exec_inv hstep ops icem ⟨hl, h⟩ hok).2

theorem calls_start : (icemConncheckStart icem).2.calls = icem.calls := by
  refine icemConncheckStart_inv (P := fun s => s.calls = icem.calls) (fun s lcand rcand h _ => ?_) (fun _ h => h)
    (fun _ h => h) (fun _ _ _ h => h) rfl
  unfold icemCandpairAlloc
  split
  · exact h
  · exact h

/-- **The handler is called at most once after `icem_conncheck_start`**, if the run after it is
calm. -/
theorem once_exec (env : Env) {full udp chkh : Bool} {role : Role} {tiebrk : UInt64} {lufrag lpwd : Bytes}
    (h : icemAlloc full udp role tiebrk lufrag lpwd chkh = .ok icem) (before ops : List Op)
    (hops : ∀ op ∈ ops, op ≠ .start)
    (hc : Along (Icem.step env) (Calm env) (exec (Icem.step env) icem (before ++ [.start])) ops) :
    (exec (Icem.step env) icem (before ++ .start :: ops)).calls.length ≤
      (exec (Icem.step env) icem before).calls.length + 1 := by
  have hcalls : (exec (Icem.step env) icem (before ++ [.start])).calls = (exec (Icem.step env) icem before).calls := by
    rw [exec_append]
    exact calls_start
  have hrun : Once (exec (Icem.step env) icem before).calls.length
      (exec (Icem.step env) (exec (Icem.step env) icem (before ++ [.start])) ops) :=
    once_run (linked_exec _ (linked_init h)) (.inl (by rw [hcalls])) hops hc
  rw [← exec_append, append_assoc, singleton_append] at hrun
  rcases hrun with hle | ⟨hle, -⟩
  · exact Nat.le_succ_of_le hle
  · exact hle

/-- The check succeeds, and so does the one that nominates the pair. -/
theorem once_exec_nominated : ∃ icem,
    icemAlloc true true .controlling 1 (List.replicate 4 97) (List.replicate 22 97) true = .ok icem ∧
    (exec (Icem.step .lossless) icem (onePair ++ [.resp 0 ⟨none, 0, some ⟨.inet 1, 5000⟩⟩,
      .resp 1 ⟨none, 0, some ⟨.inet 1, 5000⟩⟩])).calls.length ≤ 1 :=
  have h : icemAlloc true true .controlling 1 (List.replicate 4 97) (List.replicate 22 97) true = .ok _ := rfl
  ⟨_, h, once_exec .lossless h [.compAdd 1 5000, .candAdd 1 0 ⟨.inet 1, 0⟩, .rcandAdd .host 1 7 ⟨.inet 2, 5000⟩]
    [.pace, .resp 0 ⟨none, 0, some ⟨.inet 1, 5000⟩⟩, .resp 1 ⟨none, 0, some ⟨.inet 1, 5000⟩⟩]
    (by decide) (by decide +kernel)⟩

/-- `icem_conncheck_stop` after the checks have come to their end calls the handler once more. -/
theorem stopped_twice : ∃ icem,
    icemAlloc true true .controlling 1 (List.replicate 4 97) (List.replicate 22 97) true = .ok icem ∧
    (exec (Icem.step .lossless) icem (onePair ++ [.resp 0 ⟨some .ETIMEDOUT, 0, none⟩, .stop none])).calls.length = 2 :=
  ⟨_, rfl, by decide +kernel⟩

-- The first pair is valid, and the check of the second is refused: the check list is brought to its end inside
-- `icem_conncheck_schedule_check`, and once more by the `icem_checklist_update` that `pace_next` makes after it.
example : ∃ icem,
    icemAlloc true true .controlling 1 (List.replicate 4 97) (List.replicate 22 97) true = .ok icem ∧
    (exec (Icem.step ⟨fun tid => if tid = 1 then some .ECONNRESET else none, fun _ => []⟩) icem
      [.compAdd 1 5000, .candAdd 1 0 ⟨.inet 1, 0⟩, .rcandAdd .host 1 7 ⟨.inet 2, 5000⟩,
       .rcandAdd .host 1 6 ⟨.inet 3, 5000⟩, .start, .pace,
       .resp 0 ⟨none, 0, some ⟨.inet 1, 5000⟩⟩]).calls.length = 2 :=
  ⟨_, rfl, by decide +kernel⟩

end BareRTC.Ice
