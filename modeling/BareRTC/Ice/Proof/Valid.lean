import BareRTC.Ice.Proof.Linked

/-!
# The valid list and the check list

The valid list is to have the pairs whose check succeeded and the check list the others (`Settled`).
A check is sent for a pair that has failed when the other side asks for it, and for a valid pair to
nominate it; what comes back then is written to the pair, but the state of a pair that is completed
is not changed any more. So the lists are as they should be exactly as long as no check of a failed
pair succeeds and no check of a valid pair fails (`settled_iff`).
-/

namespace BareRTC.Ice

open List

variable {env : Env} {icem : Icem} {icem' : Icem}

@[mk_iff settled_def]
structure Settled (icem : Icem) : Prop where
  valid : ∀ cp ∈ icem.validl, (icem.pairs cp).valid ∧ (icem.pairs cp).state = .succeeded
  check : ∀ cp ∈ icem.checkl, (icem.pairs cp).state ≠ .succeeded

instance (icem : Icem) : Decidable (Settled icem) := decidable_of_iff _ (settled_def icem).symm

namespace Settled

theorem progress (hl : Linked icem) (hs : Settled icem) (hp : Progress icem icem') : Settled icem' where
  valid cp hcp := by
    rw [hp.validl] at hcp
    obtain ⟨hst, hv⟩ := hp.outside cp (hl.not_mem_checkl hcp)
    rw [hst, hv]
    exact hs.valid cp hcp
  check cp hcp hst := by
    rw [hp.checkl] at hcp
    exact hs.check cp hcp ((hp.moves cp).succeeded hst)

theorem of_subset (h : Settled icem) (hc : icem'.checkl ⊆ icem.checkl)
    (hv : icem'.validl ⊆ icem.validl) (hp : ∀ cp, (icem'.pairs cp).valid = (icem.pairs cp).valid ∧
      (icem'.pairs cp).state = (icem.pairs cp).state) : Settled icem' where
  valid cp hcp := by
    rw [(hp cp).1, (hp cp).2]
    exact h.valid cp (hv hcp)
  check cp hcp := by
    rw [(hp cp).2]
    exact h.check cp (hc hcp)

end Settled

structure SettledBut (cp : Nat) (icem : Icem) : Prop where
  valid : ∀ cp' ∈ icem.validl, cp' ≠ cp → (icem.pairs cp').valid ∧ (icem.pairs cp').state = .succeeded
  check : ∀ cp' ∈ icem.checkl, cp' ≠ cp → (icem.pairs cp').state ≠ .succeeded

theorem Settled.but (h : Settled icem) {cp : Nat} : SettledBut cp icem :=
  ⟨fun cp' h' _ => h.valid cp' h', fun cp' h' _ => h.check cp' h'⟩

theorem state_validated {p : Pair} (h : p.state ≠ .failed) : p.validated.state = .succeeded := by
  by_cases hc : p.isCompleted
  · have hc' : ({ p with err := none, scode := 0, valid := true } : Pair).isCompleted := hc
    rw [Pair.validated, Pair.setState_of_completed _ hc']
    exact (Pair.isCompleted_iff.1 hc).resolve_left h
  · have hc' : ¬ ({ p with err := none, scode := 0, valid := true } : Pair).isCompleted := hc
    rw [Pair.validated, Pair.setState_of_not hc']

theorem state_validated_failed {p : Pair} (h : p.state = .failed) : p.validated.state = .failed := by
  have hc : ({ p with err := none, scode := 0, valid := true } : Pair).isCompleted :=
    Pair.isCompleted_iff.2 (.inl h)
  rw [Pair.validated, Pair.setState_of_completed _ hc]
  exact h

theorem SettledBut.makeValid {cp : Nat} (hl : Linked icem) (hs : SettledBut cp icem)
    (hst : (icem.pairs cp).state ≠ .failed) : Settled (icemCandpairMakeValid cp icem) where
  valid x hx := by
    by_cases hxc : x = cp
    · rw [hxc, makeValid_pairs_self]
      exact ⟨Pair.validated_valid _, state_validated hst⟩
    · rw [makeValid_pairs_ne hxc]
      exact hs.valid x (((mem_makeValid_validl hl).1 hx).resolve_left hxc) hxc
  check x hx := by
    obtain ⟨hxc, hx⟩ := (mem_makeValid_checkl hl).1 hx
    rw [makeValid_pairs_ne hxc]
    exact hs.check x hx hxc

/-! ## Success -/

def Tidy (icem : Icem) : Prop := Linked icem ∧ Settled icem

namespace Tidy

theorem progress (h : Tidy icem) (hp : Progress icem icem') : Tidy icem' := ⟨h.1.still hp.still, h.2.progress h.1 hp⟩

theorem makeValid (h : Tidy icem) {cp : Nat} (hcp : cp ∈ icem.checkl ++ icem.validl)
    (hst : (icem.pairs cp).state ≠ .failed) : Tidy (icemCandpairMakeValid cp icem) :=
  ⟨h.1.makeValid hcp, (h.2.but).makeValid h.1 hst⟩

theorem confirm (h : Tidy icem) {cp : Nat} (hcp : cp ∈ icem.validl) : Tidy (icem.confirm cp) := by
  refine Tidy.progress (h.makeValid (mem_append_right _ hcp) ?_) (progress_confirm cp icem)
  rw [(h.2.valid cp hcp).2]
  decide

theorem cloned (h : Tidy icem) {cp : Nat} (hcp : cp ∈ icem.validl) {lcand rcand : Cand}
    (hr : rcand ∈ icem.rcandl) : Tidy (icem.cloned cp lcand rcand) := by
  refine ⟨h.1.cloned hr, SettledBut.makeValid (h.1.clone hr) ⟨fun x hx hxn => ?_, fun x hx hxn => ?_⟩ ?_⟩
  · rw [clone_pairs_ne hxn]
    exact h.2.valid x hx
  · rw [clone_pairs_ne hxn]
    exact h.2.check x ((mem_listAddSorted.1 hx).resolve_left hxn)
  · rw [clone_pairs_self]
    simp [(h.2.valid cp hcp).2]

end Tidy

/-- **The check of a pair that has not failed succeeds.** -/
theorem tidy_handleSuccess (h : Tidy icem) {cp : Nat} (hcp : cp ∈ icem.checkl ++ icem.validl)
    (hst : (icem.pairs cp).state ≠ .failed) (laddr : Sdp.Sa) : Tidy (handleSuccess env cp laddr icem) := by
  have hw := h.progress (progress_withLcand env cp laddr icem)
  exact handleSuccess_inv h.1 hcp laddr (fun _ hcp => hw.makeValid hcp (by rwa [withLcand_pairs]))
    (fun _ hc h => h.confirm hc) fun _ hmem hr h => h.cloned hmem hr

/-! ## Success of a pair that has failed -/

def Stuck (cp : Nat) (icem : Icem) : Prop := cp ∈ icem.validl ∧ (icem.pairs cp).state = .failed

namespace Stuck

variable {cp : Nat}

theorem not_settled (h : Stuck cp icem) : ¬ Settled icem := by
  intro hs
  have := (hs.valid cp h.1).2
  rw [h.2] at this
  cases this

theorem progress (h : Stuck cp icem) (hp : Progress icem icem') : Stuck cp icem' := by
  refine ⟨hp.validl ▸ h.1, ?_⟩
  rw [(hp.moves cp).completed (Pair.isCompleted_iff.2 (.inl h.2))]
  exact h.2

theorem makeValid (hl : Linked icem) (h : Stuck cp icem) {x : Nat} : Stuck cp (icemCandpairMakeValid x icem) := by
  refine ⟨(mem_makeValid_validl hl).2 (.inr h.1), ?_⟩
  by_cases hx : cp = x
  · rw [hx, makeValid_pairs_self]
    exact state_validated_failed (hx ▸ h.2)
  · rw [makeValid_pairs_ne hx]
    exact h.2

theorem confirm (hl : Linked icem) (h : Stuck cp icem) (x : Nat) : Stuck cp (icem.confirm x) :=
  (h.makeValid hl).progress (progress_confirm x icem)

end Stuck

theorem stuck_makeValid (hl : Linked icem) {cp : Nat} (h : (icem.pairs cp).state = .failed) :
    Stuck cp (icemCandpairMakeValid cp icem) := by
  refine ⟨(mem_makeValid_validl hl).2 (.inl rfl), ?_⟩
  rw [makeValid_pairs_self]
  exact state_validated_failed h

/-- **The check of a failed pair succeeds**: it is in the valid list then, and has failed. -/
theorem stuck_handleSuccess (hl : Linked icem) {cp : Nat} (hcp : cp ∈ icem.checkl ++ icem.validl)
    (hst : (icem.pairs cp).state = .failed) {laddr : Sdp.Sa} : Stuck cp (handleSuccess env cp laddr icem) := by
  refine handleSuccess_inv hl hcp laddr (fun hw _ => stuck_makeValid hw (by rwa [withLcand_pairs]))
    (fun hl _ hs => hs.confirm hl _) fun {icem'} rcand hl _ hr hs => ?_
  have hclone : Stuck cp (icemCandpairClone cp (answerLcand env icem cp laddr) rcand icem').2 := by
    refine ⟨hs.1, ?_⟩
    rw [clone_pairs_ne (hl.fresh cp (mem_append_right _ hs.1)).ne]
    exact hs.2
  exact hclone.makeValid (hl.clone hr)

/-! ## Runs -/

def Verdict.Expected (icem : Icem) (cp : Nat) : Verdict → Prop
  | .success _ => (icem.pairs cp).state ≠ .failed
  | .conflict => True
  | .failure => cp ∉ icem.validl

instance (icem : Icem) (cp : Nat) : (v : Verdict) → Decidable (v.Expected icem cp)
  | .success _ => inferInstanceAs (Decidable ((icem.pairs cp).state ≠ .failed))
  | .conflict => .isTrue trivial
  | .failure => inferInstanceAs (Decidable (cp ∉ icem.validl))

def Expected (icem : Icem) : Op → Prop
  | .resp tid resp => ∀ cp ∈ transaction icem tid, resp.verdict.Expected icem cp
  | _ => True

instance (icem : Icem) : (op : Op) → Decidable (Expected icem op)
  | .resp tid resp => inferInstanceAs (Decidable (∀ cp ∈ transaction icem tid, resp.verdict.Expected icem cp))
  | .compAdd .. | .candAdd .. | .lcandAdd .. | .rcandAdd .. | .redundElim | .setRole _ | .lite | .start
  | .setStates | .pace | .cont | .recv .. | .stop _ | .update => .isTrue trivial

theorem Tidy.cancel (h : Tidy icem) (cp : Nat) : Tidy (icemCandpairCancel cp icem) := by
  refine ⟨h.1.still (.cancel cp icem), h.2.of_subset (fun _ h => h) (fun _ h => h) fun x => ⟨?_, ?_⟩⟩
  · exact set_pairs_proj Pair.valid rfl x
  · exact set_pairs_proj Pair.state rfl x

theorem Tidy.setRole (h : Tidy icem) {lite : Bool} {lrole : Role} : Tidy { icem with lite, lrole } :=
  ⟨h.1.still (.setRole icem lite lrole), ⟨h.2.valid, h.2.check⟩⟩

theorem Tidy.send (h : Tidy icem) {cp : Nat} (hcp : cp ∈ icem.checkl ++ icem.validl) {useCand : Bool} :
    Tidy (icemConncheckSend env cp useCand icem).2 := by
  have hmicro : Micro env icem (icemConncheckSend env cp useCand icem).2 := by
    refine .send icem cp useCand ((mem_append.1 hcp).imp_right fun hv => ⟨hv, ?_⟩)
    exact Pair.isCompleted_iff.2 (.inr (h.2.valid cp hv).2)
  exact h.progress hmicro.progress

/-- **An answer keeps the lists as they should be exactly if it is one to expect.** -/
theorem settled_handleResp (h : Tidy icem) {cp : Nat} (hcp : cp ∈ icem.checkl ++ icem.validl) (resp : Resp) :
    (resp.verdict.Expected icem cp → Tidy (stuncRespHandler env cp resp icem)) ∧
      (Settled (stuncRespHandler env cp resp icem) → resp.verdict.Expected icem cp) := by
  have hpace : ∀ icem, Progress icem (paceNext env icem) := fun icem => (micros_paceNext icem).progress
  unfold stuncRespHandler
  cases hv : resp.verdict with
  | success laddr =>
    rw [handleResp_success hv]
    refine ⟨fun hne => ?_, fun hs hf => ?_⟩
    · exact (tidy_handleSuccess h hcp hne laddr).progress (hpace _)
    · have hstuck : Stuck cp (handleSuccess env cp laddr icem) := stuck_handleSuccess h.1 hcp hf
      exact (hstuck.progress (hpace _)).not_settled hs
  | conflict =>
    rw [handleResp_conflict hv]
    have hswitch : Tidy (iceSwitchLocalRole icem) := h.setRole
    exact ⟨fun _ => (hswitch.send hcp).progress (hpace _), fun _ => trivial⟩
  | failure =>
    obtain ⟨err, scode, hf⟩ := handleResp_failure env icem hv cp
    rw [hf]
    refine ⟨fun hnot => ?_, fun hs hvl => ?_⟩
    · have hfail := Progress.failed ((mem_append.1 hcp).resolve_right hnot) err scode
      exact (h.progress hfail).progress (hpace _)
    have hp := hpace (icemCandpairFailed cp err scode icem)
    have := (hp.moves cp).valid (hs.valid cp (hp.validl ▸ hvl)).1
    rw [icemCandpairFailed, set_pairs_self] at this
    simp at this

theorem Verdict.expected_cancel (cp : Nat) (v : Verdict) :
    v.Expected (icemCandpairCancel cp icem) cp ↔ v.Expected icem cp := by
  cases v with
  | success laddr =>
    have hst : ((icemCandpairCancel cp icem).pairs cp).state = (icem.pairs cp).state := set_pairs_proj Pair.state rfl cp
    rw [Verdict.Expected, Verdict.Expected, hst]
  | conflict | failure => exact Iff.rfl

theorem settled_resp (h : Tidy icem) {tid : Nat} {resp : Resp} :
    (Expected icem (.resp tid resp) → Tidy (ctransCompleted env tid resp icem)) ∧
      (Settled (ctransCompleted env tid resp icem) → Expected icem (.resp tid resp)) := by
  show ((∀ cp ∈ transaction icem tid, resp.verdict.Expected icem cp) → _) ∧
    (_ → ∀ cp ∈ transaction icem tid, resp.verdict.Expected icem cp)
  unfold ctransCompleted
  cases htr : transaction icem tid with
  | none => exact ⟨fun _ => h, fun _ => nofun⟩
  | some cp =>
    have hcp : cp ∈ icem.checkl ++ icem.validl := transaction_mem htr
    have hresp := @settled_handleResp env _ (h.cancel cp) cp hcp resp
    rw [Verdict.expected_cancel] at hresp
    obtain ⟨hgood, hbad⟩ := hresp
    refine ⟨fun he => hgood (he cp rfl), fun hs c hc => ?_⟩
    cases hc
    exact hbad hs

/-! ### The other steps -/

theorem Tidy.alloc (h : Tidy icem) {lcand : Cand} {rcand : Cand} (hr : rcand ∈ icem.rcandl) :
    Tidy (icemCandpairAlloc lcand rcand icem).2 := by
  refine ⟨h.1.alloc lcand hr, ?_⟩
  unfold icemCandpairAlloc
  split
  · exact h.2
  refine ⟨fun x hx => ?_, fun x hx => ?_⟩
  · have hlt := h.1.fresh x (mem_append_right _ hx)
    dsimp only
    rw [Function.update_of_ne hlt.ne]
    exact h.2.valid x hx
  rcases mem_listAddSorted.1 hx with rfl | hx
  · dsimp only
    rw [Function.update_self]
    exact nofun
  have hlt := h.1.fresh x (mem_append_left _ hx)
  dsimp only
  rw [Function.update_of_ne hlt.ne]
  exact h.2.check x hx

theorem Tidy.order (h : Tidy icem) : Tidy (icemCandpairPrioOrder icem) := by
  refine ⟨h.1.order, h.2.of_subset (listSort_perm _).subset (fun _ h => h) fun cp => ?_⟩
  show (icemCandpairPrioOrder.pairs icem cp).valid = _ ∧ (icemCandpairPrioOrder.pairs icem cp).state = _
  unfold icemCandpairPrioOrder.pairs
  split <;> exact ⟨rfl, rfl⟩

theorem Tidy.prune (h : Tidy icem) : Tidy (candpairPrune icem) :=
  ⟨h.1.prune, h.2.of_subset (iceListUnique_sublist).subset (fun _ h => h) fun _ => ⟨rfl, rfl⟩⟩

theorem Tidy.purge (h : Tidy icem) {compid : UInt32} : Tidy (purgeRelayed compid icem) :=
  ⟨h.1.purge compid, h.2.of_subset filter_sublist.subset filter_sublist.subset fun _ => ⟨rfl, rfl⟩⟩

theorem settled_step (h : Tidy icem) {op : Op} :
    (Expected icem op → Tidy (icem.step env op).1) ∧ (Settled (icem.step env op).1 → Expected icem op) := by
  cases op with
  | resp tid resp => exact settled_resp h
  | setRole | lite => exact ⟨fun _ => h.setRole, fun _ => trivial⟩
  | start =>
    exact ⟨fun _ => icemConncheckStart_inv (fun _ lcand _ h hr => h.alloc hr) (fun _ h => h.order)
      (fun _ h => h.prune) (fun icem _ _ h => h.progress (.book icem _ _ _ _ _)) h, fun _ => trivial⟩
  | recv compid src req =>
    refine ⟨fun _ => ?_, fun _ => trivial⟩
    unfold Icem.step
    dsimp only
    split
    · refine Tidy.progress ?_ (softs_icemStundRecv compid src req icem).micros.progress
      split
      · exact h.setRole
      · exact h
    · exact h
  | stop err =>
    exact ⟨fun _ => icemConncheckStop_inv (fun _ _ h hp => h.progress hp) (fun _ cp h => h.cancel cp) err h,
      fun _ => trivial⟩
  | update => exact ⟨fun _ => icemUpdate_inv (fun _ compid h => h.purge) h, fun _ => trivial⟩
  | compAdd | candAdd | lcandAdd | rcandAdd | redundElim | setStates | pace | cont =>
    exact ⟨fun _ => h.progress (micros_step _ rfl icem).progress, fun _ => trivial⟩

theorem tidy_init {full udp chkh : Bool} {role : Role} {tiebrk : UInt64} {lufrag lpwd : Bytes}
    (h : icemAlloc full udp role tiebrk lufrag lpwd chkh = .ok icem) : Tidy icem := by
  obtain ⟨hc, hv, -⟩ := icemAlloc_ok h
  refine ⟨linked_init h, ?_, ?_⟩ <;> simp [hc, hv]

/-- **The lists are as they should be after every step of a run exactly if every answer is one to
expect.** -/
theorem settled_iff (env : Env) {full udp chkh : Bool} {role : Role} {tiebrk : UInt64} {lufrag lpwd : Bytes}
    (h : icemAlloc full udp role tiebrk lufrag lpwd chkh = .ok icem) (ops : List Op) :
    Along (Icem.step env) (fun icem op => Settled (icem.step env op).1) icem ops ↔
      Along (Icem.step env) Expected icem ops :=
  along_iff_of_ok (fun _ _ ht he => (settled_step ht).1 he)
    (fun _ _ ht => ⟨(settled_step ht).2, fun he => ((settled_step ht).1 he).2⟩) ops icem (tidy_init h)

theorem settled_iff_nominated : ∃ icem,
    icemAlloc true true .controlling 1 (List.replicate 4 97) (List.replicate 22 97) true = .ok icem ∧
    Along (Icem.step .lossless) (fun icem op => Settled (icem.step .lossless op).1) icem
      (onePair ++ [.resp 0 ⟨none, 0, some ⟨.inet 1, 5000⟩⟩, .resp 1 ⟨none, 0, some ⟨.inet 1, 5000⟩⟩]) :=
  have h : icemAlloc true true .controlling 1 (List.replicate 4 97) (List.replicate 22 97) true = .ok _ := rfl
  ⟨_, h, (settled_iff .lossless h _).2 (by decide +kernel)⟩

/-- The check is not answered and the pair fails; then the other side sends its own check for the
pair, and the check that this triggers succeeds. -/
theorem failed_pair_valid : ∃ icem,
    icemAlloc true true .controlling 1 (List.replicate 4 97) (List.replicate 22 97) true = .ok icem ∧
    ¬ Settled (exec (Icem.step .lossless) icem (onePair ++ [.resp 0 ⟨some .ETIMEDOUT, 0, none⟩,
      .recv 1 ⟨.inet 2, 5000⟩ ⟨.ok, some 2, none, some 7, false⟩,
      .resp 1 ⟨none, 0, some ⟨.inet 1, 5000⟩⟩])) :=
  ⟨_, rfl, by decide +kernel⟩

end BareRTC.Ice
