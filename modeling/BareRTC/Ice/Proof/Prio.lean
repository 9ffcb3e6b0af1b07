import BareRTC.Ice.Proof.Linked

/-!
# The order of the pairs

Both lists are to be in the order of the pair priority, and each pair is to have the priority that
its candidates have for the role the agent is in (`Ordered`). The priority is computed when a pair
is made and stored. It is not computed again when the role changes, and a pair that is found by an
answer has that of the pair that was checked. So the pairs are in order exactly as long as the role
changes only while both candidates of every pair have the same priority, and the pairs that are
found have that of the pair that was checked (`ordered_iff`).
-/

namespace BareRTC.Ice

open List

variable {env : Env} {icem icem' : Icem} {rcand lcand : Cand} {laddr : Sdp.Sa}

/-- The priority of a pair depends on which candidate is whose, unless both have the same
priority. -/
theorem iceCalcPairPrio_comm {g d : UInt32} : iceCalcPairPrio g d = iceCalcPairPrio d g ↔ g = d := by
  refine ⟨fun h => ?_, fun h => by rw [h]⟩
  have hmin : min g d = min d g := by
    rw [UInt32.min_def, UInt32.min_def]
    grind
  have hmax : max g d = max d g := by
    rw [UInt32.max_def, UInt32.max_def]
    grind
  rw [iceCalcPairPrio, iceCalcPairPrio, hmin, hmax] at h
  have hbit : (if d < g then (1 : UInt64) else 0) = if g < d then 1 else 0 := (UInt64.add_right_inj _).1 h
  by_cases hlt : g < d
  · rw [if_neg (UInt32.lt_asymm hlt), if_pos hlt] at hbit
    cases hbit
  by_cases hgt : d < g
  · rw [if_pos hgt, if_neg hlt] at hbit
    cases hbit
  · exact UInt32.le_antisymm (UInt32.not_lt.1 hgt) (UInt32.not_lt.1 hlt)

theorem pairPrio_eq {role role' : Role} {l r : Cand} :
    pairPrio role l r = pairPrio role' l r ↔ (role = .controlling ↔ role' = .controlling) ∨ l.prio = r.prio := by
  unfold pairPrio
  by_cases h : role = .controlling <;> by_cases h' : role' = .controlling
  · simp [h, h']
  · rw [if_pos h, if_neg h', iceCalcPairPrio_comm]
    simp [h, h']
  · rw [if_neg h, if_pos h', iceCalcPairPrio_comm]
    simp [h, h', eq_comm]
  · simp [h, h']

/-! ## Order -/

@[mk_iff]
structure OrderedFor (role : Role) (icem : Icem) : Prop where
  pprio : ∀ cp ∈ icem.checkl ++ icem.validl,
    (icem.pairs cp).pprio = pairPrio role (icem.pairs cp).lcand (icem.pairs cp).rcand
  checkl : Sorted icem.pairs icem.checkl
  validl : Sorted icem.pairs icem.validl

def Ordered (icem : Icem) : Prop := OrderedFor icem.lrole icem

instance (icem : Icem) : Decidable (Ordered icem) := decidable_of_iff _ (orderedFor_iff icem.lrole icem).symm

def Flat (icem : Icem) : Prop := ∀ cp ∈ icem.checkl ++ icem.validl,
  (icem.pairs cp).lcand.prio = (icem.pairs cp).rcand.prio

instance (icem : Icem) : Decidable (Flat icem) := inferInstanceAs (Decidable (∀ cp ∈ icem.checkl ++ icem.validl, _))

namespace OrderedFor

variable {role : Role}

theorem congr (h : OrderedFor role icem) (hmem : icem'.checkl ++ icem'.validl ⊆ icem.checkl ++ icem.validl)
    (hc : Sorted icem.pairs icem'.checkl) (hv : Sorted icem.pairs icem'.validl)
    (hp : ∀ cp, (icem'.pairs cp).lcand = (icem.pairs cp).lcand ∧ (icem'.pairs cp).rcand = (icem.pairs cp).rcand ∧
      (icem'.pairs cp).pprio = (icem.pairs cp).pprio) : OrderedFor role icem' where
  pprio cp hcp := by
    obtain ⟨hl, hr, hpp⟩ := hp cp
    rw [hl, hr, hpp]
    exact h.pprio cp (hmem hcp)
  checkl := hc.congr fun cp _ => (hp cp).2.2
  validl := hv.congr fun cp _ => (hp cp).2.2

theorem still_iff (hs : Still icem icem') : OrderedFor role icem' ↔ OrderedFor role icem := by
  simp only [orderedFor_iff, Sorted, hs.checkl, hs.validl, hs.lcand, hs.rcand, hs.pprio]

section
variable (h : OrderedFor role icem) {cp : Nat}
include h

theorem still (hs : Still icem icem') : OrderedFor role icem' := (still_iff hs).2 h

theorem iff_of_role {role' : Role} :
    OrderedFor role' icem ↔ (role' = .controlling ↔ role = .controlling) ∨ Flat icem := by
  constructor
  · intro h'
    by_cases hr : role' = .controlling ↔ role = .controlling
    · exact .inl hr
    refine .inr fun cp hcp => ?_
    have heq := (h'.pprio cp hcp).symm.trans (h.pprio cp hcp)
    exact (pairPrio_eq.1 heq).resolve_left hr
  intro hr
  refine ⟨fun cp hcp => ?_, h.checkl, h.validl⟩
  rw [h.pprio cp hcp, pairPrio_eq]
  exact hr.imp (fun h => h.symm) fun hf => hf cp hcp

theorem makeValid (hl : Linked icem)
    (hcp : cp ∈ icem.checkl ++ icem.validl) : OrderedFor role (icemCandpairMakeValid cp icem) where
  pprio x hx := by
    rw [makeValid_lcand, makeValid_rcand, makeValid_pprio]
    exact h.pprio x ((hl.perm_makeValid hcp).subset hx)
  checkl := by
    have hs : Sorted icem.pairs (icem.checkl.erase cp) := h.checkl.sublist erase_sublist
    exact hs.congr fun x _ => makeValid_pprio cp x icem
  validl := by
    have hs : Sorted icem.pairs (icem.validl.erase cp) := h.validl.sublist erase_sublist
    have hs' : Sorted (icem.set cp Pair.validated).pairs (icem.validl.erase cp) :=
      hs.congr fun x _ => makeValid_pprio cp x icem
    exact sorted_listAddSorted hs'

theorem confirm (hl : Linked icem) (hcp : cp ∈ icem.validl) : OrderedFor role (icem.confirm cp) :=
  (h.makeValid hl (mem_append_right _ hcp)).still (progress_confirm cp icem).still

theorem add (hl : Linked icem) {p : Pair} (hp : p.pprio = pairPrio role p.lcand p.rcand) :
    OrderedFor role { icem with
      pairs := Function.update icem.pairs icem.allocs p, allocs := icem.allocs + 1,
      checkl := listAddSorted (Function.update icem.pairs icem.allocs p) icem.allocs icem.checkl } := by
  have hne : ∀ x ∈ icem.checkl ++ icem.validl, Function.update icem.pairs icem.allocs p x = icem.pairs x :=
    fun x hx => Function.update_of_ne (hl.fresh x hx).ne ..
  refine ⟨fun x hx => ?_, sorted_listAddSorted (h.checkl.congr fun x hx => ?_), h.validl.congr fun x hx => ?_⟩
  · rcases mem_cons.1 (((listAddSorted_perm).append_right _).subset hx) with rfl | hx
    · simpa using hp
    · dsimp only
      rw [hne x hx]
      exact h.pprio x hx
  · dsimp only
    rw [hne x (mem_append_left _ hx)]
  · dsimp only
    rw [hne x (mem_append_right _ hx)]

theorem cloned (hl : Linked icem) (hr : rcand ∈ icem.rcandl) (hp : (icem.pairs cp).pprio = pairPrio role lcand rcand) :
    OrderedFor role (icem.cloned cp lcand rcand) := by
  have hadd : OrderedFor role (icemCandpairClone cp lcand rcand icem).2 := h.add hl hp
  exact hadd.makeValid (hl.clone hr) (mem_append_left _ (mem_listAddSorted.2 (.inl rfl)))

end

end OrderedFor

def Wrong (role : Role) (cp : Nat) (icem : Icem) : Prop := cp ∈ icem.checkl ++ icem.validl ∧
  (icem.pairs cp).pprio ≠ pairPrio role (icem.pairs cp).lcand (icem.pairs cp).rcand

namespace Wrong

variable {role : Role} {cp : Nat}

theorem not_ordered (h : Wrong role cp icem) : ¬ OrderedFor role icem := fun ho => h.2 (ho.pprio cp h.1)

theorem still (h : Wrong role cp icem) (hs : Still icem icem') : Wrong role cp icem' := by
  unfold Wrong
  rw [hs.checkl, hs.validl, hs.lcand, hs.rcand, hs.pprio]
  exact h

theorem confirm (h : Wrong role cp icem) (hl : Linked icem) {c : Nat} (hc : c ∈ icem.validl) :
    Wrong role cp (icem.confirm c) := by
  have hv : Wrong role cp (icemCandpairMakeValid c icem) := by
    refine ⟨(hl.perm_makeValid (mem_append_right _ hc)).symm.subset h.1, ?_⟩
    rw [makeValid_lcand, makeValid_rcand, makeValid_pprio]
    exact h.2
  exact hv.still (progress_confirm c icem).still

end Wrong

theorem wrong_cloned (hl : Linked icem) {cp : Nat} (hr : rcand ∈ icem.rcandl) {role : Role}
    (hp : (icem.pairs cp).pprio ≠ pairPrio role lcand rcand) :
    Wrong role icem.allocs (icem.cloned cp lcand rcand) := by
  refine ⟨mem_append_right _ ((mem_cloned_validl hl hr).2 (.inl rfl)), ?_⟩
  rw [Icem.cloned, makeValid_pairs_self, clone_pairs_self]
  simpa using hp

/-! ## Answers -/

def Fits (env : Env) (icem : Icem) (cp : Nat) (laddr : Sdp.Sa) : Prop :=
  let lcand := answerLcand env icem cp laddr
  let rcand := answerRcand icem cp
  (lcand.id = (icem.pairs cp).lcand.id ∧ rcand.id = (icem.pairs cp).rcand.id) ∨
    (∃ c ∈ icem.validl, (icem.pairs c).lcand.id = lcand.id ∧ (icem.pairs c).rcand.id = rcand.id) ∨
    (icem.pairs cp).pprio = pairPrio icem.lrole lcand rcand

instance (env : Env) (icem : Icem) (cp : Nat) (laddr : Sdp.Sa) : Decidable (Fits env icem cp laddr) :=
  inferInstanceAs (Decidable (_ ∨ _ ∨ _))

theorem find_none_iff {cp : Nat} (hl : Linked icem) (hcp : cp ∈ icem.checkl ++ icem.validl)
    (hid : (answerLcand env icem cp laddr).id ≠ (icem.pairs cp).lcand.id ∨
      (answerRcand icem cp).id ≠ (icem.pairs cp).rcand.id)
    (h' : icemCandpairMakeValid cp (withLcand env cp laddr icem) = icem') :
    icemCandpairFind icem'.pairs icem'.validl (some (answerLcand env icem cp laddr))
        (some (answerRcand icem cp)) = none ↔
      ¬ ∃ c ∈ icem.validl, (icem.pairs c).lcand.id = (answerLcand env icem cp laddr).id ∧
        (icem.pairs c).rcand.id = (answerRcand icem cp).id := by
  obtain ⟨hw, -, -, -⟩ := confirmed env hl hcp laddr
  subst h'
  have hvalidl := (progress_withLcand env cp laddr icem).validl
  unfold icemCandpairFind
  rw [find?_eq_none]
  simp only [mem_makeValid_validl hw, hvalidl, makeValid_lcand, makeValid_rcand, withLcand_pairs, Option.mem_some_iff, forall_eq', decide_eq_true_eq,
    forall_eq_or_imp, not_exists, not_and]
  constructor
  · rintro ⟨-, h⟩ c hc
    exact h c hc
  intro h
  refine ⟨fun h1 h2 => ?_, h⟩
  rcases hid with hid | hid
  · exact hid h1.symm
  · exact hid h2.symm

/-- **An answer that confirms a check** keeps the order exactly if the pair fits. -/
theorem ordered_handleSuccess (hl : Linked icem) (ho : Ordered icem) {cp : Nat}
    (hcp : cp ∈ icem.checkl ++ icem.validl) (laddr : Sdp.Sa) :
    OrderedFor icem.lrole (handleSuccess env cp laddr icem) ↔ Fits env icem cp laddr := by
  obtain ⟨hw, hcp', hmem, hr⟩ := confirmed env hl hcp laddr
  have hv := hw.makeValid hcp'
  have hov := (ho.still (progress_withLcand env cp laddr icem).still).makeValid hw hcp'
  rcases handleSuccess_cases hl hcp laddr rfl with ⟨h, hid⟩ | ⟨hid, ⟨c, hc, h⟩ | ⟨hnone, h⟩⟩
  · rw [h]
    exact iff_of_true (hov.confirm hv hmem) (.inl hid)
  · rw [h]
    refine iff_of_true (hov.confirm hv (mem_of_find?_eq_some hc)) (.inr (.inl ?_))
    by_contra hno
    rw [(find_none_iff hl hcp hid rfl).2 hno] at hc
    cases hc
  have hpp : ((icemCandpairMakeValid cp (withLcand env cp laddr icem)).pairs cp).pprio = (icem.pairs cp).pprio := by
    rw [makeValid_pprio, withLcand_pairs]
  rw [h]
  constructor
  · intro hord
    refine .inr (.inr ?_)
    by_contra hne
    have hwrong := wrong_cloned hv hr (by rwa [hpp])
    exact (hwrong.confirm (hv.cloned hr) ((mem_cloned_validl hv hr).2 (.inl rfl))).not_ordered hord
  rintro (hid' | hex | heq)
  · exact absurd hid (by simp [hid'])
  · exact absurd hex ((find_none_iff hl hcp hid rfl).1 hnone)
  · exact (hov.cloned hv hr (hpp.trans heq)).confirm (hv.cloned hr) ((mem_cloned_validl hv hr).2 (.inl rfl))

theorem fits_cancel {cp : Nat} : Fits env (icemCandpairCancel cp icem) cp laddr ↔ Fits env icem cp laddr := by
  have hs := Still.cancel cp icem
  have hl : answerLcand env (icemCandpairCancel cp icem) cp laddr = answerLcand env icem cp laddr :=
    answerLcand_cancel cp laddr
  have hr : answerRcand (icemCandpairCancel cp icem) cp = answerRcand icem cp := by
    unfold answerRcand
    rw [hs.rcand]
    rfl
  unfold Fits
  simp only [hl, hr, hs.lcand, hs.rcand, hs.pprio, hs.validl]
  rfl

/-! ## Runs -/

def Keeps (icem : Icem) (role : Role) : Prop := (role = .controlling ↔ icem.lrole = .controlling) ∨ Flat icem

instance (icem : Icem) (role : Role) : Decidable (Keeps icem role) := inferInstanceAs (Decidable (_ ∨ _))

def Verdict.Steady (env : Env) (icem : Icem) (cp : Nat) : Verdict → Prop
  | .success laddr => Fits env icem cp laddr
  | .conflict => Flat icem
  | .failure => True

instance (env : Env) (icem : Icem) (cp : Nat) : (v : Verdict) → Decidable (v.Steady env icem cp)
  | .success laddr => inferInstanceAs (Decidable (Fits env icem cp laddr))
  | .conflict => inferInstanceAs (Decidable (Flat icem))
  | .failure => .isTrue trivial

def Steady (env : Env) (icem : Icem) : Op → Prop
  | .setRole role => Keeps icem (if icem.lite then .controlling else role)
  | .lite => Keeps icem .controlling
  | .recv compid _ req => (icemCompFind icem compid).isSome → req.switches icem → Flat icem
  | .resp tid resp => ∀ cp ∈ transaction icem tid, resp.verdict.Steady env icem cp
  | _ => True

instance (env : Env) (icem : Icem) : (op : Op) → Decidable (Steady env icem op)
  | .setRole role => inferInstanceAs (Decidable (Keeps icem (if icem.lite then .controlling else role)))
  | .lite => inferInstanceAs (Decidable (Keeps icem .controlling))
  | .recv compid _ req =>
    inferInstanceAs (Decidable ((icemCompFind icem compid).isSome → req.switches icem → Flat icem))
  | .resp tid resp => inferInstanceAs (Decidable (∀ cp ∈ transaction icem tid, resp.verdict.Steady env icem cp))
  | .compAdd .. | .candAdd .. | .lcandAdd .. | .rcandAdd .. | .redundElim | .start
  | .setStates | .pace | .cont | .stop _ | .update => .isTrue trivial

theorem ordered_progress (hp : Progress icem icem') : Ordered icem' ↔ Ordered icem := by
  unfold Ordered
  rw [hp.lrole]
  exact OrderedFor.still_iff hp.still

theorem ordered_role (ho : Ordered icem) (hs : Still icem icem') : Ordered icem' ↔ Keeps icem icem'.lrole :=
  (OrderedFor.still_iff hs).trans ho.iff_of_role

theorem keeps_switch : Keeps icem (iceSwitchLocalRole icem).lrole ↔ Flat icem := by
  unfold Keeps iceSwitchLocalRole
  refine or_iff_right fun h => ?_
  by_cases hr : icem.lrole = .controlling <;> simp [hr] at h

theorem ordered_handleResp (hl : Linked icem) (ho : Ordered icem) {cp : Nat}
    (hcp : cp ∈ icem.checkl ++ icem.validl) (resp : Resp) :
    Ordered (stuncRespHandler env cp resp icem) ↔ resp.verdict.Steady env icem cp := by
  refine (ordered_progress (micros_paceNext _).progress).trans ?_
  cases hv : resp.verdict with
  | success laddr =>
    rw [handleResp_success hv, Ordered, handleSuccess_lrole hl hcp]
    exact ordered_handleSuccess hl ho hcp laddr
  | conflict =>
    rw [handleResp_conflict hv]
    rw [ordered_role ho ((Still.switch icem).trans (.send env cp false _)), send_lrole]
    exact keeps_switch
  | failure =>
    obtain ⟨err, scode, hf⟩ := handleResp_failure env icem hv cp
    rw [hf]
    exact iff_of_true (ho.still (.failed cp err scode icem)) trivial

theorem Flat.still_iff (hs : Still icem icem') : Flat icem' ↔ Flat icem := by
  unfold Flat
  simp only [hs.checkl, hs.validl, hs.lcand, hs.rcand]

theorem Verdict.steady_cancel (cp : Nat) (v : Verdict) :
    v.Steady env (icemCandpairCancel cp icem) cp ↔ v.Steady env icem cp := by
  cases v with
  | success laddr => exact fits_cancel
  | conflict => exact Flat.still_iff (.cancel cp icem)
  | failure => exact Iff.rfl

theorem ordered_resp (hl : Linked icem) (ho : Ordered icem) {tid : Nat} (resp : Resp) :
    Ordered (ctransCompleted env tid resp icem) ↔ Steady env icem (.resp tid resp) := by
  show _ ↔ ∀ cp ∈ transaction icem tid, resp.verdict.Steady env icem cp
  unfold ctransCompleted
  cases htr : transaction icem tid with
  | none => exact iff_of_true ho nofun
  | some cp =>
    have hcp : cp ∈ icem.checkl ++ icem.validl := transaction_mem htr
    have hc := Still.cancel cp icem
    rw [ordered_handleResp (hl.still hc) (ho.still hc) hcp, Verdict.steady_cancel]
    simp

variable {compid : UInt32}

theorem ordered_recv (ho : Ordered icem) (src : Sdp.Sa) (req : BindReq) :
    Ordered (icemStundRecv env compid src req icem).2 ↔ (req.switches icem → Flat icem) := by
  have hm : Micros env _ (icemStundRecv env compid src req icem).2 := (softs_icemStundRecv compid src req icem).micros
  rw [ordered_progress hm.progress]
  split
  · rename_i h
    rw [ordered_role ho (.switch icem), keeps_switch, forall_prop_of_true h]
  · rename_i h
    exact iff_of_true ho fun hs => absurd hs h

/-! ### The other steps -/

def InOrder (icem : Icem) : Prop := Linked icem ∧ Ordered icem

namespace InOrder

section
variable (h : InOrder icem)
include h

theorem progress (hp : Progress icem icem') : InOrder icem' := ⟨h.1.still hp.still, (ordered_progress hp).2 h.2⟩

theorem cancel {cp : Nat} : InOrder (icemCandpairCancel cp icem) :=
  ⟨h.1.still (.cancel cp icem), h.2.still (.cancel cp icem)⟩

theorem alloc (hr : rcand ∈ icem.rcandl) : InOrder (icemCandpairAlloc lcand rcand icem).2 := by
  refine ⟨h.1.alloc lcand hr, ?_⟩
  unfold icemCandpairAlloc
  split
  · exact h.2
  · exact h.2.add h.1 rfl

theorem order_eq : icemCandpairPrioOrder icem = icem := by
  have hpairs : icemCandpairPrioOrder.pairs icem = icem.pairs := by
    funext cp
    unfold icemCandpairPrioOrder.pairs
    split
    · rename_i hcp
      rw [candpairSetPprio, ← h.2.pprio cp (mem_append_left _ hcp)]
    · rfl
  have hsort : listSort (icemCandpairPrioOrder.sortHandler icem) icem.checkl = icem.checkl := by
    refine listSort_of_pairwise (h.2.checkl.imp fun hab => ?_)
    simpa [icemCandpairPrioOrder.sortHandler, hpairs] using hab
  rw [icemCandpairPrioOrder, hpairs, hsort]

theorem prune : InOrder (candpairPrune icem) :=
  have hsub : (candpairPrune icem).checkl.Sublist icem.checkl := iceListUnique_sublist
  ⟨h.1.prune, h.2.congr (hsub.append_right _).subset (h.2.checkl.sublist hsub) h.2.validl fun _ => ⟨rfl, rfl, rfl⟩⟩

theorem purge : InOrder (purgeRelayed compid icem) :=
  ⟨h.1.purge compid, h.2.congr (filter_sublist.append filter_sublist).subset
    (h.2.checkl.sublist filter_sublist) (h.2.validl.sublist filter_sublist) fun _ => ⟨rfl, rfl, rfl⟩⟩

end

end InOrder

theorem ordered_step (h : InOrder icem) {op : Op} : Ordered (icem.step env op).1 ↔ Steady env icem op := by
  cases op with
  | setRole role => exact ordered_role h.2 (.setRole icem icem.lite _)
  | lite => exact ordered_role h.2 (.setRole icem true _)
  | resp tid resp => exact ordered_resp h.1 h.2 resp
  | recv compid src req =>
    show Ordered (icem.step env (.recv compid src req)).1 ↔
      ((icemCompFind icem compid).isSome → req.switches icem → Flat icem)
    unfold Icem.step
    dsimp only
    split
    · rename_i hcomp
      rw [ordered_recv h.2, forall_prop_of_true hcomp]
    · rename_i hcomp
      exact iff_of_true h.2 fun hc => absurd hc hcomp
  | start =>
    refine iff_of_true (icemConncheckStart_inv (P := InOrder) (fun _ lcand _ h hr => h.alloc hr) (fun _ h => ?_)
      (fun _ h => h.prune) (fun icem _ _ h => h.progress (.book icem _ _ _ _ _)) h).2 trivial
    rw [h.order_eq]
    exact h
  | stop err =>
    exact iff_of_true (icemConncheckStop_inv (P := InOrder) (fun _ _ h hp => h.progress hp)
      (fun _ cp h => h.cancel) err h).2 trivial
  | update => exact iff_of_true (icemUpdate_inv (P := InOrder) (fun _ compid h => h.purge) h).2 trivial
  | compAdd | candAdd | lcandAdd | rcandAdd | redundElim | setStates | pace | cont =>
    exact iff_of_true (h.progress (micros_step _ rfl icem).progress).2 trivial

theorem inOrder_init {full udp chkh : Bool} {role : Role} {tiebrk : UInt64} {lufrag lpwd : Bytes}
    (h : icemAlloc full udp role tiebrk lufrag lpwd chkh = .ok icem) : InOrder icem := by
  obtain ⟨hc, hv, -⟩ := icemAlloc_ok h
  refine ⟨linked_init h, ?_, ?_, ?_⟩ <;> simp [hc, hv, Sorted]

end BareRTC.Ice
