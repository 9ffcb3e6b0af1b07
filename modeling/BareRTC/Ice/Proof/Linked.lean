import BareRTC.Ice.Proof.Lists
import BareRTC.Ice.Proof.Steps

/-!
# Pairs and lists

A pair is in one place of one of the two lists (`Linked`), after every call and event
(`linked_step`). The calls that make, move or remove pairs are taken apart here: an answer that
confirms a pair (`handleSuccess_cases`), the forming of the check list (`icemConncheckStart_inv`),
the purge of pairs (`icemUpdate_inv`).
-/

namespace BareRTC.Ice

open List

variable {env : Env} {icem : Icem}
  {resp : Resp} (compid : UInt32) (p : Pair) {icem' : Icem} {full udp chkh : Bool} {lufrag lpwd : Bytes}
  {tiebrk : UInt64} {req : BindReq} {src : Sdp.Sa} {role : Role}

def Pair.validated (p : Pair) : Pair := { p with err := none, scode := 0, valid := true }.setState .succeeded

theorem makeValid_pairs (cp : Nat) :
    (icemCandpairMakeValid cp icem).pairs = (icem.set cp Pair.validated).pairs := rfl

theorem makeValid_pairs_self (cp : Nat) :
    (icemCandpairMakeValid cp icem).pairs cp = (icem.pairs cp).validated := by rw [makeValid_pairs, set_pairs_self]

theorem makeValid_pairs_ne {cp cp' : Nat} (h : cp' ≠ cp) :
    (icemCandpairMakeValid cp icem).pairs cp' = icem.pairs cp' := by rw [makeValid_pairs, set_pairs_ne _ h]

@[simp] theorem Pair.validated_lcand : p.validated.lcand = p.lcand := by simp [Pair.validated]
@[simp] theorem Pair.validated_rcand : p.validated.rcand = p.rcand := by simp [Pair.validated]
@[simp] theorem Pair.validated_pprio : p.validated.pprio = p.pprio := by simp [Pair.validated]
@[simp] theorem Pair.validated_valid : p.validated.valid := by simp [Pair.validated]

section
variable (cp x : Nat) (icem : Icem)

theorem makeValid_proj {β : Type} {g : Pair → β} (hg : ∀ p : Pair, g p.validated = g p) :
    g ((icemCandpairMakeValid cp icem).pairs x) = g (icem.pairs x) := by
  rw [makeValid_pairs]
  exact set_pairs_proj g (hg _) x

theorem makeValid_lcand : ((icemCandpairMakeValid cp icem).pairs x).lcand = (icem.pairs x).lcand :=
  makeValid_proj cp x icem Pair.validated_lcand

theorem makeValid_rcand : ((icemCandpairMakeValid cp icem).pairs x).rcand = (icem.pairs x).rcand :=
  makeValid_proj cp x icem Pair.validated_rcand

theorem makeValid_pprio : ((icemCandpairMakeValid cp icem).pairs x).pprio = (icem.pairs x).pprio :=
  makeValid_proj cp x icem Pair.validated_pprio

end

structure Linked (icem : Icem) : Prop where
  nodup : (icem.checkl ++ icem.validl).Nodup
  fresh : ∀ cp ∈ icem.checkl ++ icem.validl, cp < icem.allocs
  rcand : ∀ cp ∈ icem.checkl ++ icem.validl, (icem.pairs cp).rcand ∈ icem.rcandl

namespace Linked

section
variable (h : Linked icem) {cp : Nat}
include h

theorem not_mem_checkl (hcp : cp ∈ icem.validl) : cp ∉ icem.checkl := fun hc => disjoint_of_nodup_append h.nodup hc hcp

theorem still (hp : Still icem icem') : Linked icem' where
  nodup := by
    rw [hp.checkl, hp.validl]
    exact h.nodup
  fresh cp hcp := by
    rw [hp.checkl, hp.validl] at hcp
    exact (h.fresh cp hcp).trans_le hp.allocs
  rcand cp hcp := by
    rw [hp.checkl, hp.validl] at hcp
    rw [hp.rcand]
    exact hp.rcandl (h.rcand cp hcp)

theorem of_subperm
    (hl : (icem'.checkl ++ icem'.validl).Subperm (icem.checkl ++ icem.validl)) (ha : icem'.allocs = icem.allocs)
    (hr : icem'.rcandl = icem.rcandl) (hp : ∀ cp, (icem'.pairs cp).rcand = (icem.pairs cp).rcand) :
    Linked icem' where
  nodup := by
    obtain ⟨l, hperm, hsub⟩ := hl
    exact hperm.nodup_iff.1 (h.nodup.sublist hsub)
  fresh cp hcp := ha ▸ h.fresh cp (hl.subset hcp)
  rcand cp hcp := by
    rw [hr, hp]
    exact h.rcand cp (hl.subset hcp)

theorem add {p : Pair} (hp : p.rcand ∈ icem.rcandl) {pairs : Nat → Pair} :
    Linked { icem with pairs := Function.update icem.pairs icem.allocs p, allocs := icem.allocs + 1,
                       checkl := listAddSorted pairs icem.allocs icem.checkl } := by
  have hperm : (listAddSorted pairs icem.allocs icem.checkl ++ icem.validl).Perm
      (icem.allocs :: (icem.checkl ++ icem.validl)) := (listAddSorted_perm).append_right _
  have hnew : icem.allocs ∉ icem.checkl ++ icem.validl := fun hm => (h.fresh _ hm).false
  refine ⟨hperm.nodup_iff.2 (nodup_cons.2 ⟨hnew, h.nodup⟩), fun cp hcp => ?_, fun cp hcp => ?_⟩
  · rcases mem_cons.1 (hperm.mem_iff.1 hcp) with rfl | hcp
    · exact Nat.lt_succ_self _
    · exact (h.fresh cp hcp).trans (Nat.lt_succ_self _)
  rcases mem_cons.1 (hperm.mem_iff.1 hcp) with rfl | hcp
  · simpa using hp
  dsimp only
  rw [Function.update_of_ne (h.fresh cp hcp).ne]
  exact h.rcand cp hcp

theorem perm_makeValid (hcp : cp ∈ icem.checkl ++ icem.validl) :
    ((icemCandpairMakeValid cp icem).checkl ++ (icemCandpairMakeValid cp icem).validl).Perm
      (icem.checkl ++ icem.validl) := by
  refine ((listAddSorted_perm).append_left _).trans (perm_middle.trans ?_)
  show (cp :: (icem.checkl.erase cp ++ icem.validl.erase cp)).Perm _
  by_cases hc : cp ∈ icem.checkl
  · have hv : cp ∉ icem.validl := disjoint_of_nodup_append h.nodup hc
    rw [erase_of_not_mem hv]
    exact (perm_cons_erase hc).symm.append_right _
  have hv : cp ∈ icem.validl := (mem_append.1 hcp).resolve_left hc
  rw [erase_of_not_mem hc]
  exact perm_middle.symm.trans ((perm_cons_erase hv).symm.append_left _)

theorem makeValid (hcp : cp ∈ icem.checkl ++ icem.validl) : Linked (icemCandpairMakeValid cp icem) :=
  h.of_subperm (h.perm_makeValid hcp).subperm rfl rfl fun cp' => makeValid_rcand cp cp' icem

end

end Linked

theorem mem_makeValid_validl {cp x : Nat} (hl : Linked icem) :
    x ∈ (icemCandpairMakeValid cp icem).validl ↔ x = cp ∨ x ∈ icem.validl := by
  have hnd := (nodup_append.1 hl.nodup).2.1
  show x ∈ listAddSorted _ cp (icem.validl.erase cp) ↔ _
  rw [mem_listAddSorted, hnd.mem_erase_iff]
  by_cases h : x = cp <;> simp [h]

theorem mem_makeValid_checkl {cp x : Nat} (hl : Linked icem) :
    x ∈ (icemCandpairMakeValid cp icem).checkl ↔ x ≠ cp ∧ x ∈ icem.checkl :=
  (nodup_append.1 hl.nodup).1.mem_erase_iff

/-! ## Success -/

def Icem.cloned (icem : Icem) (cp : Nat) (lcand rcand : Cand) : Icem :=
  icemCandpairMakeValid icem.allocs (icemCandpairClone cp lcand rcand icem).2

def Icem.confirm (icem : Icem) (cp : Nat) : Icem :=
  (icemCompSetSelected ((icemCandpairMakeValid cp icem).pairs cp).comp cp
    (icemCandpairMakeValid cp icem)).set cp ({ · with nominated := true })

section
variable {cp : Nat} {lcand rcand : Cand}

theorem clone_pairs_self : (icemCandpairClone cp lcand rcand icem).2.pairs icem.allocs =
    { icem.pairs cp with lcand, rcand, ctConn := none } := Function.update_self ..

theorem clone_pairs_ne {x : Nat} (h : x ≠ icem.allocs) :
    (icemCandpairClone cp lcand rcand icem).2.pairs x = icem.pairs x := Function.update_of_ne h ..

theorem Linked.clone (h : Linked icem) (hr : rcand ∈ icem.rcandl) :
    Linked (icemCandpairClone cp lcand rcand icem).2 := h.add hr

theorem Linked.cloned (h : Linked icem) (hr : rcand ∈ icem.rcandl) : Linked (icem.cloned cp lcand rcand) :=
  (h.clone hr).makeValid (mem_append_left _ (mem_listAddSorted.2 (.inl rfl)))

theorem mem_cloned_validl {x : Nat} (h : Linked icem) (hr : rcand ∈ icem.rcandl) :
    x ∈ (icem.cloned cp lcand rcand).validl ↔ x = icem.allocs ∨ x ∈ icem.validl :=
  mem_makeValid_validl (h.clone hr)

end

theorem progress_confirm (cp : Nat) (icem : Icem) : Progress (icemCandpairMakeValid cp icem) (icem.confirm cp) := by
  have hsel : Progress (icemCandpairMakeValid cp icem) (icemCompSetSelected
      ((icemCandpairMakeValid cp icem).pairs cp).comp cp (icemCandpairMakeValid cp icem)) := .book _ _ _ _ _ _
  exact hsel.trans (.set (.nominate _) fun _ => ⟨rfl, rfl⟩)

theorem Linked.confirm (h : Linked icem) {cp : Nat} (hcp : cp ∈ icem.validl) : Linked (icem.confirm cp) :=
  (h.makeValid (mem_append_right _ hcp)).still (progress_confirm cp icem).still

def answerLcand (env : Env) (icem : Icem) (cp : Nat) (laddr : Sdp.Sa) : Cand :=
  let base := (icem.pairs cp).lcand
  (icemCandFind icem.lcandl base.compid laddr).getD
    { id := icem.allocs, type := .prflx, prio := iceCandCalcPrio .prflx 0 base.compid,
      foundation := env.foundation icem.allocs, compid := base.compid, addr := laddr,
      base := some ⟨base.id, base.addr⟩ }

theorem answerLcand_cancel (cp : Nat) (laddr : Sdp.Sa) :
    answerLcand env (icemCandpairCancel cp icem) cp laddr = answerLcand env icem cp laddr := by
  unfold answerLcand
  rw [(Still.cancel cp icem).lcand]
  rfl

def withLcand (env : Env) (cp : Nat) (laddr : Sdp.Sa) (icem : Icem) : Icem :=
  if (icemCandFind icem.lcandl (icem.pairs cp).lcand.compid laddr).isSome then icem
  else icemLcandAdd env (icem.pairs cp).lcand .prflx laddr icem

theorem progress_withLcand (env : Env) (cp : Nat) (laddr : Sdp.Sa) (icem : Icem) :
    Progress icem (withLcand env cp laddr icem) := by
  unfold withLcand
  split
  · exact .refl
  · exact .cands (Nat.le_succ _) fun _ h => h

@[simp] theorem withLcand_pairs (cp : Nat) (laddr : Sdp.Sa) : (withLcand env cp laddr icem).pairs = icem.pairs := by
  unfold withLcand
  split <;> rfl

variable {laddr : Sdp.Sa}

@[simp] theorem withLcand_rcandl (cp : Nat) : (withLcand env cp laddr icem).rcandl = icem.rcandl := by
  unfold withLcand
  split <;> rfl

theorem withLcand_find (env : Env) (cp : Nat) (laddr : Sdp.Sa) (icem : Icem) :
    icemCandFind (withLcand env cp laddr icem).lcandl (icem.pairs cp).lcand.compid laddr =
      some (answerLcand env icem cp laddr) := by
  unfold withLcand answerLcand
  cases h : icemCandFind icem.lcandl (icem.pairs cp).lcand.compid laddr with
  | some lcand => simp [h]
  | none =>
    simp [icemCandFind, icemLcandAdd, candAlloc, find?_append]

def answerRcand (icem : Icem) (cp : Nat) : Cand :=
  (icemCandFind icem.rcandl (icem.pairs cp).rcand.compid (icem.pairs cp).rcand.addr).getD (icem.pairs cp).rcand

theorem find_rcand {cp : Nat} (hr : (icem.pairs cp).rcand ∈ icem.rcandl) :
    icemCandFind icem.rcandl (icem.pairs cp).rcand.compid (icem.pairs cp).rcand.addr = some (answerRcand icem cp) := by
  have hsome : (icemCandFind icem.rcandl (icem.pairs cp).rcand.compid (icem.pairs cp).rcand.addr).isSome :=
    find?_isSome.2 ⟨_, hr, by simp⟩
  obtain ⟨rcand, h⟩ := Option.isSome_iff_exists.1 hsome
  rw [answerRcand, h, Option.getD_some]

theorem constructValidPair_eq {cp : Nat} {mapped dest : Sdp.Sa} {lcand rcand : Cand}
    (hlc : icemCandFind icem.lcandl (icem.pairs cp).lcand.compid mapped = some lcand)
    (hrc : icemCandFind icem.rcandl (icem.pairs cp).rcand.compid dest = some rcand) :
    constructValidPair cp mapped dest icem =
      if lcand.id ≠ (icem.pairs cp).lcand.id ∨ rcand.id ≠ (icem.pairs cp).rcand.id then
        match icemCandpairFind (icemCandpairMakeValid cp icem).pairs (icemCandpairMakeValid cp icem).validl
          (some lcand) (some rcand) with
        | some cp2 => (some cp2, icemCandpairMakeValid cp icem)
        | none => (some icem.allocs, (icemCandpairMakeValid cp icem).cloned cp lcand rcand)
      else (some cp, icemCandpairMakeValid cp icem) := by
  unfold constructValidPair
  dsimp only
  rw [hlc, hrc]
  rfl

theorem handleSuccess_eq (env : Env) (icem : Icem) (cp : Nat) (laddr : Sdp.Sa) : handleSuccess env cp laddr icem =
    match constructValidPair cp laddr (icem.pairs cp).rcand.addr (withLcand env cp laddr icem) with
    | (none, icem) => icem
    | (some cp, icem) => icem.confirm cp := rfl

/-- **What is confirmed by an answer**: the pair that was checked, the valid pair with the
candidates of the answer, or a copy of the pair with these candidates. -/
theorem handleSuccess_cases (hl : Linked icem) {cp : Nat} (hcp : cp ∈ icem.checkl ++ icem.validl)
    (laddr : Sdp.Sa) (h' : icemCandpairMakeValid cp (withLcand env cp laddr icem) = icem') :
    (handleSuccess env cp laddr icem = icem'.confirm cp ∧
      (answerLcand env icem cp laddr).id = (icem.pairs cp).lcand.id ∧
      (answerRcand icem cp).id = (icem.pairs cp).rcand.id) ∨
    ((answerLcand env icem cp laddr).id ≠ (icem.pairs cp).lcand.id ∨
      (answerRcand icem cp).id ≠ (icem.pairs cp).rcand.id) ∧
    ((∃ c, icemCandpairFind icem'.pairs icem'.validl (some (answerLcand env icem cp laddr))
        (some (answerRcand icem cp)) = some c ∧ handleSuccess env cp laddr icem = icem'.confirm c) ∨
      icemCandpairFind icem'.pairs icem'.validl (some (answerLcand env icem cp laddr))
        (some (answerRcand icem cp)) = none ∧
      handleSuccess env cp laddr icem =
        (icem'.cloned cp (answerLcand env icem cp laddr) (answerRcand icem cp)).confirm icem'.allocs) := by
  have hpairs : (withLcand env cp laddr icem).pairs = icem.pairs := withLcand_pairs cp laddr
  have hlc : icemCandFind (withLcand env cp laddr icem).lcandl
      ((withLcand env cp laddr icem).pairs cp).lcand.compid laddr = some (answerLcand env icem cp laddr) := by
    rw [hpairs]
    exact withLcand_find env cp laddr icem
  have hrc : icemCandFind (withLcand env cp laddr icem).rcandl
      ((withLcand env cp laddr icem).pairs cp).rcand.compid (icem.pairs cp).rcand.addr =
      some (answerRcand icem cp) := by
    rw [hpairs, withLcand_rcandl]
    exact find_rcand (hl.rcand cp hcp)
  have heq := handleSuccess_eq env icem cp laddr
  rw [constructValidPair_eq hlc hrc, hpairs, h'] at heq
  by_cases hid : (answerLcand env icem cp laddr).id ≠ (icem.pairs cp).lcand.id ∨
      (answerRcand icem cp).id ≠ (icem.pairs cp).rcand.id
  · rw [if_pos hid] at heq
    refine .inr ⟨hid, ?_⟩
    cases hfind : icemCandpairFind icem'.pairs icem'.validl (some (answerLcand env icem cp laddr))
      (some (answerRcand icem cp)) with
    | some c =>
      rw [hfind] at heq
      exact .inl ⟨c, rfl, heq⟩
    | none =>
      rw [hfind] at heq
      subst h'
      exact .inr ⟨rfl, heq⟩
  · rw [if_neg hid] at heq
    rw [not_or, not_not, not_not] at hid
    exact .inl ⟨heq, hid⟩

theorem confirmed (env : Env) (hl : Linked icem) {cp : Nat} (hcp : cp ∈ icem.checkl ++ icem.validl) (laddr : Sdp.Sa) :
    Linked (withLcand env cp laddr icem) ∧
      cp ∈ (withLcand env cp laddr icem).checkl ++ (withLcand env cp laddr icem).validl ∧
      cp ∈ (icemCandpairMakeValid cp (withLcand env cp laddr icem)).validl ∧
      answerRcand icem cp ∈ (icemCandpairMakeValid cp (withLcand env cp laddr icem)).rcandl := by
  have hp := (progress_withLcand env cp laddr icem).still
  refine ⟨hl.still hp, by rwa [hp.checkl, hp.validl], (mem_makeValid_validl (hl.still hp)).2 (.inl rfl), ?_⟩
  exact hp.rcandl (mem_of_find?_eq_some (find_rcand (hl.rcand cp hcp)))

inductive Verdict
  | success (laddr : Sdp.Sa) | conflict | failure

def Resp.verdict (resp : Resp) : Verdict :=
  match resp.err, resp.mapped with
  | none, some laddr => if resp.scode = 0 then .success laddr else if resp.scode = 487 then .conflict else .failure
  | none, none => if resp.scode = 487 then .conflict else .failure
  | some _, _ => .failure

theorem handleResp_cases (env : Env) (resp : Resp) {cp : Nat} : match resp.verdict with
    | .success laddr => handleResp env cp resp icem = handleSuccess env cp laddr icem
    | .conflict => handleResp env cp resp icem = (icemConncheckSend env cp false (iceSwitchLocalRole icem)).2
    | .failure => ∃ err scode, handleResp env cp resp icem = icemCandpairFailed cp err scode icem := by
  unfold Resp.verdict handleResp
  cases resp.err with
  | some err => exact ⟨_, _, rfl⟩
  | none =>
    by_cases h0 : resp.scode = 0
    · cases resp.mapped with
      | none => simpa [h0] using ⟨_, _, rfl⟩
      | some laddr => simp [h0]
    by_cases h4 : resp.scode = 487
    · cases resp.mapped <;> simp [h4]
    · cases resp.mapped <;> simpa [h0, h4] using ⟨_, _, rfl⟩

theorem handleResp_success {laddr : Sdp.Sa} (h : resp.verdict = .success laddr) (cp : Nat) :
    handleResp env cp resp icem = handleSuccess env cp laddr icem := by
  simpa only [h] using handleResp_cases env resp

theorem handleResp_conflict (h : resp.verdict = .conflict) (cp : Nat) :
    handleResp env cp resp icem = (icemConncheckSend env cp false (iceSwitchLocalRole icem)).2 := by
  simpa only [h] using handleResp_cases env resp

theorem handleResp_failure (env : Env) (icem : Icem) (h : resp.verdict = .failure) (cp : Nat) :
    ∃ err scode, handleResp env cp resp icem = icemCandpairFailed cp err scode icem := by
  simpa only [h] using handleResp_cases env resp

/-- **What a success keeps**: what is kept by making pairs valid, copying and confirming them. -/
theorem handleSuccess_inv (hl : Linked icem) {cp : Nat} (hcp : cp ∈ icem.checkl ++ icem.validl) (laddr : Sdp.Sa)
    {P : Icem → Prop} (hvalid : Linked (withLcand env cp laddr icem) →
      cp ∈ (withLcand env cp laddr icem).checkl ++ (withLcand env cp laddr icem).validl →
      P (icemCandpairMakeValid cp (withLcand env cp laddr icem)))
    (hconfirm : ∀ {icem c}, Linked icem → c ∈ icem.validl → P icem → P (icem.confirm c))
    (hcloned : ∀ {icem' rcand}, Linked icem' → cp ∈ icem'.validl → rcand ∈ icem'.rcandl → P icem' →
      P (icem'.cloned cp (answerLcand env icem cp laddr) rcand)) : P (handleSuccess env cp laddr icem) := by
  obtain ⟨hw, hcp', hmem, hr⟩ := confirmed env hl hcp laddr
  have hv := hw.makeValid hcp'
  have h0 := hvalid hw hcp'
  rcases handleSuccess_cases hl hcp laddr rfl with ⟨h, -⟩ | ⟨-, ⟨c, hc, h⟩ | ⟨-, h⟩⟩
  · rw [h]
    exact hconfirm hv hmem h0
  · rw [h]
    exact hconfirm hv (mem_of_find?_eq_some hc) h0
  · rw [h]
    exact hconfirm (hv.cloned hr) ((mem_cloned_validl hv hr).2 (.inl rfl)) (hcloned hv hmem hr h0)

theorem linked_handleSuccess (hl : Linked icem) {cp : Nat} (hcp : cp ∈ icem.checkl ++ icem.validl)
    : Linked (handleSuccess env cp laddr icem) :=
  handleSuccess_inv hl hcp laddr (fun hw h => hw.makeValid h) (fun h hc _ => h.confirm hc) fun h _ hr _ => h.cloned hr

theorem handleSuccess_lrole (hl : Linked icem) {cp : Nat} (hcp : cp ∈ icem.checkl ++ icem.validl)
    : (handleSuccess env cp laddr icem).lrole = icem.lrole :=
  handleSuccess_inv (P := (·.lrole = icem.lrole)) hl hcp laddr (fun _ _ => (progress_withLcand env cp laddr icem).lrole)
    (fun _ _ h => h) fun _ _ _ h => h

/-! ## The user's calls -/

section
variable {P : Icem → Prop}

theorem formLoop_inv (halloc : ∀ icem lcand rcand, P icem → rcand ∈ icem.rcandl →
      P (icemCandpairAlloc lcand rcand icem).2)
    {l : List (Cand × Cand)} : ∀ {icem : Icem}, P icem → (∀ p ∈ l, p.2 ∈ icem.rcandl) →
      P (candpairsForm.loop l icem).2 := by
  induction l with
  | nil => exact fun h _ => h
  | cons p l ih =>
    intro icem h hr
    have hl : ∀ p ∈ l, p.2 ∈ icem.rcandl := fun p hp => hr p (mem_cons_of_mem _ hp)
    have ha := halloc icem p.1 p.2 h (hr p mem_cons_self)
    have hrcandl : (icemCandpairAlloc p.1 p.2 icem).2.rcandl = icem.rcandl := by
      unfold icemCandpairAlloc
      split <;> rfl
    rw [candpairsForm.loop]
    split
    · exact ih h hl
    split
    · rename_i heq
      rwa [heq] at ha
    rename_i heq
    rw [heq] at ha hrcandl
    exact ih ha (hrcandl ▸ hl)

/-- **Forming the check list**: what every new pair, the ordering and the pruning keep. -/
theorem icemConncheckStart_inv
    (halloc : ∀ icem lcand rcand, P icem → rcand ∈ icem.rcandl → P (icemCandpairAlloc lcand rcand icem).2)
    (horder : ∀ icem, P icem → P (icemCandpairPrioOrder icem)) (hprune : ∀ icem, P icem → P (candpairPrune icem))
    (hbook : ∀ icem state tmrPace, P icem → P { icem with state, tmrPace }) (h : P icem) :
    P (icemConncheckStart icem).2 := by
  have hform : P (candpairsForm icem).2 := by
    unfold candpairsForm
    split
    · exact h
    refine formLoop_inv halloc h fun p hp => ?_
    obtain ⟨lcand, -, hp⟩ := mem_flatMap.1 hp
    obtain ⟨rcand, hr, rfl⟩ := mem_map.1 hp
    exact hr
  have hlist : P (icemChecklistForm icem).2 := by
    unfold icemChecklistForm
    split
    · exact h
    split
    · rename_i heq
      rwa [heq] at hform
    rename_i heq
    rw [heq] at hform
    exact hprune _ (horder _ hform)
  unfold icemConncheckStart
  split
  · rename_i heq
    rwa [heq] at hlist
  rename_i heq
  rw [heq] at hlist
  exact hbook _ _ _ hlist

/-- **Stopping**: what is kept when a pair of the check list is interrupted, and by small steps. -/
theorem icemConncheckStop_inv (hprogress : ∀ icem icem', P icem → Progress icem icem' → P icem')
    (hcancel : ∀ icem cp, P icem → P (icemCandpairCancel cp icem)) (err : Option Errno) (h : P icem) :
    P (icemConncheckStop env err icem) := by
  have hloop : ∀ (l : List Nat) {icem : Icem}, P icem → l ⊆ icem.checkl →
      P (l.foldl icemConncheckStop.interrupt icem) := by
    intro l
    induction l with
    | nil => exact fun h _ => h
    | cons cp l ih =>
      intro icem h hl
      have hsub : l ⊆ icem.checkl := fun x hx => hl (mem_cons_of_mem _ hx)
      rw [foldl_cons, icemConncheckStop.interrupt]
      split
      · exact ih h hsub
      · have hfail := @Progress.failed (icemCandpairCancel cp icem) cp (hl mem_cons_self) (some .EINTR) 0
        exact ih (hprogress _ _ (hcancel icem cp h) hfail) hsub
  unfold icemConncheckStop
  have hbook := hprogress _ _ h (.book icem (if err.isSome then .failed else .completed) false icem.chkh icem.calls
    icem.compl)
  exact hprogress _ _ (hloop icem.checkl hbook fun _ h => h)
    (micros_icemChecklistUpdate micros_icemConncheckScheduleCheck).progress

/-- **Purging**: what is kept when pairs are removed. -/
theorem icemUpdate_inv (hpurge : ∀ icem compid, P icem → P (purgeRelayed compid icem)) (h : P icem) :
    P (icemUpdate icem) := by
  have hloop : ∀ (l : List Comp) {icem : Icem}, P icem → P (l.foldl icemUpdate.purge icem) := by
    intro l
    induction l with
    | nil => exact id
    | cons comp l ih =>
      intro icem h
      rw [foldl_cons]
      apply ih
      unfold icemUpdate.purge
      split
      · split
        · exact hpurge _ _ h
        · exact h
      · exact h
  exact hloop icem.compl h

end

/-! ## Requests and answers -/

def BindReq.switches (req : BindReq) (icem : Icem) : Prop :=
  req.auth = .ok ∧ req.role.1 = icem.lrole ∧ req.role.2 ≤ icem.tiebrk

instance (req : BindReq) (icem : Icem) : Decidable (req.switches icem) := inferInstanceAs (Decidable (_ ∧ _ ∧ _))

def answer (env : Env) (compid : UInt32) (src : Sdp.Sa) (req : BindReq) (icem : Icem) : Reply × Icem :=
  match req.priority with
  | none => (.error 400, icem)
  | some prio => (.success src, handleStunFull env compid src prio req.useCand icem)

theorem softs_answer (src : Sdp.Sa) (req : BindReq) (icem : Icem) :
    Softs env icem (answer env compid src req icem).2 := by
  unfold answer
  cases req.priority with
  | none => exact .refl
  | some prio => exact softs_handleStunFull _ _ _ _ _

theorem icemStundRecv_switches {compid : UInt32} (h : req.switches icem) :
    icemStundRecv env compid src req icem = answer env compid src req (iceSwitchLocalRole icem) := by
  obtain ⟨hauth, hrole, hle⟩ := h
  unfold icemStundRecv
  rw [hauth]
  exact (if_neg fun hlt => UInt64.not_lt.2 hle hlt.2).trans (congrArg (answer env compid src req) (if_pos hrole))

theorem icemStundRecv_keeps {compid : UInt32} (h : ¬ req.switches icem) :
    (∃ reply, icemStundRecv env compid src req icem = (reply, icem)) ∨
      icemStundRecv env compid src req icem = answer env compid src req icem := by
  unfold icemStundRecv answer
  cases hauth : req.auth with
  | discard | badmsg | unauth => exact .inl ⟨_, rfl⟩
  | ok =>
    dsimp only
    by_cases hlt : req.role.1 = icem.lrole ∧ icem.tiebrk < req.role.2
    · exact .inl ⟨_, if_pos hlt⟩
    have hrole : req.role.1 ≠ icem.lrole := fun hr =>
      h ⟨hauth, hr, UInt64.not_lt.1 fun hl => hlt ⟨hr, hl⟩⟩
    rw [if_neg hlt, if_neg hrole]
    exact .inr rfl

/-- **A request of the other side**: the role is switched or not, then come small steps. -/
theorem softs_icemStundRecv (src : Sdp.Sa) (req : BindReq) (icem : Icem) :
    Softs env (if req.switches icem then iceSwitchLocalRole icem else icem)
      (icemStundRecv env compid src req icem).2 := by
  split
  · rename_i h
    rw [icemStundRecv_switches h]
    exact softs_answer ..
  rename_i h
  rcases icemStundRecv_keeps h with ⟨reply, h⟩ | h
  · rw [h]
  · rw [h]
    exact softs_answer ..

theorem Still.setRole (icem : Icem) (lite : Bool) (lrole : Role) : Still icem { icem with lite, lrole } :=
  ⟨rfl, rfl, fun _ h => h, le_rfl, fun _ => rfl, fun _ => rfl, fun _ => rfl⟩

theorem Still.switch (icem : Icem) : Still icem (iceSwitchLocalRole icem) := .setRole icem icem.lite _

theorem Still.recv :
    Still icem (icemStundRecv env compid src req icem).2 := by
  have hm : Softs env _ (icemStundRecv env compid src req icem).2 := softs_icemStundRecv compid src req icem
  refine Still.trans ?_ hm.micros.progress.still
  split
  · exact .switch icem
  · exact .refl icem

theorem transaction_mem {tid cp : Nat} (h : transaction icem tid = some cp) :
    cp ∈ icem.checkl ++ icem.validl := mem_of_find?_eq_some h

theorem Still.handleResp (h : ∀ laddr, resp.verdict ≠ .success laddr) (cp : Nat) (icem : Icem) :
    Still icem (handleResp env cp resp icem) := by
  cases hv : resp.verdict with
  | success laddr => exact absurd hv (h laddr)
  | conflict =>
    rw [handleResp_conflict hv]
    exact (switch icem).trans (.send env cp false _)
  | failure =>
    obtain ⟨err, scode, hf⟩ := handleResp_failure env icem hv cp
    rw [hf]
    exact .failed cp err scode icem

theorem linked_ctransCompleted (h : Linked icem) {tid : Nat} :
    Linked (ctransCompleted env tid resp icem) := by
  unfold ctransCompleted
  cases htr : transaction icem tid with
  | none => exact h
  | some cp =>
    have hc := h.still (.cancel cp icem)
    have hcp : cp ∈ icem.checkl ++ icem.validl := transaction_mem htr
    refine Linked.still ?_ (micros_paceNext _).progress.still
    cases hv : resp.verdict with
    | success laddr =>
      rw [handleResp_success hv]
      exact linked_handleSuccess hc hcp
    | conflict | failure => exact hc.still (.handleResp (by simp [hv]) cp _)

namespace Linked

theorem alloc (h : Linked icem) (lcand : Cand) {rcand : Cand} (hr : rcand ∈ icem.rcandl) :
    Linked (icemCandpairAlloc lcand rcand icem).2 := by
  unfold icemCandpairAlloc
  split
  · exact h
  · exact h.add (by exact hr)

theorem order (h : Linked icem) : Linked (icemCandpairPrioOrder icem) := by
  refine h.of_subperm ((listSort_perm _).append_right _).subperm rfl rfl fun cp => ?_
  show (icemCandpairPrioOrder.pairs icem cp).rcand = _
  unfold icemCandpairPrioOrder.pairs
  split <;> rfl

theorem prune (h : Linked icem) : Linked (candpairPrune icem) :=
  h.of_subperm ((iceListUnique_sublist).append_right _).subperm rfl rfl fun _ => rfl

theorem purge (h : Linked icem) (compid : UInt32) : Linked (purgeRelayed compid icem) :=
  h.of_subperm (filter_sublist.append filter_sublist).subperm rfl rfl fun _ => rfl

end Linked

theorem linked_step (h : Linked icem) (op : Op) : Linked (icem.step env op).1 := by
  cases op with
  | setRole role => exact h.still (.setRole icem icem.lite _)
  | lite => exact h.still (.setRole icem true _)
  | start =>
    exact icemConncheckStart_inv (fun _ lcand _ h hr => h.alloc lcand hr) (fun _ h => h.order) (fun _ h => h.prune)
      (fun icem _ _ h => h.still (Progress.book icem _ _ _ _ _).still) h
  | resp tid resp => exact linked_ctransCompleted h
  | recv compid src req =>
    unfold Icem.step
    dsimp only
    split
    · exact h.still (.recv compid)
    · exact h
  | stop err =>
    exact icemConncheckStop_inv (fun _ _ h hp => h.still hp.still) (fun icem cp h => h.still (.cancel cp icem)) err h
  | update => exact icemUpdate_inv (fun _ compid h => h.purge compid) h
  | compAdd | candAdd | lcandAdd | rcandAdd | redundElim | setStates | pace | cont =>
    exact h.still (micros_step _ rfl icem).progress.still

theorem linked_exec (ops : List Op) (h : Linked icem) : Linked (exec (Icem.step env) icem ops) :=
  exec_inv_all Linked (fun _ op h => linked_step h op) ops icem h

theorem icemAlloc_ok (h : icemAlloc full udp role tiebrk lufrag lpwd chkh = .ok icem) :
    icem.checkl = [] ∧ icem.validl = [] ∧ icem.lrole = role ∧ icem.tiebrk = tiebrk ∧ icem.sends = 0 ∧ icem.tx = [] := by
  unfold icemAlloc at h
  split at h
  · cases h
  split at h
  · cases h
  · cases h
    exact ⟨rfl, rfl, rfl, rfl, rfl, rfl⟩

theorem linked_init (h : icemAlloc full udp role tiebrk lufrag lpwd chkh = .ok icem) : Linked icem := by
  obtain ⟨hc, hv, -⟩ := icemAlloc_ok h
  refine ⟨?_, ?_, ?_⟩ <;> simp [hc, hv]

def Env.lossless : Env := ⟨fun _ => none, fun _ => []⟩

def onePair : List Op :=
  [.compAdd 1 5000, .candAdd 1 0 ⟨.inet 1, 0⟩, .rcandAdd .host 1 7 ⟨.inet 2, 5000⟩, .start, .pace]

end BareRTC.Ice
