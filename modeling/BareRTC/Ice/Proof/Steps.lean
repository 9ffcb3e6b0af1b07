import BareRTC.Ice.Check
import BareRTC.Lib.Run

/-!
# What the checks do

The functions that pace, send and conclude the checks call each other in a circle. Whatever way they
take, all they do is a sequence of a few small steps (`Micro`): a request is sent for a pair, a pair
of the check list fails or waits, a pair is nominated, candidates are added, and things are changed
that are no business of the lists. Invariants of the media object are shown for the small steps.

The circle ends because every check that is refused leaves one pair less to check:
`icem_conncheck_schedule_check` is what the source says it is (`icemConncheckScheduleCheck_eq`), and
a check list that is done needs no next check (`icemChecklistUpdate_eq`).
-/

namespace BareRTC.Ice

open List

open Relation

variable {env : Env} {icem icem' : Icem} {cp : Nat} {f : Pair → Pair}

/-! ## Pairs -/

@[simp] theorem set_sends : (icem.set cp f).sends = icem.sends := rfl

@[simp] theorem set_pairs_self :
    (icem.set cp f).pairs cp = f (icem.pairs cp) := Function.update_self ..

theorem set_pairs_ne {cp' : Nat} (f : Pair → Pair) (h : cp' ≠ cp) :
    (icem.set cp f).pairs cp' = icem.pairs cp' := Function.update_of_ne h ..

theorem set_pairs_proj {β : Type} (g : Pair → β) (h : g (f (icem.pairs cp)) = g (icem.pairs cp)) (cp' : Nat) :
    g ((icem.set cp f).pairs cp') = g (icem.pairs cp') := by
  by_cases hcp : cp' = cp
  · rw [hcp, set_pairs_self, h]
  · rw [set_pairs_ne f hcp]

variable {err : Option Errno}

namespace Pair

theorem isCompleted_iff {cp : Pair} : cp.isCompleted ↔ cp.state = .failed ∨ cp.state = .succeeded := by
  simp [isCompleted]

theorem setState_of_completed {cp : Pair} (st : PairState) (h : cp.isCompleted) : cp.setState st = cp :=
  if_pos (.inr h)

variable {st : PairState}

theorem setState_of_not {cp : Pair} (h : ¬ cp.isCompleted) : cp.setState st = { cp with state := st } := by
  unfold setState
  split
  · rename_i hst
    have hst : cp.state = st := hst.resolve_right h
    cases cp
    subst hst
    rfl
  · rfl

section
variable (st)

theorem setState_eq {cp : Pair} :
    cp.setState st = cp ∨ cp.isCompleted = false ∧ cp.setState st = { cp with state := st } := by
  by_cases h : cp.isCompleted
  · exact .inl (setState_of_completed st h)
  · exact .inr ⟨by simpa using h, setState_of_not h⟩

@[simp] theorem setState_comp {cp : Pair} : (cp.setState st).comp = cp.comp := by
  unfold setState; split <;> rfl
@[simp] theorem setState_lcand {cp : Pair} : (cp.setState st).lcand = cp.lcand := by
  unfold setState; split <;> rfl
@[simp] theorem setState_rcand {cp : Pair} : (cp.setState st).rcand = cp.rcand := by
  unfold setState; split <;> rfl
@[simp] theorem setState_valid (cp : Pair) : (cp.setState st).valid = cp.valid := by
  unfold setState; split <;> rfl
@[simp] theorem setState_pprio {cp : Pair} : (cp.setState st).pprio = cp.pprio := by
  unfold setState; split <;> rfl
@[simp] theorem setState_ctConn (cp : Pair) : (cp.setState st).ctConn = cp.ctConn := by
  unfold setState; split <;> rfl

end

theorem isCompleted_setState {cp : Pair} (h : cp.isCompleted) :
    (cp.setState st).isCompleted := by rwa [setState_of_completed st h]

theorem isCompleted_setState_failed (cp : Pair) : (cp.setState .failed).isCompleted := by
  by_cases hc : cp.isCompleted
  · exact isCompleted_setState hc
  · rw [setState_of_not hc]
    rfl

structure Moves (p p' : Pair) : Prop where
  comp : p'.comp = p.comp
  lcand : p'.lcand = p.lcand
  rcand : p'.rcand = p.rcand
  pprio : p'.pprio = p.pprio
  completed : p.isCompleted → p'.state = p.state
  succeeded : p'.state = .succeeded → p.state = .succeeded
  valid : p'.valid → p.valid
  ctConn : ∀ tid, p.ctConn = some tid → p'.ctConn = some tid

namespace Moves

theorem refl {p : Pair} : Moves p p := ⟨rfl, rfl, rfl, rfl, fun _ => rfl, id, id, fun _ => id⟩

variable {p : Pair}

theorem isCompleted {p' : Pair} (h : Moves p p') (hc : p.isCompleted) : p'.isCompleted := by
  rw [isCompleted_iff, h.completed hc]
  exact isCompleted_iff.1 hc

theorem trans {p' p'' : Pair} (h : Moves p p') (h' : Moves p' p'') : Moves p p'' where
  comp := h'.comp.trans h.comp
  lcand := h'.lcand.trans h.lcand
  rcand := h'.rcand.trans h.rcand
  pprio := h'.pprio.trans h.pprio
  completed hc := (h'.completed (h.isCompleted hc)).trans (h.completed hc)
  succeeded hs := h.succeeded (h'.succeeded hs)
  valid hv := h.valid (h'.valid hv)
  ctConn tid ht := h'.ctConn tid (h.ctConn tid ht)

theorem setState (hst : st ≠ .succeeded) : Moves p (p.setState st) where
  comp := setState_comp st
  lcand := setState_lcand st
  rcand := setState_rcand st
  pprio := setState_pprio st
  completed hc := by rw [setState_of_completed st hc]
  succeeded hs := by
    rcases setState_eq st with h | ⟨-, h⟩
    · rwa [h] at hs
    · rw [h] at hs
      exact absurd hs hst
  valid hv := by rwa [setState_valid] at hv
  ctConn tid ht := by rwa [setState_ctConn]

theorem failed {scode : UInt16} :
    Moves p ({ p with err, scode, valid := false }.setState .failed) := by
  have hfields : Moves p { p with err, scode, valid := false } :=
    ⟨rfl, rfl, rfl, rfl, fun _ => rfl, id, nofun, fun _ => id⟩
  exact hfields.trans (setState (by decide))

theorem nominate (p : Pair) : Moves p { p with nominated := true } :=
  ⟨rfl, rfl, rfl, rfl, fun _ => rfl, id, id, fun _ => id⟩

theorem sent (h : p.ctConn = none) {tid : Nat} : Moves p { p with ctConn := some tid } :=
  ⟨rfl, rfl, rfl, rfl, fun _ => rfl, id, id, fun t ht => by rw [h] at ht; cases ht⟩

end Moves

end Pair

theorem moves_set (h : (icem.pairs cp).Moves (f (icem.pairs cp))) (cp' : Nat) :
    (icem.pairs cp').Moves ((icem.set cp f).pairs cp') := by
  by_cases hcp : cp' = cp
  · subst hcp
    rwa [set_pairs_self]
  · rw [set_pairs_ne f hcp]
    exact .refl

/-! ## Requests -/

def Icem.tried (icem : Icem) (cp : Nat) : Icem := icem.set cp (Pair.setState .inprogress)

def Icem.request (icem : Icem) (cp : Nat) (useCand : Bool) : Request :=
  { tid := icem.sends, dst := (icem.pairs cp).rcand.addr, role := icem.lrole, tiebrk := icem.tiebrk, useCand,
    prio := iceCandCalcPrio .prflx 0 (icem.pairs cp).lcand.compid }

def Icem.sent (icem : Icem) (cp : Nat) (useCand : Bool) : Icem :=
  { (icem.tried cp).set cp ({ · with ctConn := some icem.sends }) with
    sends := icem.sends + 1, tx := icem.tx ++ [icem.request cp useCand] }

variable {useCand : Bool}

theorem sent_pairs : (icem.sent cp useCand).pairs =
    ((icem.tried cp).set cp ({ · with ctConn := some icem.sends })).pairs := rfl

theorem sent_pairs_self : (icem.sent cp useCand).pairs cp =
    { (icem.pairs cp).setState .inprogress with ctConn := some icem.sends } := by
  rw [sent_pairs, set_pairs_self, Icem.tried, set_pairs_self]

theorem sent_pairs_ne {x : Nat} (useCand : Bool) (h : x ≠ cp) : (icem.sent cp useCand).pairs x = icem.pairs x := by
  rw [sent_pairs, set_pairs_ne _ h, Icem.tried, set_pairs_ne _ h]

/-- **A check is sent or it is not**: it is refused before the transport is asked, or by the
transport, or it goes out and the pair waits for its answer. -/
theorem icemConncheckSend_cases (env : Env) (cp : Nat) (useCand : Bool) (icem : Icem) :
    (∃ err, icemConncheckSend env cp useCand icem = (some err, icem.tried cp) ∧ err ≠ .ENOMEM ∧
      (icem.lrole = .unknown ∨ icem.lrole = .controlled ∧ useCand ∨ (icem.pairs cp).ctConn.isSome)) ∨
    (∃ err, icemConncheckSend env cp useCand icem = (some err, { icem.tried cp with sends := icem.sends + 1 }) ∧
      env.send icem.sends = some err) ∨
    (icemConncheckSend env cp useCand icem = (none, icem.sent cp useCand) ∧ env.send icem.sends = none ∧
      icem.lrole ≠ .unknown ∧ (icem.pairs cp).ctConn = none) := by
  have hct : ((icem.tried cp).pairs cp).ctConn = (icem.pairs cp).ctConn := by simp [Icem.tried]
  unfold icemConncheckSend
  by_cases hrole : icem.lrole = .unknown ∨ icem.lrole = .controlled ∧ useCand
  · refine .inl ⟨.EINVAL, ?_, by decide, hrole.imp_right .inl⟩
    exact if_pos hrole
  by_cases hbusy : (icem.pairs cp).ctConn.isSome
  · refine .inl ⟨.EBUSY, ?_, by decide, .inr (.inr hbusy)⟩
    exact (if_neg hrole).trans (if_pos (hct ▸ hbusy))
  right
  cases hsend : env.send icem.sends with
  | some err =>
    refine .inl ⟨err, ?_, rfl⟩
    refine (if_neg hrole).trans ((if_neg (hct ▸ hbusy)).trans ?_)
    simp only [set_sends, hsend]
    rfl
  | none =>
    refine .inr ⟨?_, rfl, fun h => hrole (.inl h), by simpa using hbusy⟩
    refine (if_neg hrole).trans ((if_neg (hct ▸ hbusy)).trans ?_)
    simp [hsend, Icem.sent, Icem.tried, Icem.request, Icem.set]

@[simp] theorem send_lrole :
    (icemConncheckSend env cp useCand icem).2.lrole = icem.lrole := by
  rcases icemConncheckSend_cases env cp useCand icem with ⟨e, h, -⟩ | ⟨e, h, -⟩ | ⟨h, -⟩ <;> rw [h] <;> rfl

/-! ## Small steps -/

inductive Micro (env : Env) : Icem → Icem → Prop
  | send (icem : Icem) (cp : Nat) (useCand : Bool)
      (h : cp ∈ icem.checkl ∨ cp ∈ icem.validl ∧ (icem.pairs cp).isCompleted) :
      Micro env icem (icemConncheckSend env cp useCand icem).2
  | fail (icem : Icem) (cp : Nat) (err : Option Errno) (scode : UInt16) (h : cp ∈ icem.checkl) :
      Micro env icem (icemCandpairFailed cp err scode icem)
  | wait (icem : Icem) (cp : Nat) (h : cp ∈ icem.checkl) : Micro env icem (icem.set cp (Pair.setState .waiting))
  | nominate (icem : Icem) (cp : Nat) : Micro env icem (icem.set cp ({ · with nominated := true }))
  /-- Candidates are added or removed. -/
  | cands (icem : Icem) (lcandl rcandl : List Cand) (allocs : Nat) (h : icem.allocs ≤ allocs)
      (hr : icem.rcandl ⊆ rcandl) : Micro env icem { icem with lcandl, rcandl, allocs }
  | book (icem : Icem) (state : ChecklState) (tmrPace chkh : Bool) (calls : List (Option Errno × Bool))
      (compl : List Comp) : Micro env icem { icem with state, tmrPace, chkh, calls, compl }

abbrev Micros (env : Env) : Icem → Icem → Prop := ReflTransGen (Micro env)

structure Still (icem icem' : Icem) : Prop where
  checkl : icem'.checkl = icem.checkl
  validl : icem'.validl = icem.validl
  rcandl : icem.rcandl ⊆ icem'.rcandl
  allocs : icem.allocs ≤ icem'.allocs
  lcand : ∀ cp, (icem'.pairs cp).lcand = (icem.pairs cp).lcand
  rcand : ∀ cp, (icem'.pairs cp).rcand = (icem.pairs cp).rcand
  pprio : ∀ cp, (icem'.pairs cp).pprio = (icem.pairs cp).pprio

namespace Still

theorem refl (icem : Icem) : Still icem icem :=
  ⟨rfl, rfl, fun _ h => h, le_rfl, fun _ => rfl, fun _ => rfl, fun _ => rfl⟩

theorem trans {icem'' : Icem} (h : Still icem icem') (h' : Still icem' icem'') : Still icem icem'' where
  checkl := h'.checkl.trans h.checkl
  validl := h'.validl.trans h.validl
  rcandl := fun _ hx => h'.rcandl (h.rcandl hx)
  allocs := h.allocs.trans h'.allocs
  lcand cp := (h'.lcand cp).trans (h.lcand cp)
  rcand cp := (h'.rcand cp).trans (h.rcand cp)
  pprio cp := (h'.pprio cp).trans (h.pprio cp)

theorem set (hl : (f (icem.pairs cp)).lcand = (icem.pairs cp).lcand)
    (hr : (f (icem.pairs cp)).rcand = (icem.pairs cp).rcand)
    (hp : (f (icem.pairs cp)).pprio = (icem.pairs cp).pprio) : Still icem (icem.set cp f) :=
  ⟨rfl, rfl, fun _ h => h, le_rfl, set_pairs_proj Pair.lcand hl, set_pairs_proj Pair.rcand hr,
    set_pairs_proj Pair.pprio hp⟩

theorem failed (cp : Nat) (err : Option Errno) (scode : UInt16) (icem : Icem) :
    Still icem (icemCandpairFailed cp err scode icem) := set (by simp) (by simp) (by simp)

theorem cancel (cp : Nat) (icem : Icem) : Still icem (icemCandpairCancel cp icem) := set rfl rfl rfl

theorem send (env : Env) (cp : Nat) (useCand : Bool) (icem : Icem) :
    Still icem (icemConncheckSend env cp useCand icem).2 := by
  have htried : Still icem (icem.tried cp) := set (by simp) (by simp) (by simp)
  rcases icemConncheckSend_cases env cp useCand icem with ⟨e, h, -⟩ | ⟨e, h, -⟩ | ⟨h, -⟩
  · rw [h]
    exact htried
  · rw [h]
    exact { htried with }
  have hset : Still (icem.tried cp) ((icem.tried cp).set cp ({ · with ctConn := some icem.sends })) :=
    set rfl rfl rfl
  rw [h]
  exact { htried.trans hset with }

end Still

structure Progress (icem icem' : Icem) : Prop where
  checkl : icem'.checkl = icem.checkl
  validl : icem'.validl = icem.validl
  lrole : icem'.lrole = icem.lrole
  tiebrk : icem'.tiebrk = icem.tiebrk
  rcandl : icem.rcandl ⊆ icem'.rcandl
  allocs : icem.allocs ≤ icem'.allocs
  moves : ∀ cp, (icem.pairs cp).Moves (icem'.pairs cp)
  outside : ∀ cp, cp ∉ icem.checkl →
    (icem'.pairs cp).state = (icem.pairs cp).state ∧ (icem'.pairs cp).valid = (icem.pairs cp).valid

namespace Progress

theorem refl : Progress icem icem :=
  ⟨rfl, rfl, rfl, rfl, fun _ h => h, le_rfl, fun _ => .refl, fun _ _ => ⟨rfl, rfl⟩⟩

theorem trans {icem'' : Icem} (h : Progress icem icem') (h' : Progress icem' icem'') : Progress icem icem'' where
  checkl := h'.checkl.trans h.checkl
  validl := h'.validl.trans h.validl
  lrole := h'.lrole.trans h.lrole
  tiebrk := h'.tiebrk.trans h.tiebrk
  rcandl := fun _ hx => h'.rcandl (h.rcandl hx)
  allocs := h.allocs.trans h'.allocs
  moves cp := (h.moves cp).trans (h'.moves cp)
  outside cp hcp := by
    obtain ⟨h1, h2⟩ := h.outside cp hcp
    obtain ⟨h3, h4⟩ := h'.outside cp (h.checkl ▸ hcp)
    exact ⟨h3.trans h1, h4.trans h2⟩

theorem still (h : Progress icem icem') : Still icem icem' :=
  ⟨h.checkl, h.validl, h.rcandl, h.allocs, fun cp => (h.moves cp).lcand, fun cp => (h.moves cp).rcand,
    fun cp => (h.moves cp).pprio⟩

theorem set (hm : (icem.pairs cp).Moves (f (icem.pairs cp)))
    (ho : cp ∉ icem.checkl → (f (icem.pairs cp)).state = (icem.pairs cp).state ∧
      (f (icem.pairs cp)).valid = (icem.pairs cp).valid) : Progress icem (icem.set cp f) := by
  refine ⟨rfl, rfl, rfl, rfl, fun _ h => h, le_rfl, moves_set hm, fun cp' hcp' => ?_⟩
  by_cases h : cp' = cp
  · subst h
    rw [set_pairs_self]
    exact ho hcp'
  · rw [set_pairs_ne f h]
    exact ⟨rfl, rfl⟩

theorem tried (h : cp ∈ icem.checkl ∨ cp ∈ icem.validl ∧ (icem.pairs cp).isCompleted) :
    Progress icem (icem.tried cp) := by
  refine set (.setState (by decide)) fun hcp => ?_
  rw [Pair.setState_of_completed _ (h.resolve_left hcp).2]
  exact ⟨rfl, rfl⟩

theorem sent (h : cp ∈ icem.checkl ∨ cp ∈ icem.validl ∧ (icem.pairs cp).isCompleted)
    (hct : (icem.pairs cp).ctConn = none) : Progress icem (icem.sent cp useCand) := by
  have hct' : ((icem.tried cp).pairs cp).ctConn = none := by simp [Icem.tried, hct]
  have hset : Progress (icem.tried cp) ((icem.tried cp).set cp ({ · with ctConn := some icem.sends })) :=
    set (.sent hct') fun _ => ⟨rfl, rfl⟩
  exact { (tried h).trans hset with }

theorem failed (h : cp ∈ icem.checkl) (err : Option Errno) (scode : UInt16) :
    Progress icem (icemCandpairFailed cp err scode icem) :=
  set (.failed) fun hn => absurd h hn

theorem book (icem : Icem) (state : ChecklState) (tmrPace chkh : Bool) (calls : List (Option Errno × Bool))
    (compl : List Comp) : Progress icem { icem with state, tmrPace, chkh, calls, compl } :=
  ⟨rfl, rfl, rfl, rfl, fun _ h => h, le_rfl, fun _ => .refl, fun _ _ => ⟨rfl, rfl⟩⟩

theorem cands {lcandl rcandl : List Cand} {allocs : Nat} (ha : icem.allocs ≤ allocs) (hr : icem.rcandl ⊆ rcandl) :
    Progress icem { icem with lcandl, rcandl, allocs } :=
  ⟨rfl, rfl, rfl, rfl, hr, ha, fun _ => .refl, fun _ _ => ⟨rfl, rfl⟩⟩

end Progress

theorem Micro.progress (h : Micro env icem icem') : Progress icem icem' := by
  cases h with
  | send cp useCand hcp =>
    have htried := Progress.tried hcp
    rcases icemConncheckSend_cases env cp useCand icem with ⟨e, h, -⟩ | ⟨e, h, -⟩ | ⟨h, -, -, hct⟩
    · rw [h]
      exact htried
    · rw [h]
      exact { htried with }
    · rw [h]
      exact .sent hcp hct
  | fail cp err scode hcp => exact .failed hcp err scode
  | wait cp hcp => exact .set (.setState (by decide)) fun h => absurd hcp h
  | nominate cp => exact .set (.nominate _) fun _ => ⟨rfl, rfl⟩
  | cands lcandl rcandl allocs ha hr => exact .cands ha hr
  | book state tmrPace chkh calls compl => exact .book icem state tmrPace chkh calls compl

theorem Micros.progress (h : Micros env icem icem') : Progress icem icem' := by
  induction h with
  | refl => exact .refl
  | tail _ hstep ih => exact ih.trans hstep.progress

structure Silent (icem icem' : Icem) : Prop where
  calls : icem'.calls = icem.calls
  state : icem'.state = icem.state
  chkh : icem'.chkh = icem.chkh
  compl : icem'.compl.map (·.id) = icem.compl.map (·.id)

namespace Silent

theorem refl (icem : Icem) : Silent icem icem := ⟨rfl, rfl, rfl, rfl⟩

theorem trans {icem'' : Icem} (h : Silent icem icem') (h' : Silent icem' icem'') : Silent icem icem'' :=
  ⟨h'.calls.trans h.calls, h'.state.trans h.state, h'.chkh.trans h.chkh, h'.compl.trans h.compl⟩

theorem set (cp : Nat) (f : Pair → Pair) : Silent icem (icem.set cp f) := ⟨rfl, rfl, rfl, rfl⟩

theorem setComp (compid : UInt32) {f : Comp → Comp} (hf : ∀ comp, (f comp).id = comp.id) :
    Silent icem (icem.setComp compid f) := by
  refine ⟨rfl, rfl, rfl, ?_⟩
  unfold Icem.setComp
  rw [List.map_map]
  refine map_congr_left fun comp _ => ?_
  by_cases h : comp.id = compid <;> simp [h, hf]

theorem send (env : Env) (cp : Nat) (useCand : Bool) (icem : Icem) :
    Silent icem (icemConncheckSend env cp useCand icem).2 := by
  rcases icemConncheckSend_cases env cp useCand icem with ⟨e, h, -⟩ | ⟨e, h, -⟩ | ⟨h, -⟩ <;> rw [h] <;>
    exact ⟨rfl, rfl, rfl, rfl⟩

end Silent

/-- Small steps that do not call the handler. -/
abbrev Softs (env : Env) : Icem → Icem → Prop := ReflTransGen fun icem icem' => Micro env icem icem' ∧ Silent icem icem'

theorem Softs.micros (h : Softs env icem icem') : Micros env icem icem' := h.lift id fun _ _ h => h.1

theorem Softs.silent (h : Softs env icem icem') : Silent icem icem' := by
  induction h with
  | refl => exact .refl _
  | tail _ hstep ih => exact ih.trans hstep.2

variable {compid : UInt32}

theorem micro_setComp {f : Comp → Comp} : Micro env icem (icem.setComp compid f) :=
  .book icem icem.state icem.tmrPace icem.chkh icem.calls _

theorem micro_call {state : ChecklState} :
    Micro env icem ({ icem with state }.call err) := by
  unfold Icem.call
  split
  · exact .book icem state icem.tmrPace icem.chkh _ icem.compl
  · exact .book icem state icem.tmrPace icem.chkh icem.calls icem.compl

theorem state_of_findSt {l : List Nat} {compid : UInt32} {st : PairState}
    (h : icemCandpairFindSt icem.pairs l compid st = some cp) : (icem.pairs cp).state = st := by
  have hst := find?_some h
  exact (of_decide_eq_true hst).2

def Icem.concluding (icem : Icem) (env : Env) (compid : UInt32) (cp : Nat) : Icem :=
  (icemConncheckSend env cp (icem.lrole = .controlling) (icemCompSetSelected compid cp icem)).2

theorem concludingIce_cases (env : Env) (compid : UInt32) (icem : Icem) :
    (∀ schedule, concludingIce env schedule compid icem = icem) ∨
    ∃ cp ∈ icem.validl, (icem.pairs cp).isCompleted ∧ ∀ schedule,
      concludingIce env schedule compid icem =
        (schedule (icem.concluding env compid cp)).setComp compid ({ · with concluded := true }) := by
  unfold concludingIce
  cases icemCompFind icem compid with
  | none => exact .inl fun _ => rfl
  | some comp =>
    dsimp only
    by_cases hconc : comp.concluded
    · exact .inl fun _ => if_pos hconc
    cases hcp : icemCandpairFindSt icem.pairs icem.validl compid .succeeded with
    | none => exact .inl fun _ => if_neg hconc
    | some cp =>
      have hst := Pair.isCompleted_iff.2 (.inr (state_of_findSt hcp))
      exact .inr ⟨cp, mem_of_find?_eq_some hcp, hst, fun _ => if_neg hconc⟩

theorem micros_concluding {compid : UInt32} (hcp : cp ∈ icem.validl)
    (hc : (icem.pairs cp).isCompleted) : Micros env icem (icem.concluding env compid cp) :=
  .head (micro_setComp) (.single (.send (icemCompSetSelected compid cp icem) cp _ (.inr ⟨hcp, hc⟩)))

variable {ids : List UInt32}

section
variable {schedule : Icem → Icem} (hs : ∀ icem, Micros env icem (schedule icem))
include hs

theorem micros_concludingIce (compid : UInt32) (icem : Icem) :
    Micros env icem (concludingIce env schedule compid icem) := by
  rcases concludingIce_cases env compid icem with h | ⟨cp, hcp, hc, h⟩
  · rw [h]
  · rw [h]
    exact ((micros_concluding hcp hc).trans (hs _)).tail (micro_setComp)

theorem micros_loop : ∀ icem : Icem,
    Micros env icem (icemChecklistUpdate.loop env schedule ids icem).2 := by
  induction ids with
  | nil => exact fun _ => .refl
  | cons compid ids ih =>
    intro icem
    unfold icemChecklistUpdate.loop
    cases icemCandpairFindCompid icem.pairs icem.validl compid with
    | none => exact .refl
    | some cp =>
      refine (micros_concludingIce hs compid icem).trans (.trans ?_ (ih _))
      split
      · exact .single (micro_setComp)
      · exact .refl

theorem micros_icemChecklistUpdate : Micros env icem (icemChecklistUpdate env schedule icem) := by
  unfold icemChecklistUpdate
  split
  · exact .refl
  · exact (micros_loop hs icem).tail (micro_call)

theorem micros_paceNextWith (icem : Icem) : Micros env icem (paceNextWith env schedule icem) := by
  unfold paceNextWith
  split
  · exact .refl
  dsimp only
  split
  · exact hs icem
  · exact (hs icem).trans (micros_icemChecklistUpdate hs)

end

theorem micro_abortIce {err : Errno} : Micro env icem (abortIce err icem) := by
  unfold abortIce Icem.call
  split
  · exact .book icem .failed false false _ icem.compl
  · exact .book icem .failed false false icem.calls icem.compl

theorem nextCheck_mem (h : nextCheck icem = some cp) : cp ∈ icem.checkl := by
  rcases Option.or_eq_some_iff.1 h with h | ⟨-, h⟩ <;> exact mem_of_find?_eq_some h

theorem micros_doCheck {pace : Icem → Icem} (hp : ∀ icem, Micros env icem (pace icem))
    (hcp : cp ∈ icem.checkl) : Micros env icem (doCheck env pace cp icem) := by
  have hsend : Micro env icem (icemConncheckSend env cp false icem).2 := .send icem cp false (.inl hcp)
  unfold doCheck
  split
  · rename_i icem' h
    rw [h] at hsend
    exact .single hsend
  rename_i err icem' h
  rw [h] at hsend
  have hfail : Micro env icem' (icemCandpairFailed cp (some err) 0 icem') :=
    .fail icem' cp _ _ (hsend.progress.checkl ▸ hcp)
  dsimp only
  split
  · exact .head hsend (.head hfail (.single (micro_abortIce)))
  · exact .head hsend (.head hfail (hp _))

theorem micros_scheduleCheck : ∀ (n : Nat) (icem : Icem), Micros env icem (scheduleCheck env n icem)
  | 0, _ => .refl
  | n + 1, icem => by
    unfold scheduleCheck
    cases h : nextCheck icem with
    | none => exact .refl
    | some cp => exact micros_doCheck (micros_paceNextWith (micros_scheduleCheck n)) (nextCheck_mem h)

theorem micros_icemConncheckScheduleCheck (icem : Icem) : Micros env icem (icemConncheckScheduleCheck env icem) :=
  micros_scheduleCheck _ icem

theorem micros_paceNext (icem : Icem) : Micros env icem (paceNext env icem) :=
  micros_paceNextWith micros_icemConncheckScheduleCheck icem

theorem softs_triggeredCheck (lcand rcand : Cand) (icem : Icem) :
    Softs env icem (triggeredCheck env lcand rcand icem) := by
  unfold triggeredCheck
  cases h : icemCandpairFind icem.pairs icem.checkl (some lcand) (some rcand) with
  | none => exact .refl
  | some cp =>
    have hcp : cp ∈ icem.checkl := mem_of_find?_eq_some h
    dsimp only
    split
    · exact .head ⟨.wait icem cp hcp, .set _ _⟩ (.single ⟨.send _ cp false (.inl hcp), .send ..⟩)
    · exact .single ⟨.send icem cp false (.inl hcp), .send ..⟩
    · exact .single ⟨.send icem cp false (.inl hcp), .send ..⟩
    · exact .refl
    · exact .refl

theorem softs_rcandOf (compid : UInt32) (src : Sdp.Sa) (prio : UInt32) (icem : Icem) :
    Softs env icem (rcandOf env compid src prio icem).2 := by
  unfold rcandOf
  cases icemCandFind icem.rcandl compid src with
  | some rcand => exact .refl
  | none => exact .single ⟨.cands icem icem.lcandl _ _ (Nat.le_succ _) (subset_append_left _ _), rfl, rfl, rfl, rfl⟩

/-- **A request of the other side is small steps**, but for the switch of the role. -/
theorem softs_handleStunFull (compid : UInt32) (src : Sdp.Sa) (prio : UInt32) (useCand : Bool) (icem : Icem) :
    Softs env icem (handleStunFull env compid src prio useCand icem) := by
  unfold handleStunFull
  refine (softs_rcandOf compid src prio icem).trans ?_
  dsimp only
  split
  · exact .refl
  rename_i lcand _
  have htrig : Softs env (rcandOf env compid src prio icem).2
      (triggeredCheck env lcand (rcandOf env compid src prio icem).1 (rcandOf env compid src prio icem).2) :=
    softs_triggeredCheck _ _ _
  refine htrig.trans ?_
  split
  · exact .refl
  split
  · exact .single ⟨.nominate _ _, .set _ _⟩
  · exact .refl

theorem lower_mem {pairs : Nat → Pair} {l : List Nat} : ∀ (m : List Nat) {cp : Nat}, cp ∈ l → m ⊆ l →
    m.foldl (iceCandpairSetStates.lower pairs) cp ∈ l
  | [], _, h, _ => h
  | cp2 :: m, cp, h, hm => by
    refine lower_mem m ?_ (fun x hx => hm (mem_cons_of_mem _ hx))
    unfold iceCandpairSetStates.lower
    split
    · exact hm mem_cons_self
    · exact h

theorem softs_iceCandpairSetStates (icem : Icem) : Softs env icem (iceCandpairSetStates icem) := by
  -- the pairs that are gone through stay in the check list
  have hloop : ∀ (l : List Nat) (icem : Icem), l ⊆ icem.checkl →
      Softs env icem (l.foldl (fun icem cp => icem.set
        (icem.checkl.foldl (iceCandpairSetStates.lower icem.pairs) cp) (Pair.setState .waiting)) icem) := by
    intro l
    induction l with
    | nil => exact fun _ _ => .refl
    | cons cp l ih =>
      intro icem hl
      have hmem : icem.checkl.foldl (iceCandpairSetStates.lower icem.pairs) cp ∈ icem.checkl :=
        lower_mem icem.checkl (hl mem_cons_self) fun _ h => h
      exact .head ⟨.wait icem _ hmem, .set _ _⟩ (ih _ fun x hx => hl (mem_cons_of_mem _ hx))
  exact hloop icem.checkl icem fun _ h => h

def Op.quiet : Op → Bool
  | .compAdd .. | .candAdd .. | .lcandAdd .. | .rcandAdd .. | .redundElim | .setStates | .pace | .cont => true
  | .setRole _ | .lite | .start | .resp .. | .recv .. | .stop _ | .update => false

theorem micros_step (op : Op) (h : op.quiet) (icem : Icem) : Micros env icem (icem.step env op).1 := by
  cases op with
  | compAdd compid lport =>
    show Micros env icem (icemCompAdd compid lport icem)
    unfold icemCompAdd
    split
    · exact .refl
    · exact .single (.book icem icem.state icem.tmrPace icem.chkh icem.calls _)
  | candAdd compid lprio addr =>
    show Micros env icem (icemCandAdd env compid lprio addr icem)
    unfold icemCandAdd
    split
    · exact .refl
    · exact .single (.cands icem _ icem.rcandl _ (Nat.le_succ _) fun _ h => h)
  | lcandAdd base type addr =>
    unfold Icem.step
    dsimp only
    split
    · exact .single (.cands icem _ icem.rcandl _ (Nat.le_succ _) fun _ h => h)
    · exact .refl
  | rcandAdd => exact .single (.cands icem icem.lcandl _ _ (Nat.le_succ _) (subset_append_left _ _))
  | redundElim => exact .single (.cands icem _ icem.rcandl icem.allocs le_rfl fun _ h => h)
  | setStates => exact (softs_iceCandpairSetStates icem).micros
  | pace =>
    show Micros env icem (paceTimeout env icem)
    unfold paceTimeout
    split
    · exact .head (.book icem icem.state false icem.chkh icem.calls icem.compl) (micros_paceNext _)
    · exact .refl
  | cont => exact .single (.book icem icem.state true icem.chkh icem.calls icem.compl)
  | setRole | lite | start | resp | recv | stop | update => cases h

/-! ## The end of the circle -/

theorem nextCheck_none (h : iscompleted icem) : nextCheck icem = none := by
  have hnot : ∀ st, st = .waiting ∨ st = .frozen → icemCandpairFindSt icem.pairs icem.checkl 0 st = none := by
    intro st hst
    refine find?_eq_none.2 fun cp hcp => ?_
    have hc := Pair.isCompleted_iff.1 (all_eq_true.1 h cp hcp)
    rcases hst with rfl | rfl <;> rcases hc with hc | hc <;> simp [hc]
  rw [nextCheck, hnot _ (.inl rfl), hnot _ (.inr rfl)]
  rfl

theorem scheduleCheck_of_completed (h : iscompleted icem) : ∀ n, scheduleCheck env n icem = icem
  | 0 => rfl
  | n + 1 => by rw [scheduleCheck, nextCheck_none h]

theorem Progress.iscompleted {icem : Icem} (h : Progress icem icem') (hc : iscompleted icem) :
    iscompleted icem' := by
  refine all_eq_true.2 fun cp hcp => ?_
  rw [h.checkl] at hcp
  exact (h.moves cp).isCompleted (all_eq_true.1 hc cp hcp)

section
variable {schedule : Icem → Icem} (hs : ∀ icem, iscompleted icem → schedule icem = icem)
include hs

theorem concludingIce_eq (hc : iscompleted icem) :
    concludingIce env schedule compid icem = concludingIce env id compid icem := by
  rcases concludingIce_cases env compid icem with h | ⟨cp, hcp, hp, h⟩
  · rw [h, h]
  · rw [h, h, hs _ ((micros_concluding hcp hp).progress.iscompleted hc), id]

theorem loop_eq : ∀ {icem : Icem}, iscompleted icem →
    icemChecklistUpdate.loop env schedule ids icem = icemChecklistUpdate.loop env id ids icem := by
  induction ids with
  | nil => exact fun _ => rfl
  | cons compid ids ih =>
    intro icem hc
    unfold icemChecklistUpdate.loop
    cases icemCandpairFindCompid icem.pairs icem.validl compid with
    | none => rfl
    | some cp =>
      have hid : ∀ icem, Micros env icem (id icem) := fun _ => .refl
      have hc' := (micros_concludingIce hid compid icem).progress.iscompleted hc
      dsimp only
      rw [concludingIce_eq hs hc]
      apply ih
      split
      · exact hc'
      · exact hc'

theorem update_eq_of_completed :
    icemChecklistUpdate env schedule icem = icemChecklistUpdate env id icem := by
  unfold icemChecklistUpdate
  split
  · rfl
  · rename_i hc
    rw [loop_eq hs (by simpa using hc)]

end

theorem icemChecklistUpdate_eq (n : Nat) :
    icemChecklistUpdate env (scheduleCheck env n) icem = icemChecklistUpdate env id icem :=
  update_eq_of_completed (fun _ h => scheduleCheck_of_completed h n)

theorem icemChecklistUpdate_schedule (icem : Icem) :
    icemChecklistUpdate env (icemConncheckScheduleCheck env) icem = icemChecklistUpdate env id icem :=
  update_eq_of_completed (fun _ h => scheduleCheck_of_completed h _)

def openPairs (icem : Icem) : Nat := icem.checkl.countP fun cp =>
  (icem.pairs cp).state = .waiting ∨ (icem.pairs cp).state = .frozen

theorem nextCheck_open (h : nextCheck icem = some cp) :
    (icem.pairs cp).state = .waiting ∨ (icem.pairs cp).state = .frozen :=
  (Option.or_eq_some_iff.1 h).imp state_of_findSt fun h => state_of_findSt h.2

theorem nextCheck_eq_none (h : openPairs icem = 0) : nextCheck icem = none := by
  cases hn : nextCheck icem with
  | none => rfl
  | some cp =>
    have := countP_eq_zero.1 h cp (nextCheck_mem hn)
    simp only [decide_eq_true_eq] at this
    exact absurd (nextCheck_open hn) this

theorem countP_lt {α : Type} {p q : α → Bool} {l : List α} {a : α} (ha : a ∈ l) (hp : p a)
    (hq : q a = false) (h : ∀ x, q x → p x) : l.countP q < l.countP p := by
  induction l with
  | nil => cases ha
  | cons x l ih =>
    have hle : l.countP q ≤ l.countP p := countP_mono_left fun x _ => h x
    rcases mem_cons.1 ha with rfl | ha
    · rw [countP_cons_of_pos hp, countP_cons_of_neg (by simp [hq])]
      omega
    have := ih ha
    rw [countP_cons, countP_cons]
    have hx := h x
    split <;> split <;> simp_all

theorem openPairs_refused {err : Errno} (hn : nextCheck icem = some cp)
    (hsend : icemConncheckSend env cp false icem = (some err, icem')) :
    openPairs (icemCandpairFailed cp (some err) 0 icem') < openPairs icem := by
  have hpairs : icem'.checkl = icem.checkl ∧ icem'.pairs = (icem.tried cp).pairs := by
    rcases icemConncheckSend_cases env cp false icem with ⟨e, h, -⟩ | ⟨e, h, -⟩ | ⟨h, -⟩ <;>
      rw [h] at hsend <;> cases hsend <;> exact ⟨rfl, rfl⟩
  unfold openPairs
  rw [show (icemCandpairFailed cp (some err) 0 icem').checkl = icem.checkl from hpairs.1]
  refine countP_lt (nextCheck_mem hn) (by simpa using nextCheck_open hn) ?_ fun x hx => ?_
  · have hc := Pair.isCompleted_iff.1 (Pair.isCompleted_setState_failed
      { icem'.pairs cp with err := some err, scode := 0, valid := false })
    rw [icemCandpairFailed, set_pairs_self]
    rcases hc with hc | hc <;> simp [hc]
  by_cases hxc : x = cp
  · rw [hxc]
    simpa using nextCheck_open hn
  · rwa [icemCandpairFailed, set_pairs_ne _ hxc, hpairs.2, Icem.tried, set_pairs_ne _ hxc] at hx

theorem doCheck_congr {pace pace' : Icem → Icem}
    (h : ∀ err icem', icemConncheckSend env cp false icem = (some err, icem') →
      pace (icemCandpairFailed cp (some err) 0 icem') = pace' (icemCandpairFailed cp (some err) 0 icem')) :
    doCheck env pace cp icem = doCheck env pace' cp icem := by
  unfold doCheck
  split
  · rfl
  rename_i err icem' hsend
  dsimp only
  rw [h err icem' hsend]

theorem paceNextWith_congr {f g : Icem → Icem} (hf : ∀ icem, iscompleted icem → f icem = icem)
    (hg : ∀ icem, iscompleted icem → g icem = icem) (h : f icem = g icem) :
    paceNextWith env f icem = paceNextWith env g icem := by
  unfold paceNextWith
  dsimp only
  rw [h, update_eq_of_completed hf, update_eq_of_completed hg]

/-- **Enough rounds**: more rounds than there are pairs to check make no difference. -/
theorem scheduleCheck_rounds : ∀ (m n : Nat) {icem : Icem}, openPairs icem ≤ m → openPairs icem ≤ n →
    scheduleCheck env m icem = scheduleCheck env n icem
  | 0, n, icem, hm, _ => by
    have hnone := nextCheck_eq_none (Nat.le_zero.1 hm)
    cases n with
    | zero => rfl
    | succ n => rw [scheduleCheck, scheduleCheck, hnone]
  | m + 1, 0, icem, _, hn => by rw [scheduleCheck, scheduleCheck, nextCheck_eq_none (Nat.le_zero.1 hn)]
  | m + 1, n + 1, icem, hm, hn => by
    rw [scheduleCheck, scheduleCheck]
    cases hnext : nextCheck icem with
    | none => rfl
    | some cp =>
      refine doCheck_congr fun err icem' hsend => paceNextWith_congr
        (fun _ h => scheduleCheck_of_completed h m) (fun _ h => scheduleCheck_of_completed h n) ?_
      have hlt := openPairs_refused hnext hsend
      exact scheduleCheck_rounds m n (by omega) (by omega)

/-- **`icem_conncheck_schedule_check` as the source has it.** -/
theorem icemConncheckScheduleCheck_eq :
    icemConncheckScheduleCheck env icem =
      match nextCheck icem with
      | some cp => doCheck env (paceNext env) cp icem
      | none => icem := by
  rw [icemConncheckScheduleCheck, scheduleCheck]
  cases hnext : nextCheck icem with
  | none => rfl
  | some cp =>
    refine doCheck_congr fun err icem' hsend => paceNextWith_congr
      (fun _ h => scheduleCheck_of_completed h _) (fun _ h => scheduleCheck_of_completed h _) ?_
    have hlt := openPairs_refused hnext hsend
    have hlen : openPairs icem ≤ icem.checkl.length := countP_le_length
    have hmicro : Micro env icem (icemConncheckSend env cp false icem).2 :=
      .send icem cp false (.inl (nextCheck_mem hnext))
    have hcheckl : (icemCandpairFailed cp (some err) 0 icem').checkl = icem.checkl := by
      have := hmicro.progress.checkl
      rwa [hsend] at this
    rw [icemConncheckScheduleCheck, hcheckl]
    exact scheduleCheck_rounds _ _ (by omega) (by omega)

end BareRTC.Ice
