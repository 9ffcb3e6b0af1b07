import BareRTC.Ice.Proof.Linked

/-!
# Transactions

A pair of the lists that waits for the answer to its check holds the check's transaction. What a
call or event does to the transactions is one statement (`Sends`): one of them ends, if it was an
answer, and the requests that go out are those whose transactions are new. They carry the role that
the agent has then (`sends_step`, `sends_recv`, `sends_resp`).
-/

namespace BareRTC.Ice

open List

variable {env : Env} {icem icem' icem'' : Icem} {tid cp : Nat} {resp : Resp}

def Pending (icem : Icem) (tid : Nat) : Prop := ∃ cp ∈ icem.checkl ++ icem.validl, (icem.pairs cp).ctConn = some tid

theorem transaction_isSome : (transaction icem tid).isSome ↔ Pending icem tid := by
  unfold transaction Pending
  rw [find?_isSome]
  simp only [decide_eq_true_eq]

structure Tracked (icem : Icem) : Prop where
  lt : ∀ tid, Pending icem tid → tid < icem.sends
  inj : ∀ cp ∈ icem.checkl ++ icem.validl, ∀ cp' ∈ icem.checkl ++ icem.validl, ∀ tid,
    (icem.pairs cp).ctConn = some tid → (icem.pairs cp').ctConn = some tid → cp = cp'

/-! ## The transactions are as they were -/

structure Holds (icem icem' : Icem) : Prop where
  tx : icem'.tx = icem.tx
  sends : icem'.sends = icem.sends
  tiebrk : icem'.tiebrk = icem.tiebrk
  old : ∀ cp ∈ icem.checkl ++ icem.validl,
    cp ∈ icem'.checkl ++ icem'.validl ∧ (icem'.pairs cp).ctConn = (icem.pairs cp).ctConn
  new : ∀ cp ∈ icem'.checkl ++ icem'.validl, cp ∉ icem.checkl ++ icem.validl → (icem'.pairs cp).ctConn = none

namespace Holds

theorem refl (icem : Icem) : Holds icem icem := ⟨rfl, rfl, rfl, fun _ h => ⟨h, rfl⟩, fun _ h hn => absurd h hn⟩

theorem trans (h : Holds icem icem') (h' : Holds icem' icem'') : Holds icem icem'' where
  tx := h'.tx.trans h.tx
  sends := h'.sends.trans h.sends
  tiebrk := h'.tiebrk.trans h.tiebrk
  old cp hcp := by
    obtain ⟨hcp', hct⟩ := h.old cp hcp
    obtain ⟨hcp'', hct'⟩ := h'.old cp hcp'
    exact ⟨hcp'', hct'.trans hct⟩
  new cp hcp hn := by
    by_cases hcp' : cp ∈ icem'.checkl ++ icem'.validl
    · rw [(h'.old cp hcp').2]
      exact h.new cp hcp' hn
    · exact h'.new cp hcp hcp'

theorem of_same (htx : icem'.tx = icem.tx) (hs : icem'.sends = icem.sends) (ht : icem'.tiebrk = icem.tiebrk)
    (hl : ∀ cp, cp ∈ icem'.checkl ++ icem'.validl ↔ cp ∈ icem.checkl ++ icem.validl)
    (hct : ∀ cp, (icem'.pairs cp).ctConn = (icem.pairs cp).ctConn) : Holds icem icem' :=
  ⟨htx, hs, ht, fun cp hcp => ⟨(hl cp).2 hcp, hct cp⟩, fun cp hcp hn => absurd ((hl cp).1 hcp) hn⟩

theorem mem (h : Holds icem icem') (hcp : cp ∈ icem'.checkl ++ icem'.validl)
    (hct : (icem'.pairs cp).ctConn = some tid) :
    cp ∈ icem.checkl ++ icem.validl ∧ (icem.pairs cp).ctConn = some tid := by
  have hold : cp ∈ icem.checkl ++ icem.validl := by
    by_contra hn
    rw [h.new cp hcp hn] at hct
    cases hct
  exact ⟨hold, (h.old cp hold).2 ▸ hct⟩

theorem pending (h : Holds icem icem') : Pending icem' tid ↔ Pending icem tid := by
  constructor
  · rintro ⟨cp, hcp, hct⟩
    obtain ⟨hold, hct'⟩ := h.mem hcp hct
    exact ⟨cp, hold, hct'⟩
  rintro ⟨cp, hcp, hct⟩
  obtain ⟨hnew, heq⟩ := h.old cp hcp
  exact ⟨cp, hnew, heq.trans hct⟩

theorem tracked (h : Holds icem icem') (ht : Tracked icem) : Tracked icem' where
  lt tid hp := by
    rw [h.sends]
    exact ht.lt tid ((h.pending).1 hp)
  inj cp hcp cp' hcp' tid hct hct' := by
    obtain ⟨hold, hc⟩ := h.mem hcp hct
    obtain ⟨hold', hc'⟩ := h.mem hcp' hct'
    exact ht.inj cp hold cp' hold' tid hc hc'

theorem set {f : Pair → Pair} (hf : (f (icem.pairs cp)).ctConn = (icem.pairs cp).ctConn) : Holds icem (icem.set cp f) :=
  of_same rfl rfl rfl (fun _ => Iff.rfl) (set_pairs_proj Pair.ctConn hf)

theorem makeValid (hl : Linked icem) (hcp : cp ∈ icem.checkl ++ icem.validl) :
    Holds icem (icemCandpairMakeValid cp icem) := by
  refine of_same rfl rfl rfl (fun x => (hl.perm_makeValid hcp).mem_iff) fun x => ?_
  exact makeValid_proj cp x icem fun p => by simp [Pair.validated]

theorem add (hl : Linked icem) {p : Pair} (hp : p.ctConn = none) {pairs : Nat → Pair} :
    Holds icem { icem with pairs := Function.update icem.pairs icem.allocs p, allocs := icem.allocs + 1,
                           checkl := listAddSorted pairs icem.allocs icem.checkl } := by
  have hperm : (listAddSorted pairs icem.allocs icem.checkl ++ icem.validl).Perm
      (icem.allocs :: (icem.checkl ++ icem.validl)) := (listAddSorted_perm).append_right _
  refine ⟨rfl, rfl, rfl, fun cp hcp => ⟨hperm.mem_iff.2 (mem_cons_of_mem _ hcp), ?_⟩, fun cp hcp hn => ?_⟩
  · dsimp only
    rw [Function.update_of_ne (hl.fresh cp hcp).ne]
  obtain rfl := (mem_cons.1 (hperm.mem_iff.1 hcp)).resolve_right hn
  dsimp only
  rw [Function.update_self, hp]

theorem confirm (hl : Linked icem) (hcp : cp ∈ icem.validl) : Holds icem (icem.confirm cp) := by
  have hsel : Holds (icemCandpairMakeValid cp icem) (icemCompSetSelected
      ((icemCandpairMakeValid cp icem).pairs cp).comp cp (icemCandpairMakeValid cp icem)) :=
    of_same rfl rfl rfl (fun _ => Iff.rfl) fun _ => rfl
  exact (makeValid hl (mem_append_right _ hcp)).trans (hsel.trans (set rfl))

theorem cloned (hl : Linked icem) {lcand rcand : Cand} (hr : rcand ∈ icem.rcandl) :
    Holds icem (icem.cloned cp lcand rcand) := by
  have hadd : Holds icem (icemCandpairClone cp lcand rcand icem).2 := add hl rfl
  exact hadd.trans (makeValid (hl.clone hr) (mem_append_left _ (mem_listAddSorted.2 (.inl rfl))))

theorem withLcand (cp : Nat) (laddr : Sdp.Sa) : Holds icem (withLcand env cp laddr icem) := by
  have hp := progress_withLcand env cp laddr icem
  refine of_same ?_ ?_ hp.tiebrk (fun _ => by rw [hp.checkl, hp.validl]) fun _ => by rw [withLcand_pairs]
  all_goals
    unfold Ice.withLcand
    split <;> rfl

theorem handleSuccess (hl : Linked icem) (hcp : cp ∈ icem.checkl ++ icem.validl) (laddr : Sdp.Sa) :
    Holds icem (handleSuccess env cp laddr icem) :=
  handleSuccess_inv hl hcp laddr (fun hw h => (withLcand cp laddr).trans (makeValid hw h))
    (fun hl hc h => h.trans (confirm hl hc)) fun hl _ hr h => h.trans (cloned hl hr)

theorem start (hl : Linked icem) : Holds icem (icemConncheckStart icem).2 := by
  by_cases hc : icem.checkl = []
  · have hinv : Linked (icemConncheckStart icem).2 ∧ Holds icem (icemConncheckStart icem).2 ∧
        (icemConncheckStart icem).2.validl = icem.validl := by
      refine icemConncheckStart_inv (P := fun s => Linked s ∧ Holds icem s ∧ s.validl = icem.validl)
        (fun s lcand rcand h hr => ⟨h.1.alloc lcand hr, ?_⟩) (fun s h => ⟨h.1.order, ?_⟩)
        (fun s h => ⟨h.1.prune, ?_⟩) (fun s _ _ h => ⟨h.1.still (Progress.book s _ _ _ _ _).still, ?_⟩)
        ⟨hl, .refl icem, rfl⟩
      · unfold icemCandpairAlloc
        split
        · exact h.2
        · exact ⟨h.2.1.trans (add h.1 rfl), h.2.2⟩
      · refine ⟨h.2.1.trans (of_same rfl rfl rfl (fun cp => ?_) fun cp => ?_), h.2.2⟩
        · exact ((listSort_perm _).append_right _).mem_iff
        · show (icemCandpairPrioOrder.pairs s cp).ctConn = _
          unfold icemCandpairPrioOrder.pairs
          split <;> rfl
      · have hsub : ∀ cp ∈ (candpairPrune s).checkl ++ s.validl, cp ∈ s.checkl ++ s.validl :=
          ((iceListUnique_sublist).append_right _).subset
        refine ⟨⟨h.2.1.tx, h.2.1.sends, h.2.1.tiebrk, fun cp hcp => ?_, fun cp hcp hn => ?_⟩, h.2.2⟩
        · rw [hc, nil_append] at hcp
          refine ⟨mem_append_right _ ?_, (h.2.1.old cp (mem_append_right _ hcp)).2⟩
          show cp ∈ s.validl
          rwa [h.2.2]
        · exact h.2.1.new cp (hsub cp hcp) hn
      · exact ⟨h.2.1.trans (of_same rfl rfl rfl (fun _ => Iff.rfl) fun _ => rfl), h.2.2⟩
    exact hinv.2.1
  · have hsame : (icemConncheckStart icem).2 = icem := by
      unfold icemConncheckStart icemChecklistForm
      simp [hc]
    rw [hsame]
    exact .refl icem

end Holds

/-! ## Requests go out -/

structure Sends (gone : Option Nat) (new : List Request) (icem icem' : Icem) : Prop where
  tx : icem'.tx = icem.tx ++ new
  tiebrk : icem'.tiebrk = icem.tiebrk
  role : ∀ r ∈ new, r.role = icem'.lrole ∧ r.role ≠ .unknown ∧ r.tiebrk = icem.tiebrk
  sends : icem.sends ≤ icem'.sends
  tids : (new.map (·.tid)).Nodup ∧ ∀ r ∈ new, icem.sends ≤ r.tid ∧ r.tid < icem'.sends
  pending : ∀ tid, Pending icem' tid ↔ (Pending icem tid ∧ gone ≠ some tid) ∨ ∃ r ∈ new, r.tid = tid

namespace Sends

theorem of_holds (h : Holds icem icem') : Sends none [] icem icem' :=
  ⟨by simp [h.tx], h.tiebrk, nofun, h.sends.ge, ⟨nodup_nil, nofun⟩, fun tid => by simp [h.pending]⟩

variable {gone : Option Nat}

theorem trans {new new' : List Request} (h : Sends gone new icem icem')
    (h' : Sends none new' icem' icem'') (hrole : icem''.lrole = icem'.lrole) :
    Sends gone (new ++ new') icem icem'' where
  tx := by rw [h'.tx, h.tx, append_assoc]
  tiebrk := h'.tiebrk.trans h.tiebrk
  role r hr := by
    rcases mem_append.1 hr with hr | hr
    · rw [hrole]
      exact h.role r hr
    · rw [← h.tiebrk]
      exact h'.role r hr
  sends := h.sends.trans h'.sends
  tids := by
    refine ⟨?_, fun r hr => ?_⟩
    · rw [map_append, nodup_append]
      refine ⟨h.tids.1, h'.tids.1, fun tid htid tid' htid' heq => ?_⟩
      obtain ⟨r, hr, rfl⟩ := mem_map.1 htid
      obtain ⟨r', hr', rfl⟩ := mem_map.1 htid'
      have hlt := (h.tids.2 r hr).2
      have hge := (h'.tids.2 r' hr').1
      omega
    · rcases mem_append.1 hr with hr | hr
      · exact ⟨(h.tids.2 r hr).1, (h.tids.2 r hr).2.trans_le h'.sends⟩
      · exact ⟨h.sends.trans (h'.tids.2 r hr).1, (h'.tids.2 r hr).2⟩
  pending tid := by
    rw [h'.pending, h.pending]
    simp only [mem_append, or_and_right, exists_or]
    simp [or_assoc]

theorem holds (h : Sends gone [] icem icem') (hh : Holds icem' icem'') : Sends gone [] icem icem'' :=
  ⟨hh.tx.trans h.tx, hh.tiebrk.trans h.tiebrk, nofun, hh.sends ▸ h.sends, ⟨nodup_nil, nofun⟩,
    fun tid => (hh.pending).trans (h.pending tid)⟩

theorem tracked_lt {new : List Request} (h : Sends gone new icem icem') (ht : Tracked icem) (hp : Pending icem' tid) :
    tid < icem'.sends := by
  rcases (h.pending tid).1 hp with ⟨hp, -⟩ | ⟨r, hr, rfl⟩
  · exact (ht.lt tid hp).trans_le h.sends
  · exact (h.tids.2 r hr).2

end Sends

theorem sends_sent (hcp : cp ∈ icem.checkl ++ icem.validl) (hct : (icem.pairs cp).ctConn = none)
    (hrole : icem.lrole ≠ .unknown) (useCand : Bool) :
    Sends none [icem.request cp useCand] icem (icem.sent cp useCand) := by
  refine ⟨rfl, rfl, ?_, Nat.le_succ _, ?_, fun tid => ?_⟩
  · simp only [mem_singleton, forall_eq]
    exact ⟨rfl, hrole, rfl⟩
  · simp only [map_cons, map_nil, nodup_singleton, mem_singleton, forall_eq, true_and]
    exact ⟨le_rfl, Nat.lt_succ_self _⟩
  simp only [mem_singleton, exists_eq_left, ne_eq, reduceCtorEq, not_false_eq_true, and_true]
  constructor
  · rintro ⟨x, hx, hxt⟩
    by_cases h : x = cp
    · subst h
      rw [sent_pairs_self] at hxt
      exact .inr (Option.some.inj hxt)
    · rw [sent_pairs_ne useCand h] at hxt
      exact .inl ⟨x, hx, hxt⟩
  · rintro (⟨x, hx, hxt⟩ | rfl)
    · have h : x ≠ cp := fun h => by rw [h, hct] at hxt; cases hxt
      exact ⟨x, hx, by rw [sent_pairs_ne useCand h, hxt]⟩
    · exact ⟨cp, hcp, by rw [sent_pairs_self]; rfl⟩

theorem tracked_sent (ht : Tracked icem) (hcp : cp ∈ icem.checkl ++ icem.validl)
    (hct : (icem.pairs cp).ctConn = none) (hrole : icem.lrole ≠ .unknown) {useCand : Bool} :
    Tracked (icem.sent cp useCand) where
  lt tid hp := (sends_sent hcp hct hrole useCand).tracked_lt ht hp
  inj x hx y hy tid hxt hyt := by
    have hlt : ∀ z ∈ icem.checkl ++ icem.validl, (icem.pairs z).ctConn ≠ some icem.sends :=
      fun z hz h => (ht.lt _ ⟨z, hz, h⟩).false
    by_cases hxc : x = cp
    · by_cases hyc : y = cp
      · rw [hxc, hyc]
      · rw [hxc, sent_pairs_self] at hxt
        rw [sent_pairs_ne useCand hyc, ← hxt] at hyt
        exact absurd hyt (hlt y hy)
    rw [sent_pairs_ne useCand hxc] at hxt
    by_cases hyc : y = cp
    · rw [hyc, sent_pairs_self] at hyt
      rw [← hyt] at hxt
      exact absurd hxt (hlt x hx)
    · rw [sent_pairs_ne useCand hyc] at hyt
      exact ht.inj x hx y hy tid hxt hyt

theorem sends_send (hcp : cp ∈ icem.checkl ++ icem.validl) (useCand : Bool) (ht : Tracked icem) :
    Tracked (icemConncheckSend env cp useCand icem).2 ∧
      ∃ new, Sends none new icem (icemConncheckSend env cp useCand icem).2 := by
  have htried : Holds icem (icem.tried cp) := .set (by simp)
  rcases icemConncheckSend_cases env cp useCand icem with ⟨e, h, -⟩ | ⟨e, h, -⟩ | ⟨h, -, hrole, hct⟩ <;> rw [h]
  · exact ⟨htried.tracked ht, [], .of_holds htried⟩
  · have hs := Sends.of_holds htried
    have ht' := htried.tracked ht
    refine ⟨⟨fun tid hp => (ht'.lt tid hp).trans (Nat.lt_succ_self _), ht'.inj⟩, [], ?_⟩
    exact ⟨hs.tx, hs.tiebrk, hs.role, Nat.le_succ _, ⟨nodup_nil, nofun⟩, hs.pending⟩
  · exact ⟨tracked_sent ht hcp hct hrole, _, sends_sent hcp hct hrole useCand⟩

theorem Micro.sends (h : Micro env icem icem') (ht : Tracked icem) :
    Tracked icem' ∧ ∃ new, Sends none new icem icem' := by
  have hholds : Holds icem icem' → Tracked icem' ∧ ∃ new, Sends none new icem icem' :=
    fun h => ⟨h.tracked ht, [], .of_holds h⟩
  cases h with
  | send cp useCand hcp => exact sends_send (mem_append.2 (hcp.imp_right (·.1))) useCand ht
  | fail | wait => exact hholds (.set (by simp))
  | nominate cp => exact hholds (.set rfl)
  | cands | book => exact hholds (.of_same rfl rfl rfl (fun _ => Iff.rfl) fun _ => rfl)

theorem Micros.sends (h : Micros env icem icem') (ht : Tracked icem) :
    Tracked icem' ∧ ∃ new, Sends none new icem icem' := by
  induction h with
  | refl => exact ⟨ht, [], .of_holds (.refl icem)⟩
  | tail _ hstep ih =>
    obtain ⟨ht', new, hs⟩ := ih
    obtain ⟨ht'', new', hs'⟩ := hstep.sends ht'
    exact ⟨ht'', _, hs.trans hs' hstep.progress.lrole⟩

/-! ## Calls and events -/

theorem Holds.switch (icem : Icem) : Holds icem (iceSwitchLocalRole icem) :=
  .of_same rfl rfl rfl (fun _ => Iff.rfl) fun _ => rfl

theorem sends_step {op : Op} (hop : op.quiet ∨ op = .start) (hl : Linked icem) (ht : Tracked icem) :
    Tracked (icem.step env op).1 ∧ (icem.step env op).1.lrole = icem.lrole ∧
      ∃ new, Sends none new icem (icem.step env op).1 := by
  rcases hop with hop | rfl
  · have hm : Micros env icem (icem.step env op).1 := micros_step op hop icem
    obtain ⟨ht', new, hs⟩ := hm.sends ht
    exact ⟨ht', hm.progress.lrole, new, hs⟩
  have hs : Holds icem (icemConncheckStart icem).2 := .start hl
  have hrole : (icemConncheckStart icem).2.lrole = icem.lrole := by
    refine icemConncheckStart_inv (P := fun s => s.lrole = icem.lrole) (fun s lcand rcand h _ => ?_)
      (fun _ h => h) (fun _ h => h) (fun _ _ _ h => h) rfl
    unfold icemCandpairAlloc
    split
    · exact h
    · exact h
  exact ⟨hs.tracked ht, hrole, [], .of_holds hs⟩

theorem sends_recv (env : Env) (compid : UInt32) (src : Sdp.Sa) (req : BindReq) (ht : Tracked icem) :
    Tracked (icemStundRecv env compid src req icem).2 ∧
      (icemStundRecv env compid src req icem).2.lrole =
        (if req.switches icem then iceSwitchLocalRole icem else icem).lrole ∧
      ∃ new, Sends none new icem (icemStundRecv env compid src req icem).2 := by
  have hm : Micros env _ (icemStundRecv env compid src req icem).2 := (softs_icemStundRecv compid src req icem).micros
  have hs : Holds icem (if req.switches icem then iceSwitchLocalRole icem else icem) := by
    split
    · exact .switch icem
    · exact .refl icem
  obtain ⟨ht', new, hs'⟩ := hm.sends (hs.tracked ht)
  exact ⟨ht', hm.progress.lrole, new, (Sends.of_holds hs).trans hs' hm.progress.lrole⟩

theorem sends_cancel (ht : Tracked icem) (htr : transaction icem tid = some cp) :
    Tracked (icemCandpairCancel cp icem) ∧ Sends (some tid) [] icem (icemCandpairCancel cp icem) := by
  have hcp : cp ∈ icem.checkl ++ icem.validl := transaction_mem htr
  have hct : (icem.pairs cp).ctConn = some tid := by simpa using find?_some htr
  have hpairs : ∀ x t, ((icemCandpairCancel cp icem).pairs x).ctConn = some t ↔
      x ≠ cp ∧ (icem.pairs x).ctConn = some t := by
    intro x t
    unfold icemCandpairCancel
    by_cases hx : x = cp
    · subst hx
      simp [set_pairs_self]
    · simp [set_pairs_ne _ hx, hx]
  refine ⟨⟨?_, ?_⟩, by simp [icemCandpairCancel, Icem.set], rfl, nofun, le_rfl, ⟨nodup_nil, nofun⟩, fun t => ?_⟩
  · rintro t ⟨x, hx, hxt⟩
    exact ht.lt t ⟨x, hx, ((hpairs x t).1 hxt).2⟩
  · intro x hx y hy t hxt hyt
    exact ht.inj x hx y hy t ((hpairs x t).1 hxt).2 ((hpairs y t).1 hyt).2
  simp only [not_mem_nil, false_and, exists_false, or_false]
  constructor
  · rintro ⟨x, hx, hxt⟩
    obtain ⟨hne, hxt⟩ := (hpairs x t).1 hxt
    refine ⟨⟨x, hx, hxt⟩, fun heq => hne ?_⟩
    rw [Option.some.inj heq] at hct
    exact ht.inj x hx cp hcp t hxt hct
  · rintro ⟨⟨x, hx, hxt⟩, hne⟩
    refine ⟨x, hx, (hpairs x t).2 ⟨fun h => hne ?_, hxt⟩⟩
    rw [← hct, ← hxt, h]

theorem micros_completed (htr : transaction icem tid = some cp) :
    Micros env (handleResp env cp resp (icemCandpairCancel cp icem)) (ctransCompleted env tid resp icem) := by
  rw [ctransCompleted, htr]
  exact micros_paceNext _

theorem sends_success (hl : Linked icem) (ht : Tracked icem)
    (htr : transaction icem tid = some cp) {laddr : Sdp.Sa} (hv : resp.verdict = .success laddr) :
    Tracked (ctransCompleted env tid resp icem) ∧ (ctransCompleted env tid resp icem).lrole = icem.lrole ∧
      ∃ new, Sends (some tid) new icem (ctransCompleted env tid resp icem) := by
  have hcp : cp ∈ icem.checkl ++ icem.validl := transaction_mem htr
  obtain ⟨htc, hsc⟩ := sends_cancel ht htr
  have hh : Holds (icemCandpairCancel cp icem) (handleSuccess env cp laddr (icemCandpairCancel cp icem)) :=
    .handleSuccess (hl.still (.cancel cp icem)) hcp laddr
  have hm := @micros_completed env _ _ _ resp htr
  rw [handleResp_success hv] at hm
  have hrole : (handleSuccess env cp laddr (icemCandpairCancel cp icem)).lrole = icem.lrole :=
    handleSuccess_lrole (hl.still (.cancel cp icem)) hcp
  obtain ⟨ht', new, hs⟩ := hm.sends (hh.tracked htc)
  exact ⟨ht', hm.progress.lrole.trans hrole, _, (hsc.holds hh).trans hs hm.progress.lrole⟩

/-- **A role conflict** ends the transaction, and the check is sent again in the other role. -/
theorem sends_conflict (hsend : ∀ tid, env.send tid = none) (ht : Tracked icem)
    (htr : transaction icem tid = some cp) (hv : resp.verdict = .conflict) :
    Tracked (ctransCompleted env tid resp icem) ∧
      (ctransCompleted env tid resp icem).lrole = (iceSwitchLocalRole icem).lrole ∧
      ∃ new, Sends (some tid) new icem (ctransCompleted env tid resp icem) ∧ new ≠ [] := by
  obtain ⟨htc, hsc⟩ := sends_cancel ht htr
  set icem1 := iceSwitchLocalRole (icemCandpairCancel cp icem) with h1
  have hh : Holds (icemCandpairCancel cp icem) icem1 := .switch _
  have hcp : cp ∈ icem.checkl ++ icem.validl := transaction_mem htr
  have hcp1 : cp ∈ icem1.checkl ++ icem1.validl := hcp
  have hct : (icem1.pairs cp).ctConn = none := by
    show ((icemCandpairCancel cp icem).pairs cp).ctConn = none
    rw [icemCandpairCancel, set_pairs_self]
  have hrole : icem1.lrole ≠ .unknown := by
    show (if _ then Role.controlled else Role.controlling) ≠ .unknown
    split <;> decide
  have hsent : icemConncheckSend env cp false icem1 = (none, icem1.sent cp false) := by
    rcases icemConncheckSend_cases env cp false icem1 with ⟨e, -, -, hr | ⟨-, hf⟩ | hs⟩ | ⟨e, -, he⟩ | ⟨h, -⟩
    · exact absurd hr hrole
    · cases hf
    · rw [hct] at hs
      cases hs
    · rw [hsend] at he
      cases he
    · exact h
  have hm := @micros_completed env _ _ _ resp htr
  rw [handleResp_conflict hv, ← h1, hsent] at hm
  obtain ⟨ht', new, hs⟩ := hm.sends (tracked_sent (hh.tracked htc) hcp1 hct hrole)
  have hs1 : Sends (some tid) _ icem (icem1.sent cp false) := (hsc.holds hh).trans (sends_sent hcp1 hct hrole false) rfl
  exact ⟨ht', hm.progress.lrole, _, hs1.trans hs hm.progress.lrole, by simp⟩

theorem sends_resp (hsend : ∀ tid, env.send tid = none) (hl : Linked icem) (ht : Tracked icem)
    (hv : resp.verdict ≠ .failure) :
    Tracked (ctransCompleted env tid resp icem) ∧
      ∃ new, Sends (some tid) new icem (ctransCompleted env tid resp icem) ∧
        (ctransCompleted env tid resp icem = icem ∨ resp.verdict = .conflict ∧ new ≠ [] ∧
            (ctransCompleted env tid resp icem).lrole = (iceSwitchLocalRole icem).lrole ∨
          (∃ laddr, resp.verdict = .success laddr) ∧ (ctransCompleted env tid resp icem).lrole = icem.lrole) := by
  cases htr : transaction icem tid with
  | none =>
    have hnot : ¬ Pending icem tid := by
      rw [← transaction_isSome, htr]
      simp
    have hsame : ctransCompleted env tid resp icem = icem := by
      unfold ctransCompleted
      rw [htr]
    rw [hsame]
    refine ⟨ht, [], ⟨by simp, rfl, nofun, le_rfl, ⟨nodup_nil, nofun⟩, fun t => ?_⟩, .inl rfl⟩
    simp only [not_mem_nil, false_and, exists_false, or_false]
    refine ⟨fun hp => ⟨hp, fun heq => hnot (Option.some.inj heq ▸ hp)⟩, fun hp => hp.1⟩
  | some cp =>
    cases hvd : resp.verdict with
    | failure => exact absurd hvd hv
    | success laddr =>
      obtain ⟨ht', hrole, new, hs⟩ := sends_success hl ht htr hvd
      exact ⟨ht', new, hs, .inr (.inr ⟨⟨laddr, rfl⟩, hrole⟩)⟩
    | conflict =>
      obtain ⟨ht', hrole, new, hs, hnew⟩ := sends_conflict hsend ht htr hvd
      exact ⟨ht', new, hs, .inr (.inl ⟨rfl, hnew, hrole⟩)⟩

end BareRTC.Ice
