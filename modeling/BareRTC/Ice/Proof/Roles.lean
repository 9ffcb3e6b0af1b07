import BareRTC.Ice.System
import BareRTC.Ice.Proof.Pending

/-!
# Role conflicts

Two agents with different tie-breakers. The one with the smaller tie-breaker keeps its role: its
requests are never refused, and it refuses those that come in its own role. The other one leaves
that role on the first conflict; an answer to an older request may bring it back, but then the
request that is sent again is in that role and will be refused too (`Settling`). So once no message
is on its way the roles differ (`agree_quiescent`). Since the comparison of the tie-breakers is the
same for both roles, the agent with the larger tie-breaker ends as the controlling one only if both
were controlled (`larger_controlling_iff`).
-/

namespace BareRTC.Ice

open List

open Sdp (Sa)

variable {env : Env} {icem icem' : Icem} {r : Request} {gone : Option Nat} {new : List Request} {resp : Resp}

theorem bindReq_role (h : r.role ≠ .unknown) : r.bindReq.role = (r.role, r.tiebrk) := by
  cases hr : r.role with
  | unknown => exact absurd hr h
  | controlling | controlled => simp [BindReq.role, Request.bindReq, hr]

theorem bindReq_switches (h : r.role ≠ .unknown) :
    r.bindReq.switches icem ↔ r.role = icem.lrole ∧ r.tiebrk ≤ icem.tiebrk := by
  unfold BindReq.switches
  rw [bindReq_role h]
  exact and_iff_right rfl

variable {compid : UInt32} {src : Sa}

theorem bindReq_reply (h : r.role ≠ .unknown) :
    (icemStundRecv env compid src r.bindReq icem).1 =
      if r.role = icem.lrole ∧ icem.tiebrk < r.tiebrk then .error 487 else .success src := by
  have hauth : r.bindReq.auth = .ok := rfl
  have hprio : r.bindReq.priority = some r.prio := rfl
  unfold icemStundRecv
  rw [hauth, bindReq_role h, hprio]
  dsimp only
  split <;> rfl

/-! ## One side -/

theorem mem_or_eraseIdx {α : Type} {x y : α} : ∀ {l : List α} {i : Nat}, l[i]? = some x → y ∈ l →
    y = x ∨ y ∈ l.eraseIdx i
  | a :: l, 0, hi, hy => by
    obtain rfl : a = x := by simpa using hi
    simpa using hy
  | a :: l, i + 1, hi, hy => by
    rw [eraseIdx_cons_succ, mem_cons]
    rcases mem_cons.1 hy with rfl | hy
    · exact .inr (.inl rfl)
    · exact (mem_or_eraseIdx (by simpa using hi) hy).imp_right .inr

structure Side (icem : Icem) (reqs : List Request) (resps : List (Nat × Resp)) : Prop where
  linked : Linked icem
  tracked : Tracked icem
  tids : (icem.tx.map (·.tid)).Nodup
  lt : ∀ r ∈ icem.tx, r.tid < icem.sends
  signed : ∀ r ∈ icem.tx, r.role ≠ .unknown ∧ r.tiebrk = icem.tiebrk
  sent : ∀ r ∈ reqs, r ∈ icem.tx
  flight : ∀ tid, Pending icem tid → (∃ r ∈ reqs, r.tid = tid) ∨ ∃ resp, (tid, resp) ∈ resps

variable {tid : Nat}

namespace Side

variable {reqs : List Request} {resps : List (Nat × Resp)}

/-- Requests go out, and the answers may be other ones if those for the transactions that still wait
are among them. -/
theorem sends (h : Side icem reqs resps) {resps' : List (Nat × Resp)}
    (hl : Linked icem') (ht : Tracked icem') (hs : Sends gone new icem icem')
    (hr : ∀ p ∈ resps, gone ≠ some p.1 → p ∈ resps') : Side icem' (reqs ++ new) resps' where
  linked := hl
  tracked := ht
  tids := by
    rw [hs.tx, map_append, nodup_append]
    refine ⟨h.tids, hs.tids.1, fun tid htid tid' htid' heq => ?_⟩
    obtain ⟨r, hr, rfl⟩ := mem_map.1 htid
    obtain ⟨r', hr', rfl⟩ := mem_map.1 htid'
    have hlt := h.lt r hr
    have hge := (hs.tids.2 r' hr').1
    omega
  lt r hr := by
    rw [hs.tx] at hr
    rcases mem_append.1 hr with hr | hr
    · exact (h.lt r hr).trans_le hs.sends
    · exact (hs.tids.2 r hr).2
  signed r hr := by
    rw [hs.tx] at hr
    rw [hs.tiebrk]
    rcases mem_append.1 hr with hr | hr
    · exact h.signed r hr
    · exact (hs.role r hr).2
  sent r hr := by
    rw [hs.tx]
    exact mem_append.2 ((mem_append.1 hr).imp_left (h.sent r))
  flight tid hp := by
    rcases (hs.pending tid).1 hp with ⟨hp, hne⟩ | ⟨r, hr', htid⟩
    · rcases h.flight tid hp with ⟨r, hr', htid⟩ | ⟨resp, hresp⟩
      · exact .inl ⟨r, mem_append_left _ hr', htid⟩
      · exact .inr ⟨resp, hr _ hresp hne⟩
    · exact .inl ⟨r, mem_append_right _ hr', htid⟩

theorem arrived (h : Side icem reqs resps) {i : Nat} (hi : reqs[i]? = some r) :
    Side icem (reqs.eraseIdx i) (resps ++ [(r.tid, resp)]) where
  __ := h
  sent r hr := h.sent r (mem_of_mem_eraseIdx hr)
  flight tid hp := by
    rcases h.flight tid hp with ⟨r', hr', htid⟩ | ⟨resp', hresp⟩
    · rcases mem_or_eraseIdx hi hr' with rfl | hr'
      · exact .inr ⟨resp, by simp [htid]⟩
      · exact .inl ⟨r', hr', htid⟩
    · exact .inr ⟨resp', mem_append_left _ hresp⟩

theorem resend (h : Side icem reqs resps) {again : List Request} (hr : ∀ r ∈ again, r ∈ icem.tx) :
    Side icem (reqs ++ again) resps where
  __ := h
  sent r hr' := (mem_append.1 hr').elim (h.sent r) (hr r)
  flight tid hp := (h.flight tid hp).imp_left fun ⟨r, hr', htid⟩ => ⟨r, mem_append_left _ hr', htid⟩

theorem not_pending (h : Side icem [] []) : ¬ Pending icem tid := by
  intro hp
  rcases h.flight tid hp with ⟨r, hr, -⟩ | ⟨resp, hr⟩
  · cases hr
  · cases hr

end Side

theorem answers {reqs : List Request} {resps : List (Nat × Resp)} (h : Side icem reqs resps)
    (hknown : r.role ≠ .unknown) (compid : UInt32) (src : Sa) :
    ∃ icem' resp new, Linked icem' ∧ Tracked icem' ∧ Sends none new icem icem' ∧
      icem'.lrole = (if r.role = icem.lrole ∧ r.tiebrk ≤ icem.tiebrk then iceSwitchLocalRole icem else icem).lrole ∧
      resp.verdict = (if r.role = icem.lrole ∧ icem.tiebrk < r.tiebrk then .conflict else .success src) ∧
      ((icemStundRecv env compid src r.bindReq icem).2 = icem' ∧
        (icemStundRecv env compid src r.bindReq icem).1.resp = some resp) := by
  obtain ⟨ht, hrole, new, hs⟩ := sends_recv env compid src r.bindReq h.tracked
  have hl : Linked (icemStundRecv env compid src r.bindReq icem).2 := h.linked.still (.recv compid)
  obtain ⟨resp, hresp, hverdict⟩ : ∃ resp, (icemStundRecv env compid src r.bindReq icem).1.resp = some resp ∧
      resp.verdict = if r.role = icem.lrole ∧ icem.tiebrk < r.tiebrk then .conflict else .success src := by
    rw [bindReq_reply hknown]
    split
    · exact ⟨_, rfl, rfl⟩
    · exact ⟨_, rfl, rfl⟩
  refine ⟨_, resp, new, hl, ht, hs, ?_, hverdict, rfl, hresp⟩
  simp only [hrole, bindReq_switches hknown]

/-! ## The two roles -/

theorem Sends.old (hs : Sends gone new icem icem') (hr : r ∈ icem.tx) : r ∈ icem'.tx := hs.tx ▸ mem_append_left _ hr

theorem Sends.role_tx {l : Role} (hs : Sends gone new icem icem') (htx : ∀ r ∈ icem.tx, r.role = l)
    (hrole : icem'.lrole = l) : ∀ r ∈ icem'.tx, r.role = l := by
  rw [hs.tx]
  exact forall_mem_append.2 ⟨htx, fun r hr => (hs.role r hr).1.trans hrole⟩

structure Settling (l s : Role) (small big : Icem) (smallResps bigResps : List (Nat × Resp)) (processed : Nat) :
    Prop where
  less : small.tiebrk < big.tiebrk
  keeps : small.lrole = s
  inRole : ∀ r ∈ small.tx, r.role = s
  granted : ∀ p ∈ smallResps, ∃ laddr, p.2.verdict = .success laddr
  answered : ∀ p ∈ bigResps, ∃ r ∈ big.tx, r.tid = p.1 ∧
    (r.role = s ∧ p.2.verdict = .conflict ∨ r.role ≠ s ∧ ∃ laddr, p.2.verdict = .success laddr)
  waits : big.lrole = s → (∃ r ∈ big.tx, r.role = s ∧ Pending big r.tid) ∨ l = s ∧ processed = 0
  first : processed = 0 → bigResps = [] ∧ big.lrole = l ∧ ∀ r ∈ big.tx, r.role = l ∧ Pending big r.tid
  apart : l ≠ s → big.lrole = l ∧ ∀ r ∈ big.tx, r.role = l
  known : big.lrole = .unknown ↔ l = .unknown

namespace Settling

variable {l s : Role} {small big icem' : Icem} {smallResps bigResps bigResps' : List (Nat × Resp)} {n : Nat}
  {p : Nat × Resp}

section
variable (h : Settling l s small big smallResps bigResps n)
include h

/-- The agent with the smaller tie-breaker goes on, and answers are taken from the way. -/
theorem small_sends
    {smallResps' : List (Nat × Resp)} (hs : Sends gone new small icem') (hrole : icem'.lrole = small.lrole)
    (hsub : smallResps' ⊆ smallResps) : Settling l s icem' big smallResps' bigResps n where
  __ := h
  less := hs.tiebrk ▸ h.less
  keeps := hrole.trans h.keeps
  inRole := hs.role_tx h.inRole (hrole.trans h.keeps)
  granted p hp := h.granted p (hsub hp)

theorem answered_sends (hs : Sends gone new big icem') (hp : p ∈ bigResps) : ∃ r ∈ icem'.tx, r.tid = p.1 ∧
    (r.role = s ∧ p.2.verdict = .conflict ∨ r.role ≠ s ∧ ∃ laddr, p.2.verdict = .success laddr) := by
  obtain ⟨r, hr, hrest⟩ := h.answered p hp
  exact ⟨r, hs.old hr, hrest⟩

theorem apart_sends (hs : Sends gone new big icem') (hrole : icem'.lrole = big.lrole) (hne : l ≠ s) :
    icem'.lrole = l ∧ ∀ r ∈ icem'.tx, r.role = l := by
  obtain ⟨hl, htx⟩ := h.apart hne
  exact ⟨hrole.trans hl, hs.role_tx htx (hrole.trans hl)⟩

theorem big_sends (hs : Sends none new big icem') (hrole : icem'.lrole = big.lrole) :
    Settling l s small icem' smallResps bigResps n where
  __ := h
  less := hs.tiebrk ▸ h.less
  answered _ := h.answered_sends hs
  waits hr := by
    refine (h.waits (hrole ▸ hr)).imp_left fun ⟨r, hmem, hrs, hp⟩ => ?_
    exact ⟨r, hs.old hmem, hrs, (hs.pending _).2 (.inl ⟨hp, nofun⟩)⟩
  first hn := by
    obtain ⟨hresps, hl, htx⟩ := h.first hn
    refine ⟨hresps, hrole.trans hl, fun r hr => ?_⟩
    rw [hs.tx] at hr
    rcases mem_append.1 hr with hr | hr
    · obtain ⟨hrl, hp⟩ := htx r hr
      exact ⟨hrl, (hs.pending _).2 (.inl ⟨hp, nofun⟩)⟩
    · exact ⟨(hs.role r hr).1.trans (hrole.trans hl), (hs.pending _).2 (.inr ⟨r, hr, rfl⟩)⟩
  apart := h.apart_sends hs hrole
  known := hrole ▸ h.known

/-- A request of the agent with the smaller tie-breaker has arrived: the other one leaves its role,
and answers. -/
theorem small_request {tid : Nat} {laddr : Sa} (hs : Sends none new big icem') (hknown : s ≠ .unknown)
    (hrole : icem'.lrole = if big.lrole = s then (iceSwitchLocalRole big).lrole else big.lrole)
    (hv : resp.verdict = .success laddr) :
    Settling l s small icem' (smallResps ++ [(tid, resp)]) bigResps (n + 1) := by
  have hne : icem'.lrole ≠ s := by
    rw [hrole]
    split
    · rename_i hbig
      rw [iceSwitchLocalRole, hbig]
      cases s <;> simp
    · assumption
  refine ⟨hs.tiebrk ▸ h.less, h.keeps, h.inRole, ?_, fun _ => h.answered_sends hs, fun hr => absurd hr hne, nofun,
    fun hls => h.apart_sends hs ?_ hls, ?_⟩
  · intro p hp
    rcases mem_append.1 hp with hp | hp
    · exact h.granted p hp
    · rw [mem_singleton.1 hp]
      exact ⟨laddr, hv⟩
  · rw [hrole, if_neg ((h.apart hls).1 ▸ hls)]
  rw [hrole]
  split
  · rename_i hbig
    have hl : l ≠ .unknown := fun hl => hknown (hbig ▸ h.known.2 hl)
    refine ⟨fun hr => ?_, fun hr => absurd hr hl⟩
    rw [iceSwitchLocalRole] at hr
    split at hr <;> cases hr
  · exact h.known

/-- A request of the agent with the larger tie-breaker has arrived: it is refused if it is in the
role of the other one. -/
theorem big_request (hs : Sends none new small icem') (hrole : icem'.lrole = small.lrole) (hr : r ∈ big.tx)
    (hv : r.role = s ∧ resp.verdict = .conflict ∨ r.role ≠ s ∧ ∃ laddr, resp.verdict = .success laddr) :
    Settling l s icem' big smallResps (bigResps ++ [(r.tid, resp)]) (n + 1) := by
  have h' := h.small_sends hs hrole fun _ h => h
  refine ⟨h'.less, h'.keeps, h'.inRole, h'.granted, ?_, fun hb => .inl ?_, nofun, h.apart, h.known⟩
  · intro p hp
    rcases mem_append.1 hp with hp | hp
    · exact h.answered p hp
    · rw [mem_singleton.1 hp]
      exact ⟨r, hr, rfl, hv⟩
  rcases h.waits hb with hw | ⟨hls, hn⟩
  · exact hw
  -- the first request that arrives is one in the role that both had at first, and it still waits
  · obtain ⟨hrl, hp⟩ := (h.first hn).2.2 r hr
    exact ⟨r, hr, hrl.trans hls, hp⟩

end

theorem erase (h : Settling l s small big smallResps bigResps n)
    (hsub : bigResps' ⊆ bigResps) : Settling l s small big smallResps bigResps' n :=
  ⟨h.less, h.keeps, h.inRole, h.granted, fun p hp => h.answered p (hsub hp), h.waits,
    fun hn => ⟨eq_nil_of_subset_nil ((h.first hn).1 ▸ hsub), (h.first hn).2⟩, h.apart, h.known⟩

section
variable (h : Settling l s small big smallResps bigResps n)
include h

theorem processed_ne (hp : p ∈ bigResps) : n ≠ 0 := by
  intro hn
  rw [(h.first hn).1] at hp
  cases hp

/-- The agent with the larger tie-breaker gets a success: the request that waits in the other one's
role is another one. -/
theorem big_success (htids : (big.tx.map (·.tid)).Nodup) (hp : p ∈ bigResps) {laddr : Sa}
    (hv : p.2.verdict = .success laddr)
    (hs : Sends (some p.1) new big icem') (hrole : icem'.lrole = big.lrole)
    (hsub : bigResps' ⊆ bigResps) : Settling l s small icem' smallResps bigResps' n where
  __ := h
  less := hs.tiebrk ▸ h.less
  answered _ hq := h.answered_sends hs (hsub hq)
  waits hr := by
    obtain ⟨r', hr', htid, hrole'⟩ := h.answered p hp
    have hne : r'.role ≠ s := by
      rcases hrole' with ⟨-, hc⟩ | ⟨hne, -⟩
      · rw [hv] at hc
        cases hc
      · exact hne
    refine (h.waits (hrole ▸ hr)).imp_left fun ⟨r, hmem, hrs, hpend⟩ => ?_
    refine ⟨r, hs.old hmem, hrs, (hs.pending _).2 (.inl ⟨hpend, fun heq => hne ?_⟩)⟩
    rw [inj_on_of_nodup_map htids hr' hmem (htid.trans (Option.some.inj heq)), hrs]
  first hn := absurd hn (h.processed_ne hp)
  apart := h.apart_sends hs hrole
  known := hrole ▸ h.known

/-- The agent with the larger tie-breaker is refused: if that brings it back into the other one's
role, the check that it sends again is in this role. -/
theorem big_conflict (hsigned : ∀ r ∈ big.tx, r.role ≠ .unknown) (hp : p ∈ bigResps)
    (hv : p.2.verdict = .conflict) (hs : Sends (some p.1) new big icem') (hnew : new ≠ [])
    (hrole : icem'.lrole = (iceSwitchLocalRole big).lrole)
    (hsub : bigResps' ⊆ bigResps) : Settling l s small icem' smallResps bigResps' n := by
  obtain ⟨r, hr, -, hrole'⟩ := h.answered p hp
  have hrs : r.role = s := by
    rcases hrole' with ⟨hrs, -⟩ | ⟨-, laddr, hc⟩
    · exact hrs
    · rw [hv] at hc
      cases hc
  have hls : l = s := by
    by_contra hne
    exact hne (((h.apart hne).2 r hr).symm.trans hrs)
  refine ⟨hs.tiebrk ▸ h.less, h.keeps, h.inRole, h.granted, fun _ hq => h.answered_sends hs (hsub hq),
    fun hb => .inl ?_, fun hn => absurd hn (h.processed_ne hp), fun hne => absurd hls hne, ?_⟩
  · obtain ⟨r, hr⟩ := exists_mem_of_ne_nil new hnew
    exact ⟨r, hs.tx ▸ mem_append_right _ hr, (hs.role r hr).1.trans hb, (hs.pending _).2 (.inr ⟨r, hr, rfl⟩)⟩
  have hl : l ≠ .unknown := hls ▸ hrs ▸ hsigned r hr
  refine ⟨fun hu => ?_, fun hu => absurd hu hl⟩
  rw [hrole, iceSwitchLocalRole] at hu
  split at hu <;> cases hu

end

end Settling

/-! ## Both agents and their messages -/

theorem eq_or_eq_not (b c : Bool) : c = b ∨ c = !b := by cases b <;> cases c <;> simp

section
variable (net : Net) (b : Bool) (icem : Icem) (reqs : List Request) (resps : List (Nat × Resp))

@[simp] theorem setReqs_agent : (net.setReqs b reqs).agent = net.agent := rfl
@[simp] theorem setReqs_resps : (net.setReqs b reqs).resps = net.resps := rfl
@[simp] theorem setReqs_processed : (net.setReqs b reqs).processed = net.processed := rfl
@[simp] theorem setReqs_self : (net.setReqs b reqs).reqs b = reqs := Function.update_self ..
@[simp] theorem setReqs_not : (net.setReqs b reqs).reqs (!b) = net.reqs (!b) :=
  Function.update_of_ne (Bool.not_ne_self b) ..

@[simp] theorem setResps_agent : (net.setResps b resps).agent = net.agent := rfl
@[simp] theorem setResps_reqs : (net.setResps b resps).reqs = net.reqs := rfl
@[simp] theorem setResps_processed : (net.setResps b resps).processed = net.processed := rfl
@[simp] theorem setResps_self : (net.setResps b resps).resps b = resps := Function.update_self ..
@[simp] theorem setResps_not : (net.setResps b resps).resps (!b) = net.resps (!b) :=
  Function.update_of_ne (Bool.not_ne_self b) ..
@[simp] theorem setResps_of_not : (net.setResps (!b) resps).resps b = net.resps b :=
  Function.update_of_ne (Bool.self_ne_not b) ..

@[simp] theorem act_agent_self : (net.act b icem).agent b = icem := Function.update_self ..
@[simp] theorem act_agent_not : (net.act b icem).agent (!b) = net.agent (!b) :=
  Function.update_of_ne (Bool.not_ne_self b) ..
@[simp] theorem act_agent_of_not : (net.act (!b) icem).agent b = net.agent b :=
  Function.update_of_ne (Bool.self_ne_not b) ..
@[simp] theorem act_reqs_not : (net.act b icem).reqs (!b) = net.reqs (!b) := setReqs_not ..
@[simp] theorem act_reqs_of_not : (net.act (!b) icem).reqs b = net.reqs b :=
  Function.update_of_ne (Bool.self_ne_not b) ..
@[simp] theorem act_resps : (net.act b icem).resps = net.resps := rfl
@[simp] theorem act_processed : (net.act b icem).processed = net.processed := rfl

end

theorem act_reqs_self {net : Net} {b : Bool}
    (hs : Sends gone new (net.agent b) icem) : (net.act b icem).reqs b = net.reqs b ++ new := by
  have htx : icem.tx.drop (net.agent b).tx.length = new := by rw [hs.tx, drop_left]
  rw [← htx]
  exact setReqs_self ..

structure Resolving (l s : Role) (big : Bool) (net : Net) : Prop where
  side : ∀ b, Side (net.agent b) (net.reqs b) (net.resps b)
  roles : Settling l s (net.agent !big) (net.agent big) (net.resps !big) (net.resps big) net.processed

def Net.answered (net : Net) (b : Bool) (i : Nat) (icem : Icem) (p : Nat × Resp) : Net :=
  { ((net.setReqs b ((net.reqs b).eraseIdx i)).setResps b (net.resps b ++ [p])).act (!b) icem with
    processed := net.processed + 1 }

namespace Resolving

variable {l s : Role} {big : Bool} {net : Net}

theorem act (h : Resolving l s big net) {b : Bool} (hl : Linked icem) (ht : Tracked icem)
    (hs : Sends none new (net.agent b) icem) (hrole : icem.lrole = (net.agent b).lrole) :
    Resolving l s big (net.act b icem) where
  side c := by
    rcases eq_or_eq_not b c with rfl | rfl
    · simpa [act_reqs_self hs] using (h.side c).sends hl ht hs fun _ hp _ => hp
    · simpa using h.side !b
  roles := by
    rcases eq_or_eq_not big b with rfl | rfl
    · simpa using h.roles.big_sends hs hrole
    · simpa using h.roles.small_sends hs hrole fun _ h => h

theorem resend (h : Resolving l s big net) {b : Bool} : Resolving l s big (net.resend b tid) := by
  unfold Net.resend
  split
  · refine ⟨fun c => ?_, h.roles⟩
    rcases eq_or_eq_not b c with rfl | rfl
    · rw [setReqs_agent, setReqs_self, setReqs_resps]
      refine (h.side c).resend fun r hr => ?_
      exact mem_of_find?_eq_some (Option.mem_toList.1 hr)
    · simpa using h.side !b
  · exact h

theorem response {env : Bool → Env} (hsend : ∀ b tid, (env b).send tid = none) (h : Resolving l s big net) {b : Bool}
    {i : Nat} : Resolving l s big (net.response env b i) := by
  unfold Net.response
  cases hi : (net.resps b)[i]? with
  | none => exact h
  | some p =>
    obtain ⟨tid, resp⟩ := p
    have hp : (tid, resp) ∈ net.resps b := mem_of_getElem? hi
    have hsub : (net.resps b).eraseIdx i ⊆ net.resps b := fun _ => mem_of_mem_eraseIdx
    have hv : resp.verdict ≠ .failure := by
      rcases eq_or_eq_not big b with rfl | rfl
      · obtain ⟨r, -, -, ⟨-, hv⟩ | ⟨-, laddr, hv⟩⟩ := h.roles.answered _ hp <;> simp [hv]
      · obtain ⟨laddr, hv⟩ := h.roles.granted _ hp
        simp [hv]
    obtain ⟨ht, new, hs, hcases⟩ := sends_resp (hsend b) (h.side b).linked (h.side b).tracked hv
    have hl : Linked (ctransCompleted (env b) tid resp (net.agent b)) :=
      linked_ctransCompleted (h.side b).linked
    have hs' : Sends (some tid) new ((net.setResps b ((net.resps b).eraseIdx i)).agent b)
        (ctransCompleted (env b) tid resp (net.agent b)) := hs
    show Resolving l s big
      ((net.setResps b ((net.resps b).eraseIdx i)).act b (ctransCompleted (env b) tid resp (net.agent b)))
    refine ⟨fun c => ?_, ?_⟩
    · rcases eq_or_eq_not b c with rfl | rfl
      · simp only [act_agent_self, act_reqs_self hs', act_resps, setResps_self, setResps_reqs]
        refine (h.side c).sends hl ht hs fun q hq hne => ?_
        exact (mem_or_eraseIdx hi hq).resolve_left fun heq => hne (by rw [heq])
      · simpa using h.side !b
    rcases eq_or_eq_not big b with rfl | rfl
    · rcases hcases with hsame | ⟨hc, hnew, hrole⟩ | ⟨⟨laddr, hsucc⟩, hrole⟩
      · simpa [hsame] using h.roles.erase hsub
      · simpa using h.roles.big_conflict (fun r hr => ((h.side b).signed r hr).1) hp hc hs hnew hrole hsub
      · simpa using h.roles.big_success (h.side b).tids hp hsucc hs hrole hsub
    obtain ⟨laddr, hv⟩ := h.roles.granted _ hp
    have hrole : (ctransCompleted (env !big) tid resp (net.agent !big)).lrole = (net.agent !big).lrole := by
      rcases hcases with hsame | ⟨hc, -⟩ | ⟨-, hrole⟩
      · rw [hsame]
      · rw [hv] at hc
        cases hc
      · exact hrole
    simpa using h.roles.small_sends hs hrole hsub

theorem answered (h : Resolving l s big net) {b : Bool} {i : Nat} (hi : (net.reqs b)[i]? = some r)
    (hl : Linked icem) (ht : Tracked icem) (hs : Sends none new (net.agent !b) icem)
    (hrole : icem.lrole = (if r.role = (net.agent !b).lrole ∧ r.tiebrk ≤ (net.agent !b).tiebrk
      then iceSwitchLocalRole (net.agent !b) else net.agent !b).lrole) {src : Sa} (hv : resp.verdict =
      if r.role = (net.agent !b).lrole ∧ (net.agent !b).tiebrk < r.tiebrk then .conflict else .success src) :
    Resolving l s big (net.answered b i icem (r.tid, resp)) := by
  have hs1 : Sends none new (((net.setReqs b ((net.reqs b).eraseIdx i)).setResps b
      (net.resps b ++ [(r.tid, resp)])).agent !b) icem := hs
  have hr : r ∈ (net.agent b).tx := (h.side b).sent r (mem_of_getElem? hi)
  obtain ⟨hknown, htiebrk⟩ := (h.side b).signed r hr
  refine ⟨fun c => ?_, ?_⟩
  · rcases eq_or_eq_not b c with rfl | rfl
    · simpa [Net.answered] using (h.side c).arrived hi
    · simpa [Net.answered, act_reqs_self hs1] using (h.side !b).sends hl ht hs fun _ hp _ => hp
  rcases eq_or_eq_not big b with rfl | rfl
  -- at the agent with the smaller tie-breaker
  · have hless := h.roles.less
    have hkeeps := h.roles.keeps
    rw [htiebrk, hkeeps] at hrole hv
    rw [if_neg fun hc => UInt64.not_lt.2 hc.2 hless] at hrole
    have hroles : Settling l s icem (net.agent b) (net.resps !b) (net.resps b ++ [(r.tid, resp)])
        (net.processed + 1) := by
      refine h.roles.big_request hs hrole hr ?_
      by_cases hrs : r.role = s
      · rw [if_pos ⟨hrs, hless⟩] at hv
        exact .inl ⟨hrs, hv⟩
      · rw [if_neg fun hc => hrs hc.1] at hv
        exact .inr ⟨hrs, _, hv⟩
    simpa [Net.answered] using hroles
  -- at the agent with the larger tie-breaker
  · have hless := h.roles.less
    have hrs : r.role = s := h.roles.inRole r hr
    rw [Bool.not_not] at hs hrole hv
    rw [htiebrk, hrs] at hrole hv
    rw [if_neg fun hc => UInt64.lt_asymm hc.2 hless] at hv
    have hroles : Settling l s (net.agent !big) icem (net.resps (!big) ++ [(r.tid, resp)]) (net.resps big)
        (net.processed + 1) := by
      refine h.roles.small_request hs (hrs ▸ hknown) ?_ hv
      rw [hrole]
      by_cases hbig : (net.agent big).lrole = s
      · rw [if_pos hbig, if_pos ⟨hbig.symm, UInt64.le_of_lt hless⟩]
      · rw [if_neg hbig, if_neg fun hc => hbig hc.1.symm]
    simpa [Net.answered] using hroles

theorem request {env : Bool → Env} (h : Resolving l s big net) {b : Bool} (i : Nat) :
    Resolving l s big (net.request env b i compid src) := by
  unfold Net.request
  cases hi : (net.reqs b)[i]? with
  | none => exact h
  | some r =>
    by_cases hcomp : (icemCompFind (net.agent !b) compid).isNone
    · simpa [hcomp] using h
    have hr : r ∈ (net.agent b).tx := (h.side b).sent r (mem_of_getElem? hi)
    obtain ⟨icem, resp, new, hl, ht, hs, hrole, hv, hicem, hresp⟩ := @answers (env !b) _ r _ _ (h.side !b)
      ((h.side b).signed r hr).1 compid src
    have heq : (net.agent !b).step (env !b) (.recv compid src r.bindReq) =
        (icem, (icemStundRecv (env !b) compid src r.bindReq (net.agent !b)).1) := by
      rw [← hicem]
      exact if_pos (by simpa [Option.isNone_iff_eq_none, Option.isSome_iff_ne_none] using hcomp)
    have hgoal := h.answered hi hl ht hs hrole hv
    simpa [hcomp, heq, hresp, Net.answered] using hgoal

/-- **What two agents do keeps their roles on the way to an agreement.** -/
theorem step {env : Bool → Env} (hsend : ∀ b tid, (env b).send tid = none) (h : Resolving l s big net) (ev : Ev) :
    Resolving l s big (net.step env ev).1 := by
  have hcall : ∀ b op, op.quiet ∨ op = .start →
      Resolving l s big (net.act b ((net.agent b).step (env b) op).1) := by
    intro b op hop
    obtain ⟨ht, hrole, new, hs⟩ := @sends_step (env b) _ op hop (h.side b).linked (h.side b).tracked
    exact h.act (linked_step (h.side b).linked op) ht hs hrole
  cases ev with
  | call b op =>
    cases op with
    | setRole | lite | resp | recv | stop | update => exact h
    | start => exact hcall b .start (.inr rfl)
    | compAdd | candAdd | lcandAdd | rcandAdd | redundElim | setStates | pace | cont => exact hcall b _ (.inl rfl)
  | request b i compid src => exact h.request i
  | response b i => exact h.response hsend
  | resend b tid => exact h.resend

end Resolving

variable {agent : Bool → Icem} {role : Bool → Role} {tiebrk : Bool → UInt64} {lufrag lpwd : Bool → Bytes}
  {chkh : Bool → Bool} {big : Bool}

theorem side_init {full udp chkh : Bool} {role : Role} {tiebrk : UInt64} {lufrag lpwd : Bytes}
    (h : icemAlloc full udp role tiebrk lufrag lpwd chkh = .ok icem) : Side icem [] [] := by
  obtain ⟨hc, hv, -, -, -, htx⟩ := icemAlloc_ok h
  have hnone : ∀ tid, ¬ Pending icem tid := by
    rintro tid ⟨cp, hcp, -⟩
    rw [hc, hv] at hcp
    cases hcp
  refine ⟨linked_init h, ⟨fun tid hp => absurd hp (hnone tid), fun cp hcp => ?_⟩, ?_, ?_, ?_, nofun,
    fun tid hp => absurd hp (hnone tid)⟩
  · rw [hc, hv] at hcp
    cases hcp
  all_goals simp [htx]

theorem resolving_init (h : ∀ b, icemAlloc true true (role b) (tiebrk b) (lufrag b) (lpwd b) (chkh b) = .ok (agent b))
    (hlt : tiebrk (!big) < tiebrk big) : Resolving (role big) (role !big) big (Net.init agent) := by
  have hok := fun b => icemAlloc_ok (h b)
  refine ⟨fun b => side_init (h b), ?_⟩
  obtain ⟨-, -, hr, ht, -, htx⟩ := hok big
  obtain ⟨-, -, hr', ht', -, htx'⟩ := hok !big
  refine ⟨?_, hr', ?_, nofun, nofun, ?_, ?_, ?_, ?_⟩
  · simpa [Net.init, ht, ht'] using hlt
  · simp [Net.init, htx']
  · exact fun hs => .inr ⟨hr.symm.trans hs, rfl⟩
  all_goals simp [Net.init, hr, htx]

theorem resolving_exec {env : Bool → Env} (hsend : ∀ b tid, (env b).send tid = none)
    (h : ∀ b, icemAlloc true true (role b) (tiebrk b) (lufrag b) (lpwd b) (chkh b) = .ok (agent b))
    (hlt : tiebrk (!big) < tiebrk big) {evs : List Ev} :
    Resolving (role big) (role !big) big (exec (Net.step env) (Net.init agent) evs) :=
  exec_inv_all (Resolving (role big) (role !big) big) (fun _ ev hr => hr.step hsend ev) evs _ (resolving_init h hlt)

/-- When nothing is on the way, the agent with the larger tie-breaker has another role than the
other one, which has the role that it had at first. -/
theorem Resolving.quiescent {l s : Role} {net : Net} (h : Resolving l s big net) (hq : net.Quiescent)
    (hn : net.processed ≠ 0) : (net.agent !big).lrole = s ∧ (net.agent big).lrole ≠ s ∧
      (l ≠ s → (net.agent big).lrole = l) ∧ ((net.agent big).lrole = .unknown ↔ l = .unknown) := by
  refine ⟨h.roles.keeps, fun hs => ?_, fun hne => (h.roles.apart hne).1, h.roles.known⟩
  have hside := h.side big
  rw [(hq big).1, (hq big).2] at hside
  rcases h.roles.waits hs with ⟨r, -, -, hp⟩ | ⟨-, h0⟩
  · exact hside.not_pending hp
  · exact hn h0

theorem role_of_quiescent {l s r : Role} (hne : r ≠ s) (hapart : l ≠ s → r = l) (hknown : r = .unknown ↔ l = .unknown)
    (hl : l = .unknown → s ≠ .controlled) (hs : s = .unknown → l ≠ .controlled) (hctl : s ≠ .controlling) :
    r = .controlling := by
  cases s <;> cases l <;> cases r <;> simp_all

/-- **Once no message is on its way, exactly one agent is controlling**, unless one of the two
agents had no role at first and the other one was controlled. -/
theorem agree_quiescent {env : Bool → Env} (hsend : ∀ b tid, (env b).send tid = none)
    (h : ∀ b, icemAlloc true true (role b) (tiebrk b) (lufrag b) (lpwd b) (chkh b) = .ok (agent b))
    (htie : tiebrk true ≠ tiebrk false) (hrole : ∀ b, role b = .unknown → role (!b) ≠ .controlled) (evs : List Ev)
    (hq : (exec (Net.step env) (Net.init agent) evs).Quiescent)
    (hn : (exec (Net.step env) (Net.init agent) evs).processed ≠ 0) :
    ∃! b, ((exec (Net.step env) (Net.init agent) evs).agent b).lrole = .controlling := by
  obtain ⟨big, hlt⟩ : ∃ big, tiebrk (!big) < tiebrk big := by
    rcases UInt64.lt_or_lt_of_ne htie with hlt | hlt
    · exact ⟨false, hlt⟩
    · exact ⟨true, hlt⟩
  obtain ⟨hsmall, hbig, hapart, hknown⟩ := (resolving_exec hsend h hlt).quiescent hq hn
  cases hs : role !big with
  | controlling =>
    rw [hs] at hsmall hbig
    refine ⟨!big, hsmall, fun b hb => ?_⟩
    rcases eq_or_eq_not big b with rfl | rfl
    · exact absurd hb hbig
    · rfl
  | controlled | unknown =>
    -- the other agent is the controlling one
    have hctl : ((exec (Net.step env) (Net.init agent) evs).agent big).lrole = .controlling := by
      refine role_of_quiescent hbig hapart hknown (hrole big) (fun h => ?_) (by simp [hs])
      exact Bool.not_not big ▸ hrole _ h
    refine ⟨big, hctl, fun b hb => ?_⟩
    rcases eq_or_eq_not big b with rfl | rfl
    · rfl
    · rw [hsmall, hs] at hb
      cases hb

def oneSided : List Ev :=
  [.call false (.compAdd 1 5000), .call true (.compAdd 1 5000), .call true (.candAdd 1 0 ⟨.inet 1, 0⟩),
   .call true (.rcandAdd .host 1 7 ⟨.inet 2, 5000⟩), .call true .start, .call true .pace,
   .request true 0 1 ⟨.inet 1, 5000⟩, .response true 0, .request true 0 1 ⟨.inet 1, 5000⟩, .response true 0]

theorem agree_quiescent_controlling : ∃ a b,
    icemAlloc true true .controlling 1 (List.replicate 4 97) (List.replicate 22 97) true = .ok a ∧
    icemAlloc true true .controlling 2 (List.replicate 4 97) (List.replicate 22 97) true = .ok b ∧
    ∃! c, ((exec (Net.step fun _ => .lossless) (Net.init fun c => cond c a b) oneSided).agent c).lrole = .controlling :=
  have ha : icemAlloc true true .controlling 1 (List.replicate 4 97) (List.replicate 22 97) true = .ok _ := rfl
  have hb : icemAlloc true true .controlling 2 (List.replicate 4 97) (List.replicate 22 97) true = .ok _ := rfl
  ⟨_, _, ha, hb, @agree_quiescent (fun c => cond c _ _) (fun _ => .controlling) (fun c => cond c 1 2)
    (fun _ => List.replicate 4 97) (fun _ => List.replicate 22 97) (fun _ => true) (fun _ => .lossless) (fun _ _ => rfl)
    (Bool.forall_bool.2 ⟨hb, ha⟩) (by decide) (by decide) oneSided (by decide +kernel) (by decide +kernel)⟩

/-- The agent that sends is controlled, and the other one has no role. -/
theorem no_controlling : ∃ a b,
    icemAlloc true true .controlled 1 (List.replicate 4 97) (List.replicate 22 97) true = .ok a ∧
    icemAlloc true true .unknown 2 (List.replicate 4 97) (List.replicate 22 97) true = .ok b ∧
    (exec (Net.step fun _ => .lossless) (Net.init fun c => cond c a b) oneSided).Quiescent ∧
    (exec (Net.step fun _ => .lossless) (Net.init fun c => cond c a b) oneSided).processed ≠ 0 ∧
    ∀ c, ((exec (Net.step fun _ => .lossless) (Net.init fun c => cond c a b) oneSided).agent c).lrole ≠ .controlling :=
  ⟨_, _, rfl, rfl, by decide +kernel, by decide +kernel, by decide +kernel⟩

/-- **The agent with the larger tie-breaker ends as the controlling one exactly if both were
controlled at first.** -/
theorem larger_controlling_iff {env : Bool → Env} (hsend : ∀ b tid, (env b).send tid = none)
    (h : ∀ b, icemAlloc true true (role b) (tiebrk b) (lufrag b) (lpwd b) (chkh b) = .ok (agent b))
    {big : Bool} (hlt : tiebrk (!big) < tiebrk big) (hrole : role (!big) = role big) (evs : List Ev)
    (hq : (exec (Net.step env) (Net.init agent) evs).Quiescent)
    (hn : (exec (Net.step env) (Net.init agent) evs).processed ≠ 0) :
    ((exec (Net.step env) (Net.init agent) evs).agent big).lrole = .controlling ↔ role big = .controlled := by
  obtain ⟨-, hbig, -, hknown⟩ := (resolving_exec hsend h hlt).quiescent hq hn
  rw [hrole] at hbig
  generalize ((exec (Net.step env) (Net.init agent) evs).agent big).lrole = r at hbig hknown
  cases hl : role big <;> cases r <;> simp_all

theorem larger_controlling_controlled : ∃ a b,
    icemAlloc true true .controlled 1 (List.replicate 4 97) (List.replicate 22 97) true = .ok a ∧
    icemAlloc true true .controlled 2 (List.replicate 4 97) (List.replicate 22 97) true = .ok b ∧
    ((exec (Net.step fun _ => .lossless) (Net.init fun c => cond c a b) oneSided).agent false).lrole = .controlling :=
  have ha : icemAlloc true true .controlled 1 (List.replicate 4 97) (List.replicate 22 97) true = .ok _ := rfl
  have hb : icemAlloc true true .controlled 2 (List.replicate 4 97) (List.replicate 22 97) true = .ok _ := rfl
  ⟨_, _, ha, hb, (@larger_controlling_iff (fun c => cond c _ _) (fun _ => .controlled) (fun c => cond c 1 2)
    (fun _ => List.replicate 4 97) (fun _ => List.replicate 22 97) (fun _ => true) (fun _ => .lossless) (fun _ _ => rfl)
    (Bool.forall_bool.2 ⟨hb, ha⟩) false (by decide) rfl oneSided (by decide +kernel) (by decide +kernel)).2 rfl⟩

/-- Both agents are controlling at first: the one with the larger tie-breaker becomes the controlled
one. -/
theorem larger_controlled : ∃ a b,
    icemAlloc true true .controlling 1 (List.replicate 4 97) (List.replicate 22 97) true = .ok a ∧
    icemAlloc true true .controlling 2 (List.replicate 4 97) (List.replicate 22 97) true = .ok b ∧
    (exec (Net.step fun _ => .lossless) (Net.init fun c => cond c a b) oneSided).Quiescent ∧
    (exec (Net.step fun _ => .lossless) (Net.init fun c => cond c a b) oneSided).processed ≠ 0 ∧
    ((exec (Net.step fun _ => .lossless) (Net.init fun c => cond c a b) oneSided).agent false).lrole = .controlled :=
  ⟨_, _, rfl, rfl, by decide +kernel, by decide +kernel, by decide +kernel⟩

end BareRTC.Ice
