import BareRTC.Sip.Reg

/-!
# The release of a registration client

After its release a client has been freed or waits for a response (`Gone`). A final outcome frees
it, or it sends another REGISTER, and of these there are only so many (`Reg.left`): the first one
begins an exchange, the others answer challenges, which `sip_request_loops` counts.
-/

namespace BareRTC.Sipreg

open List

def Out.isNew : Out → Bool
  | .register _ new _ => new
  | _ => false

def lastExpires (log : List Out) : Option UInt32 :=
  log.reverse.findSome? fun
    | .register expires _ _ => some expires
    | _ => none

def bound (log : List Out) : Bool :=
  (log.reverse.findSome? fun
    | .success bound => some bound
    | _ => none).getD false

def Out.Late : Out → Prop
  | .register expires _ _ => expires = 0
  | .resp | .released => False
  | .success _ | .freed => True

structure Since (log before behind : List Out) (n f : Nat) : Prop where
  split : log = before ++ .released :: behind
  before_release : ∀ o ∈ before, o ≠ .released ∧ o ≠ .freed
  late : ∀ o ∈ behind, o.Late
  new : behind.countP Out.isNew ≤ n
  freed : behind.count .freed = f

variable {log before behind : List Out} {n f : Nat} {reg : Reg} {new : Bool} {msg : Option Msg}
  {send : Option Errno}

theorem Since.mono {m : Nat} (h : Since log before behind n f) (hnm : n ≤ m) :
    Since log before behind m f :=
  { h with new := h.new.trans hnm }

theorem Since.append {o : Out} (h : Since log before behind n f) (ho : o.Late) :
    Since (log ++ [o]) before (behind ++ [o]) (n + o.isNew.toNat)
      (f + if o = .freed then 1 else 0) where
  split := by simp [h.split]
  before_release := h.before_release
  late := by simpa [or_imp, forall_and] using ⟨h.late, ho⟩
  new := by
    have := h.new
    cases hnew : o.isNew <;> simpa [countP_append, countP_cons, hnew] using this
  freed := by simpa [count_append, count_singleton] using h.freed

def Reg.left (reg : Reg) : Nat :=
  if reg.freed then 0 else if reg.expires ≠ 0 then 17 else max 1 (16 - reg.ls.failc)

structure Live (reg : Reg) : Prop where
  terminated : reg.terminated = false
  freed : reg.freed = false
  log : ∀ o ∈ reg.log, o ≠ .released ∧ o ≠ .freed

structure Gone (reg : Reg) : Prop where
  terminated : reg.terminated
  resph : reg.resph = false
  tmr : reg.tmr = false
  registered : reg.freed → reg.registered → reg.expires = 0
  since : ∃ before behind, Since reg.log before behind (if reg.expires = 0 then 1 else 0)
    (if reg.freed then 1 else 0)

structure Waits (j : Nat) (reg : Reg) : Prop where
  gone : Gone reg
  pending : reg.freed ∨ reg.req
  left : reg.left ≤ j

theorem Waits.mono {j k : Nat} (h : Waits j reg) (hjk : j ≤ k) : Waits k reg :=
  ⟨h.gone, h.pending, h.left.trans hjk⟩

theorem Gone.free (h : Gone reg) (hf : reg.freed = false)
    (hr : reg.registered → reg.expires = 0) : Waits 0 (free reg) := by
  obtain ⟨before, behind, hsince⟩ := h.since
  have hfreed := hsince.append (o := .freed) trivial
  rw [hf] at hfreed
  exact ⟨⟨h.terminated, h.resph, rfl, fun _ => hr, before, _, hfreed⟩, .inl rfl, Nat.le_refl _⟩

theorem Gone.request (h : Gone reg) (new : Bool) (send : Option Errno) (hf : reg.freed = false)
    (hnew : new → reg.expires ≠ 0 ∨ ∃ before, Since reg.log before [] 0 0) :
    Gone (request reg new send) ∧ (request reg new send).expires = 0 := by
  have hexp : (if reg.terminated then 0 else reg.expires) = 0 := if_pos h.terminated
  have hsince : ∃ before behind, Since (reg.log ++ [.register 0 new send]) before behind 1
      (if reg.freed then 1 else 0) := by
    obtain ⟨before, behind, hsince⟩ := h.since
    have happend := hsince.append (o := .register 0 new send) rfl
    cases new with
    | false => exact ⟨before, _, happend.mono (by split <;> simp [Out.isNew])⟩
    | true =>
      obtain hexp | ⟨before', hnone⟩ := hnew rfl
      · exact ⟨before, _, by simpa [hexp, Out.isNew] using happend⟩
      · exact ⟨before', _, by simpa [hf, Out.isNew] using hnone.append (o := .register 0 true send) rfl⟩
  unfold Sipreg.request
  simp only [hexp]
  exact ⟨⟨h.terminated, h.resph, h.tmr, fun _ _ => rfl, hsince⟩, trivial⟩

theorem Gone.requestOrFree (h : Gone reg) (hf : reg.freed = false)
    (hnew : reg.expires ≠ 0 ∨ ∃ before, Since reg.log before [] 0 0) :
    Waits 16 (requestOrFree reg send) := by
  obtain ⟨hgone, hzero⟩ := h.request true send hf fun _ => hnew
  unfold Sipreg.requestOrFree
  split
  next hs => exact ⟨hgone, .inr hs, by simp [Reg.left, Sipreg.request, hf, h.terminated]⟩
  next => exact (hgone.free (by exact hf) fun _ => hzero).mono (by decide)

theorem Gone.out (h : Gone reg) (msg : Option Msg) (send : Option Errno) (hf : reg.freed = false) :
    Waits (if reg.expires = 0 then 0 else 16) (out reg msg send) := by
  have hg : ∀ fbregint, Gone { reg with fbregint } := fun _ => ⟨h.1, h.2, h.3, h.4, h.5⟩
  unfold Sipreg.out
  extract_lets refused reg'
  have hr : reg'.terminated := h.terminated
  rw [if_pos hr]
  by_cases hc : (reg'.expires ≠ 0 && reg'.registered)
  · obtain ⟨hexp, -⟩ : reg.expires ≠ 0 ∧ reg.registered := by simpa using hc
    rw [if_pos hc, if_neg hexp]
    exact (hg _).requestOrFree hf (.inl hexp)
  rw [if_neg hc]
  have hexp : reg.registered → reg.expires = 0 := by
    by_contra hn
    exact hc (by simpa [reg', and_comm] using hn)
  exact ((hg reg'.fbregint).free hf hexp).mono (Nat.zero_le _)

theorem Gone.retry (h : Gone reg) (send : Option Errno) (hf : reg.freed = false)
    (hls : reg.ls.failc < 16) (m : Msg) : Waits (16 - reg.ls.failc) (retry reg m send) := by
  obtain ⟨hgone, hzero⟩ := h.request false send hf nofun
  unfold Sipreg.retry
  split
  next hs =>
    refine ⟨hgone, .inr hs, ?_⟩
    simp only [Reg.left, Sipreg.request, hf, h.terminated]
    simp
    omega
  next =>
    have hout := hgone.out m send (by exact hf)
    rw [if_pos hzero] at hout
    exact hout.mono (Nat.zero_le _)

theorem sipRequestLoops_failc {ls : Loopstate} {scode : UInt16} (h2 : ¬ scode < 200)
    (h3 : ¬ scode < 300) (h : ¬ (sipRequestLoops ls scode).1) :
    (sipRequestLoops ls scode).2.failc = ls.failc + 1 ∧ ls.failc + 1 < 16 := by
  simp only [sipRequestLoops, if_neg h2, if_neg h3, Bool.or_eq_true, decide_eq_true_eq, not_or] at h ⊢
  exact ⟨trivial, by omega⟩

theorem Gone.success (h : Gone reg) (hf : reg.freed = false) {bound : Bool} :
    Gone { reg with registered := bound, log := reg.log ++ [.success bound] } := by
  obtain ⟨before, behind, hsince⟩ := h.since
  exact ⟨h.1, h.2, h.3, fun hfr => absurd hfr (by simp [hf]), before, _,
    hsince.append (o := .success bound) trivial⟩

/-- **A final outcome after the release** frees the object, or takes one of those that are left. -/
theorem Gone.response (h : Gone reg) (hf : reg.freed = false) {err auth : Option Errno}
    (hfinal : (Event.response err msg auth send).final) :
    Waits (reg.left - 1) (responseHandler { reg with req := false } err msg auth send) := by
  have hleft : reg.left = if reg.expires ≠ 0 then 17 else max 1 (16 - reg.ls.failc) := by
    simp [Reg.left, hf]
  have hgone : ∀ ls ka expires, (reg.expires = 0 ↔ expires = 0) →
      Gone { reg with req := false, ls, ka, expires } := fun _ _ _ hexp =>
    ⟨h.1, h.2, h.3, fun hfr => absurd hfr (by simp [hf]), by simpa only [← hexp] using h.5⟩
  have hleft' : (if reg.expires = 0 then 0 else 16) ≤ reg.left - 1 := by
    rw [hleft]
    split_ifs <;> simp_all
  have hout : ∀ ls, Waits (reg.left - 1) (Sipreg.out { reg with req := false, ls } msg send) :=
    fun ls => ((hgone ls reg.ka _ Iff.rfl).out msg send hf).mono hleft'
  unfold responseHandler
  split
  next m =>
    have hm : ¬ m.scode < 200 := by simpa [Event.final] using hfinal
    -- a request in answer to the response
    have hretry : ¬ (sipRequestLoops reg.ls m.scode).1 → ¬ m.scode < 300 → ∀ expires,
        (reg.expires = 0 ↔ expires = 0) → Waits (reg.left - 1) (Sipreg.retry
          { reg with req := false, ls := (sipRequestLoops reg.ls m.scode).2, expires } m send) := by
      intro hloops h3 expires hexp
      obtain ⟨hfailc, hlt⟩ := sipRequestLoops_failc hm h3 hloops
      have hgone' := hgone (sipRequestLoops reg.ls m.scode).2 reg.ka expires hexp
      refine (hgone'.retry send hf (by simpa only [hfailc] using hlt) m).mono ?_
      simp only [hfailc, hleft]
      split_ifs <;> omega
    dsimp only
    split_ifs with h1 h2 h3 h4 h5 h6
    · exact hout _
    · exact (((hgone _ _ _ Iff.rfl).success hf).out _ send hf).mono hleft'
    · exact hout _
    · exact hretry h1 h2 _ Iff.rfl
    · exact hout _
    · exact hretry h1 h2 _ (iff_of_false h6.2.2 h6.2.1)
    · exact hout _
  next => exact hout _

/-! ## Before the release -/

structure Closed (P : Reg → Prop) : Prop where
  set : ∀ {reg : Reg} (ls tmr ka req fbregint), P reg → P { reg with ls, tmr, ka, req, fbregint }
  success : ∀ {reg : Reg} (bound), P reg →
    P { reg with registered := bound, log := reg.log ++ [.success bound] }
  request : ∀ {reg : Reg} (expires new send), P reg → P (request { reg with expires } new send)
  resp : ∀ {reg : Reg}, P reg → P { reg with log := reg.log ++ [.resp] }
  free : ∀ {reg : Reg}, reg.terminated → P reg → P (free reg)

namespace Closed

variable {P : Reg → Prop} (hP : Closed P)
include hP

theorem respond (h : P reg) : P (respond reg) := by
  unfold Sipreg.respond
  split
  · exact hP.resp h
  · exact h

theorem requestOrFree (ht : reg.terminated) (h : P reg) : P (requestOrFree reg send) := by
  have hreq : P (Sipreg.request reg true send) := hP.request reg.expires true send h
  unfold Sipreg.requestOrFree
  split
  · exact hreq
  · exact hP.free ht hreq

theorem out (h : P reg) : P (out reg msg send) := by
  unfold Sipreg.out
  extract_lets refused reg'
  have h' : P reg' := hP.set _ _ _ _ _ h
  split_ifs with ht
  · exact hP.requestOrFree ht h'
  · exact hP.free ht h'
  · exact h'
  · exact hP.respond (hP.set _ true _ _ _ h')

theorem retry {m : Msg} {expires : UInt32} (h : P reg) : P (retry { reg with expires } m send) := by
  have hreq : P (Sipreg.request { reg with expires } false send) := hP.request expires false send h
  unfold Sipreg.retry
  split
  · exact hreq
  · exact hP.out hreq

theorem response {err auth : Option Errno} (h : P reg) :
    P (responseHandler reg err msg auth send) := by
  unfold responseHandler
  split
  next m =>
    have h' : P { reg with ls := (sipRequestLoops reg.ls m.scode).2 } := hP.set _ _ _ _ _ h
    dsimp only
    split_ifs
    · exact hP.out h'
    · exact h'
    · exact hP.out (hP.success _ (hP.set _ _ _ _ _ h))
    · exact hP.out h'
    · exact hP.retry h'
    · exact hP.out h'
    · exact hP.retry h'
    · exact hP.out h'
  next => exact hP.out h

theorem step (h : P reg) {e : Event} (he : ∀ send, e ≠ .release send) : P (step reg e) := by
  unfold Sipreg.step
  split
  · exact h
  cases e with
  | response err msg auth send =>
    dsimp only
    split
    · exact hP.response (hP.set _ _ _ _ _ h)
    · exact h
  | tmr send =>
    have hreq : P (Sipreg.request { reg with tmr := false } true send) :=
      hP.request reg.expires true send (hP.set _ false _ _ _ h)
    unfold tmrHandler
    dsimp only
    split_ifs
    · exact hP.respond (hP.set _ true _ _ _ hreq)
    · exact hreq
    · exact h
  | keepalive =>
    unfold keepaliveHandler
    dsimp only
    split_ifs
    · exact hP.set _ _ _ _ _ h
    · exact hP.respond (hP.set _ _ _ _ _ h)
    · exact h
  | setFbregint fbregint =>
    dsimp only
    split
    · exact h
    · exact hP.set _ _ _ _ _ h
  | release send => exact absurd rfl (he send)

end Closed

theorem closed_live : Closed Live where
  set _ _ _ _ _ h := ⟨h.1, h.2, h.3⟩
  success _ h := ⟨h.1, h.2, by simpa [or_imp, forall_and] using h.3⟩
  request _ _ _ h := ⟨h.1, h.2, by simpa [request, or_imp, forall_and] using h.3⟩
  resp h := ⟨h.1, h.2, by simpa [or_imp, forall_and] using h.3⟩
  free ht h := absurd (ht.symm.trans h.1) (by decide)

theorem Live.release (h : Live reg) : Waits 17 (release reg send) := by
  have hf := h.freed
  have hsince : Since (reg.log ++ [.released]) reg.log [] 0 0 :=
    ⟨rfl, h.log, by simp, by simp, by simp⟩
  have hgone : Gone { reg with
      tmr := false, resph := false, terminated := true, log := reg.log ++ [.released] } :=
    ⟨rfl, rfl, rfl, fun hfr => absurd hfr (by simp [hf]), reg.log, [],
      by simpa [hf] using hsince.mono (Nat.zero_le _)⟩
  unfold Sipreg.release
  dsimp only
  split
  next hreq => exact ⟨hgone, .inr hreq, by simp only [Reg.left, hf]; split_ifs <;> omega⟩
  next =>
    split
    next => exact (hgone.requestOrFree hf (.inr ⟨_, hsince⟩)).mono (by decide)
    next hr => exact (hgone.free hf fun hr' => absurd hr' hr).mono (by decide)

/-! ## Runs -/

structure Reg.Logged (reg : Reg) : Prop where
  expires : lastExpires reg.log = some reg.expires
  registered : bound reg.log = reg.registered

theorem closed_logged : Closed Reg.Logged where
  set _ _ _ _ _ h := ⟨h.1, h.2⟩
  success _ h := ⟨by simpa [lastExpires] using h.1, by simp [bound]⟩
  request _ _ _ h := ⟨by simp [lastExpires, request], by simpa [bound, request] using h.2⟩
  resp h := ⟨by simpa [lastExpires] using h.1, by simpa [bound] using h.2⟩
  free _ h := ⟨by simpa [lastExpires, free] using h.1, by simpa [bound, free] using h.2⟩

variable {e : Event}

theorem Reg.Logged.step (h : reg.Logged) : (step reg e).Logged := by
  cases e with
  | release send =>
    have h' : Reg.Logged { reg with
        tmr := false, resph := false, terminated := true, log := reg.log ++ [.released] } :=
      ⟨by simpa [lastExpires] using h.1, by simpa [bound] using h.2⟩
    unfold Sipreg.step release
    dsimp only
    split_ifs
    · exact h
    · exact h
    · exact h'
    · exact closed_logged.requestOrFree rfl h'
    · exact closed_logged.free rfl h'
  | _ => exact closed_logged.step h nofun

theorem run_logged (expires : UInt32) (regid resph : Bool) (evs : List Event) :
    (run expires regid resph evs).Logged := by
  induction evs using reverseRecOn with
  | nil => exact ⟨by simp [run, sipregRegister, request, lastExpires], by simp [run, sipregRegister, request, bound]⟩
  | append_singleton evs e ih => simpa [run, foldl_append] using ih.step

/-- What is in the log stays. -/
theorem closed_log : Closed fun reg => log <+: reg.log where
  set _ _ _ _ _ h := h
  success _ h := h.trans ( prefix_append _ _)
  request _ _ _ h := h.trans ( prefix_append _ _)
  resp h := h.trans ( prefix_append _ _)
  free _ h := h.trans ( prefix_append _ _)

theorem Live.step (h : Live reg) : Live (step reg e) ∨ Waits 17 (step reg e) := by
  cases e with
  | release send =>
    right
    simpa [Sipreg.step, h.freed, h.terminated] using h.release
  | _ => exact .inl (closed_live.step h nofun)

theorem Waits.step {j : Nat} (h : Waits j reg) (e : Event) : Waits (j - e.final.toNat) (step reg e) := by
  have hg := h.gone
  have hsame : ∀ ka req, reg.freed = true ∨ req = true → Waits j { reg with ka, req } := fun _ _ hp =>
    ⟨⟨hg.1, hg.2, hg.3, hg.4, hg.5⟩, hp, h.left⟩
  unfold Sipreg.step
  split
  next hf => exact ⟨hg, h.pending, by simp [Reg.left, hf]⟩
  next hf =>
    have hreq := h.pending.resolve_left hf
    rw [Bool.not_eq_true] at hf
    cases e with
    | response err msg auth send =>
      dsimp only
      rw [if_pos hreq]
      by_cases hfin : (Event.response err msg auth send).final = true
      · rw [hfin]
        exact (hg.response hf hfin).mono (Nat.sub_le_sub_right h.left 1)
      obtain ⟨rfl, m, rfl, hm⟩ : err = none ∧ ∃ m, msg = some m ∧ m.scode < 200 := by
        cases err <;> cases msg <;> simp_all [Event.final]
      simpa [responseHandler, sipRequestLoops, hm, hfin] using hsame reg.ka true (.inr rfl)
    | tmr send =>
      dsimp only
      rw [if_neg (by simp [hg.tmr])]
      exact h
    | keepalive =>
      dsimp only
      split
      · unfold keepaliveHandler
        rw [if_pos (by simp [hg.terminated])]
        exact hsame false _ h.pending
      · exact h
    | setFbregint | release =>
      dsimp only
      rw [if_pos hg.terminated]
      exact h

theorem lastExpires_split {expires : UInt32}
    (h : lastExpires (before ++ .released :: behind) = some expires) :
    (∃ new err, .register expires new err ∈ behind) ∨ lastExpires before = some expires := by
  simp only [lastExpires, reverse_append, reverse_cons, findSome?_append, findSome?_cons,
    findSome?_nil, Option.or_none, Option.or_eq_some_iff] at h
  refine h.imp (fun hsome => ?_) (·.2)
  obtain ⟨o, ho, hsome⟩ := exists_of_findSome?_eq_some hsome
  cases o with
  | register expires' new err =>
    obtain rfl := Option.some.inj hsome
    exact ⟨new, err, mem_reverse.1 ho⟩
  | success | resp | released | freed => cases hsome

theorem Waits.log_step {j : Nat} (h : Waits j reg) (hlog : log <+: reg.log) :
    log <+: (Sipreg.step reg e).log := by
  cases e with
  | release send =>
    unfold Sipreg.step
    dsimp only
    rw [if_pos h.gone.terminated, ite_self]
    exact hlog
  | _ => exact (closed_log).step hlog nofun

theorem release_log (hreq : reg.req = false) (hr : reg.registered) :
    reg.log ++ [.released, .register 0 true send] <+: (release reg send).log := by
  rw [release, if_neg (by simp [hreq]), if_pos hr, requestOrFree]
  split <;> simp [request, free]

theorem Waits.run {j : Nat} (h : Waits j reg) (evs : List Event) :
    Waits (j - evs.countP Event.final) (evs.foldl Sipreg.step reg) := by
  induction evs generalizing j reg with
  | nil => exact h
  | cons e evs ih =>
    have hrun := ih (h.step e)
    rw [Nat.sub_sub, Nat.add_comm] at hrun
    cases hfin : e.final <;> simpa [countP_cons, hfin] using hrun

theorem Waits.log_run {j : Nat} (h : Waits j reg) (hlog : log <+: reg.log) (evs : List Event) :
    log <+: (evs.foldl Sipreg.step reg).log := by
  induction evs generalizing j reg with
  | nil => exact hlog
  | cons e evs ih => exact ih (h.step e) (h.log_step hlog)

theorem run_live (expires : UInt32) (regid resph : Bool) (evs : List Event) :
    Live (run expires regid resph evs) ∨ Waits 17 (run expires regid resph evs) := by
  induction evs using reverseRecOn with
  | nil => exact .inl ⟨rfl, rfl, by simp [Sipreg.run, sipregRegister, request]⟩
  | append_singleton evs e ih =>
    simp only [Sipreg.run, foldl_append, foldl_cons, foldl_nil] at ih ⊢
    obtain h | h := ih
    · exact h.step
    · exact .inr ((h.step e).mono (Nat.sub_le _ _))

/-- **The release of a client** In any run with a release, the log from the first release on has no
call of the response handler, every REGISTER in it removes the binding, and no more than one begins
an exchange. The object has been freed once, or not yet and then a request is under way; seventeen
final outcomes free it. A client with a binding and no request under way sends a REGISTER when it is
released, and if it is freed with a binding left by the last successful response, it has sent one
since the release, or the one before the release was to remove the binding too. -/
theorem client_released (expires : UInt32) (regid resph : Bool) (pre post : List Event)
    (send : Option Errno) :
    let reg₀ := run expires regid resph pre
    let reg := run expires regid resph (pre ++ .release send :: post)
    (∃ before behind, Since reg.log before behind 1 (if reg.freed then 1 else 0) ∧
      (reg.freed → bound reg.log →
        (∃ new err, .register 0 new err ∈ behind) ∨ lastExpires before = some 0)) ∧
      (reg₀.terminated = false → reg₀.req = false → bound reg₀.log →
        reg₀.log ++ [.released, .register 0 true send] <+: reg.log) ∧
      (reg.freed ∨ reg.req) ∧
      (17 ≤ post.countP Event.final → reg.freed) := by
  intro reg₀ reg
  have hstep : reg = post.foldl step (step reg₀ (.release send)) := by
    simp [reg, reg₀, run, foldl_append]
  have hrel : Waits 17 (step reg₀ (.release send)) := by
    obtain h | h := run_live expires regid resph pre
    · simpa [step, reg₀, h.freed, h.terminated] using h.release
    · exact h.step (.release send)
  have hlogged : reg.Logged := run_logged expires regid resph _
  obtain ⟨hg, hp, hl⟩ : Waits (17 - post.countP Event.final) reg := hstep ▸ hrel.run post
  obtain ⟨before, behind, hsince⟩ := hg.since
  refine ⟨⟨before, behind, hsince.mono (by split <;> simp), fun hf hb => ?_⟩, ?_, hp, fun hn => ?_⟩
  · have hexp := hlogged.expires.trans
      (congrArg some (hg.registered hf (hlogged.registered.symm.trans hb)))
    rw [hsince.split] at hexp
    exact lastExpires_split hexp
  · intro ht hreq hb
    have hr : reg₀.registered := (run_logged expires regid resph pre).registered.symm.trans hb
    have hlive : Live reg₀ := (run_live expires regid resph pre).resolve_right fun h => by
      simp [h.gone.terminated, reg₀] at ht
    have hlog : reg₀.log ++ [.released, .register 0 true send] <+: (step reg₀ (.release send)).log := by
      simpa [step, hlive.freed, ht] using release_log hreq hr
    exact hstep ▸ hrel.log_run hlog post
  · by_contra hf
    rw [Nat.sub_eq_zero_of_le hn, Reg.left, if_neg hf] at hl
    split_ifs at hl <;> omega

/-- A client that only removes bindings is released before the response, which says that one is
left: it is freed, and sends nothing. -/
theorem nothing_sent :
    let bound : Msg := { scode := 200, contact := some (some [0x36, 0x30]) }
    let reg := run 0 false true [.release none, .response none (some bound) none none]
    reg.freed ∧
      reg.log = [.register 0 true none, .released, .success true, .freed] := by
  decide

end BareRTC.Sipreg
