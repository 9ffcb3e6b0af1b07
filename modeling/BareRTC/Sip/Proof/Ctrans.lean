import BareRTC.Sip.Ctrans

/-!
# The outcome of a client transaction

A handler that calls the response handler with a final outcome leaves the transaction completed or
releases it, and a completed transaction does not call the response handler any more. `Move` says
this of one handler, `Inv` of the transactions after any events.
-/

namespace BareRTC.Sip.Ctrans

open List

def Provisional (err : Option Errno) (msg : Option Resp) : Prop := err = none ∧ ∃ m, msg = some m ∧ m.scode < 200

def Out.Before : Out → Out → Prop
  | .call n err msg, .call m _ _ => n = m → Provisional err msg
  | _, _ => True

structure Move (ct : Ct) (r : Option Ct × List Out) : Prop where
  same : ∀ c ∈ r.1, c.id = ct.id ∧ c.met = ct.met ∧ c.branch = ct.branch
  quiet : ∀ n met branch, .started n met branch ∉ r.2
  once : r.2.Pairwise Out.Before
  call : ∀ n err msg, .call n err msg ∈ r.2 → n = ct.id ∧ ct.state ≠ .completed ∧
    ∀ m ∈ msg, m.branch = ct.branch ∧ m.met = ct.met
  final : ∀ c ∈ r.1, c.state ≠ .completed → ct.state ≠ .completed ∧
    ∀ n err msg, .call n err msg ∈ r.2 → Provisional err msg

variable {ct : Ct} {s : Table} {r : Option Ct × List Out}

theorem move_transportHandler {err : Errno} : Move ct (transportHandler err ct) := by
  constructor <;> simp [transportHandler, terminate, Ct.respond] <;> grind [Out.Before]

variable {err : Option Errno}

theorem move_retransmitHandler : Move ct (retransmitHandler err ct) := by
  constructor <;> simp [retransmitHandler, terminate, Ct.respond] <;> grind [Out.Before]

theorem move_responseHandler {msg : Resp} (h : cmpHandler msg ct) : Move ct (responseHandler msg ct) := by
  rw [cmpHandler, decide_eq_true_eq] at h
  constructor <;> simp [responseHandler, inviteResponse, Ct.respond] <;> grind [Out.Before, Provisional]

structure Inv (s : Table) : Prop where
  lt : ∀ ct ∈ s.cts, ct.id < s.next
  started_lt : ∀ n met branch, .started n met branch ∈ s.log → n < s.next
  call_lt : ∀ n err msg, .call n err msg ∈ s.log → n < s.next
  once : s.log.Pairwise Out.Before
  pending : ∀ ct ∈ s.cts, ct.state ≠ .completed → ∀ err msg, .call ct.id err msg ∈ s.log → Provisional err msg
  known : ∀ ct ∈ s.cts, ∀ met branch, .started ct.id met branch ∈ s.log → met = ct.met ∧ branch = ct.branch
  matched : ∀ n met branch err msg, .started n met branch ∈ s.log → .call n err (some msg) ∈ s.log →
    msg.branch = branch ∧ msg.met = met

theorem mem_update {c : Ct} (h : c ∈ (s.update ct r).cts) : c ∈ r.1 ∨ c ∈ s.cts ∧ c.id ≠ ct.id := by
  obtain ⟨d, hd, hc⟩ := mem_filterMap.1 h
  split_ifs at hc with hid
  · exact .inl hc
  · obtain rfl : d = c := Option.some.inj hc
    exact .inr ⟨hd, hid⟩

theorem Inv.update (h : Inv s) (hct : ct ∈ s.cts) (hm : Move ct r) : Inv (s.update ct r) where
  lt c hc := by
    rcases mem_update hc with hc | ⟨hc, -⟩
    · exact (hm.same c hc).1 ▸ h.lt ct hct
    · exact h.lt c hc
  started_lt n met branch ho := by
    rcases mem_append.1 ho with ho | ho
    · exact h.started_lt n met branch ho
    · exact absurd ho (hm.quiet n met branch)
  call_lt n err msg ho := by
    rcases mem_append.1 ho with ho | ho
    · exact h.call_lt n err msg ho
    · exact (hm.call n err msg ho).1 ▸ h.lt ct hct
  once := by
    refine pairwise_append.2 ⟨h.once, hm.once, fun a ha b hb => ?_⟩
    rcases a with _ | _ | _ | ⟨n, err, msg⟩ <;> try trivial
    rcases b with _ | _ | _ | ⟨m, err', msg'⟩ <;> try trivial
    obtain ⟨rfl, hs, -⟩ := hm.call m err' msg' hb
    rintro rfl
    exact h.pending ct hct hs err msg ha
  pending c hc hs err msg ho := by
    rcases mem_update hc with hc | ⟨hc, hid⟩
    · obtain ⟨hs, hprov⟩ := hm.final c hc hs
      rcases mem_append.1 ho with ho | ho
      · exact h.pending ct hct hs err msg ((hm.same c hc).1 ▸ ho)
      · exact hprov _ err msg ho
    · rcases mem_append.1 ho with ho | ho
      · exact h.pending c hc hs err msg ho
      · exact absurd (hm.call _ err msg ho).1 hid
  known c hc met branch ho := by
    replace ho := (mem_append.1 ho).resolve_right (hm.quiet _ met branch)
    rcases mem_update hc with hc | ⟨hc, -⟩
    · obtain ⟨hid, hmet, hbranch⟩ := hm.same c hc
      rw [hmet, hbranch]
      exact h.known ct hct met branch (hid ▸ ho)
    · exact h.known c hc met branch ho
  matched n met branch err msg hst ho := by
    replace hst := (mem_append.1 hst).resolve_right (hm.quiet n met branch)
    rcases mem_append.1 ho with ho | ho
    · exact h.matched n met branch err msg hst ho
    obtain ⟨rfl, -, hmsg⟩ := hm.call n err _ ho
    obtain ⟨rfl, rfl⟩ := h.known ct hct met branch hst
    exact hmsg msg rfl

theorem Inv.on {p : Ct → Bool} {f : Ct → Option Ct × List Out} (h : Inv s)
    (hf : ∀ ct, p ct → Move ct (f ct)) : Inv (s.on p f) := by
  unfold Table.on
  split
  · exact h
  next ct hfind => exact h.update (mem_of_find?_eq_some hfind) (hf ct (find?_some hfind))

theorem Inv.request (h : Inv s) {tp : Transp} {met branch : Bytes} {resph : Bool} :
    Inv (sipCtransRequest s tp met branch resph err) := by
  unfold sipCtransRequest
  split
  · exact h
  -- the new number is in no entry of the table or of the log
  · obtain ⟨hlt, hstarted, hcall, honce, hpending, hknown, hmatched⟩ := h
    have hquiet : ∀ err msg, .call s.next err msg ∉ s.log := fun err msg ho => lt_irrefl _ (hcall _ err msg ho)
    have hnew : ∀ met branch, .started s.next met branch ∉ s.log := fun met branch ho =>
      lt_irrefl _ (hstarted _ met branch ho)
    constructor <;> simp only [mem_append, mem_cons, not_mem_nil, or_false]
    all_goals grind [Out.Before]

theorem Inv.cancel (h : Inv s) (hct : ct ∈ s.cts) {copy send : Option Errno} :
    Inv (sipCtransCancel s ct copy send) := by
  unfold sipCtransCancel
  split_ifs with hst
  · exact h
  all_goals
    have hup : Inv (s.update ct (some { ct with tmr := true }, [])) := h.update hct (by
      constructor <;> simp_all)
  · exact hup
  · exact hup.request

theorem Inv.step (h : Inv s) {e : Event} : Inv (step s e) := by
  cases e with
  | request tp met branch resph err => exact h.request
  | cancel id copy send =>
    rw [Ctrans.step]
    split
    · exact h
    next ct hfind => exact h.cancel (mem_of_find?_eq_some hfind)
  | release id => exact h.on fun ct _ => ⟨by simp, by simp, by simp, by simp, by simp⟩
  | response msg => exact h.on fun ct => move_responseHandler
  | tmr id => exact h.on fun ct _ => move_transportHandler
  | tmre id err => exact h.on fun ct _ => move_retransmitHandler
  | transport id err => exact h.on fun ct _ => move_transportHandler

theorem inv_run {evs : List Event} : Inv (run evs) := by
  induction evs using reverseRecOn with
  | nil => constructor <;> simp [run]
  | append_singleton evs e ih =>
    rw [run, foldl_append]
    exact ih.step

/-- **The response handler of a transaction** gets provisional responses, then at most one final
outcome and nothing after it, and only responses with the transaction's branch and method. -/
theorem response_handler_outcome (evs : List Event) :
    (run evs).log.Pairwise Out.Before ∧
      ∀ n met branch err msg, .started n met branch ∈ (run evs).log → .call n err (some msg) ∈ (run evs).log →
        msg.branch = branch ∧ msg.met = met :=
  ⟨(inv_run).once, (inv_run).matched⟩

end BareRTC.Sip.Ctrans
