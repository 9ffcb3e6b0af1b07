import BareRTC.Jbuf.Proof.Lists

/-!
# The order of the frames that are returned

Frames come out in sequence because late packets are refused and the list is sorted. Two things
break it: `seq_get` is `0` both before the first frame and after the frame with sequence number `0`,
when packets are not looked at for being late; and the list is sorted from neighbour to neighbour
only, so that a frame that makes room may uncover one that comes before the frame returned last.
Without these two the frames come out in sequence (`increasing_exec`).
-/

namespace BareRTC.Jbuf

variable {μ : Type}

def Increasing (got : List UInt16) : Prop := got.IsChain fun next prev => seqLess prev next

instance (got : List UInt16) : Decidable (Increasing got) :=
  inferInstanceAs (Decidable (got.IsChain fun next prev => seqLess prev next))

def InTurn (h : Hist μ) : Op μ → Prop
  | .put hdr _ _ => ssrcChanged hdr h.jb = false → ∀ p ∈ h.got.head?,
      (p = 0 → seqLess p hdr.seq) ∧
      (h.jb.pooll.isEmpty → ∀ f ∈ h.jb.framel.tail.head?, seqLess p f.seq)
  | _ => True

instance (h : Hist μ) : (op : Op μ) → Decidable (InTurn h op)
  | .put hdr _ _ => inferInstanceAs (Decidable (ssrcChanged hdr h.jb = false → ∀ p ∈ h.got.head?,
      (p = 0 → seqLess p hdr.seq) ∧
      (h.jb.pooll.isEmpty → ∀ f ∈ h.jb.framel.tail.head?, seqLess p f.seq)))
  | .get | .setType _ | .setWish _ | .silence _ | .flush => .isTrue trivial

structure Ordered (h : Hist μ) : Prop where
  seqGet : h.jb.seqGet = h.got.head?.getD 0
  running : h.got ≠ [] ∨ h.jb.framel ≠ [] → h.jb.running
  next : ∀ p ∈ h.got.head?, ∀ f ∈ h.jb.framel.head?, seqLess p f.seq
  increasing : Increasing h.got

section
variable {h : Hist μ} {ids : List Nat} {jb : Jbuf μ}

theorem Ordered.of_same (ho : Ordered h) (hs : Same h.jb jb) : Ordered ⟨jb, h.got⟩ where
  seqGet := hs.seqGet.trans ho.seqGet
  running hne := hs.running.trans (ho.running (hs.framel ▸ hne))
  next := by
    rw [hs.framel]
    exact ho.next
  increasing := ho.increasing

theorem ordered_nil (hseq : jb.seqGet = 0) (hrun : jb.framel ≠ [] → jb.running) : Ordered ⟨jb, []⟩ where
  seqGet := hseq
  running hne := hrun (hne.resolve_left fun h => h rfl)
  next := nofun
  increasing := .nil

theorem Ordered.seqLess_of_not_late (ho : Ordered h) {p seq : UInt16} (hp : p ∈ h.got.head?)
    (hlate : late seq h.jb = false) (hzero : p = 0 → seqLess p seq) : seqLess p seq := by
  have hgot : h.got.head? = some p := hp
  have hseq : h.jb.seqGet = p := by rw [ho.seqGet, hgot, Option.getD_some]
  have hrun : h.jb.running := by
    refine ho.running (.inl fun hnil => ?_)
    rw [hnil] at hgot
    cases hgot
  by_cases h0 : p = 0
  · exact hzero h0
  apply seqLess_of_not_succ
  intro hlt
  simp [late, hrun, hseq, h0, hlt] at hlate

theorem ordered_step (hids : ids ≠ []) (hmax : ids.length < 2 ^ 32) (hi : Inv ids h.got.length h.jb)
    (ho : Ordered h) {op : Op μ} (hop : InTurn h op) : Ordered (h.step op).1 := by
  cases op with
  | put hdr mem now =>
    by_cases hc : ssrcChanged hdr h.jb
    · obtain ⟨hflush, hsame⟩ := inv_restart hi hdr
      obtain ⟨r, jb', hput, -, hseq, hrun, -⟩ := jbufPut_spec hflush hids hmax hdr mem now hsame
      rw [Hist.step, jbufPut_changed hc, hput]
      simp only [hc, if_true]
      refine ordered_nil (hseq.trans rfl) fun hne => ?_
      rcases hrun with hrun | ⟨-, hfr⟩
      · exact hrun
      · exact absurd rfl (hfr hne)
    rw [Bool.not_eq_true] at hc
    obtain ⟨r, jb', hput, -, hseq, hrun, hframes⟩ := jbufPut_spec hi hids hmax hdr mem now hc
    rw [Hist.step, hput]
    simp only [hc, Bool.false_eq_true, if_false]
    refine ⟨hseq.trans ho.seqGet, fun hne => ?_, fun p hp f hf => ?_, ho.increasing⟩
    · rcases hrun with hrun | ⟨hrun, hfr⟩
      · exact hrun
      · exact hrun.trans (ho.running (hne.imp_right hfr))
    obtain ⟨hzero, hsecond⟩ := hop hc p hp
    rcases hframes with ⟨-, hframel⟩ | ⟨hlate, hhead⟩
    · exact ho.next p hp f (hframel ▸ hf)
    rcases hhead f hf with hnew | hold | ⟨hpool, hold⟩
    · rw [hnew]
      exact ho.seqLess_of_not_late hp hlate hzero
    · exact ho.next p hp f hold
    · exact hsecond (by rw [hpool]; rfl) f hold
  | get =>
    rcases jbufGet_spec hi with ⟨jb', hget, hsame⟩ | ⟨f, framel, again, jb', hf, hget, -, hfr, hseq, hrun⟩
    · rw [Hist.step, hget]
      exact ho.of_same hsame
    rw [Hist.step, hget]
    have hne : h.jb.framel ≠ [] := by
      rw [hf]
      exact List.cons_ne_nil f framel
    refine ⟨hseq, fun _ => hrun.trans (ho.running (.inr hne)), fun p hp g hg => ?_, ?_⟩
    · cases hp
      have hsorted := hi.sorted
      rw [hf] at hsorted
      rw [hfr] at hg
      exact (List.isChain_cons.1 hsorted).1 g hg
    · refine List.isChain_cons.2 ⟨fun p hp => ?_, ho.increasing⟩
      exact ho.next p hp f (by rw [hf]; rfl)
  | setType jbtype =>
    rw [Hist.step, jbufSetType]
    split <;> exact ⟨ho.seqGet, ho.running, ho.next, ho.increasing⟩
  | setWish | silence => exact ⟨ho.seqGet, ho.running, ho.next, ho.increasing⟩
  | flush => exact ordered_nil rfl fun hne => absurd rfl hne

end

/-- **The frames come out in sequence** in every run in which no packet comes before a returned
frame with sequence number `0`, and no frame that makes room uncovers one that comes before the
frame returned last. -/
theorem increasing_exec {min max : UInt32} {jb : Jbuf μ} (h : jbufAlloc min max = .ok jb) (hmax : 1 ≤ max)
    (ops : List (Op μ)) (hops : Along Hist.step InTurn ⟨jb, []⟩ ops) :
    Increasing (exec Hist.step ⟨jb, []⟩ ops).got := by
  have hstep : ∀ (h : Hist μ) (op : Op μ), (Inv (List.range max.toNat) h.got.length h.jb ∧ Ordered h) →
      InTurn h op → Inv (List.range max.toNat) (h.step op).1.got.length (h.step op).1.jb ∧ Ordered (h.step op).1 := by
    intro h op hi hop
    have hids := range_ne_nil hmax
    have hlen := length_range_lt max
    exact ⟨(inv_step hids hlen hi.1 op).1, ordered_step hids hlen hi.1 hi.2 hop⟩
  have hinv := inv_alloc h
  have hstart : Ordered (⟨jb, []⟩ : Hist μ) := by
    unfold jbufAlloc at h
    split at h
    · cases h
    · cases h
      exact ordered_nil rfl fun hne => absurd rfl hne
  exact (exec_inv hstep ops ⟨jb, []⟩ ⟨hinv, hstart⟩ hops).2.increasing

theorem increasing_wrap : ∃ jb : Jbuf Unit, jbufAlloc 0 4 = .ok jb ∧
    Increasing (exec Hist.step ⟨jb, []⟩ [.put (packet 65534) none 0, .get, .put (packet 1) none 0,
      .put (packet 65535) none 0, .get, .get]).got := by
  have halloc : jbufAlloc 0 4 = .ok
      (⟨(List.range 4).map Frame.zero, [], 0, 0, 4, 0, 20, 0, 0, 0, false, false, true, .zero, .FIXED,
        .zero⟩ : Jbuf Unit) := rfl
  exact ⟨_, halloc, increasing_exec halloc (by decide) _ (by decide +kernel)⟩

/-- The packet with sequence number `0` is returned twice; and from a full buffer a frame is
returned after one that it comes before. -/
theorem out_of_order : ∃ jb₁ jb₃ : Jbuf Unit, jbufAlloc 0 1 = .ok jb₁ ∧ jbufAlloc 0 3 = .ok jb₃ ∧
    (exec Hist.step ⟨jb₁, []⟩ [.put (packet 0) none 0, .get, .put (packet 0) none 0, .get]).got = [0, 0] ∧
    (exec Hist.step ⟨jb₃, []⟩ [.put (packet 100) none 0, .put (packet 30100) none 0,
      .put (packet 60100) none 0, .get, .put (packet 101) none 0, .put (packet 102) none 0, .get]).got =
      [60100, 100] ∧
    ¬ Increasing [0, 0] ∧ ¬ Increasing [60100, 100] := by
  refine ⟨_, _, rfl, rfl, ?_, ?_, ?_, ?_⟩ <;> decide +kernel

end BareRTC.Jbuf
