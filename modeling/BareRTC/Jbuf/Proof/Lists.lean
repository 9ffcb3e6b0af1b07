import BareRTC.Lib.Run
import BareRTC.Jbuf.Defs

/-!
# The lists of the jitter buffer

Frames move between the pool and the list of buffered frames along five paths: from the pool, from
the head of a full buffer, back after a duplicate, out to the caller, and in a flush. After any
calls the two lists hold the frames that were allocated, `n` is the number of those that are
buffered, neighbours are in sequence, and every packet that was put is accounted for
(`consistent_exec`).
-/

namespace BareRTC.Jbuf

open List

variable {μ : Type} {x y : UInt16} {f : Frame μ}

/-! ## Sequence numbers -/

theorem seqLess_iff : seqLess x y ↔ 32768 ≤ (x - y).toNat := by
  have h := (x - y).toNat_lt
  rw [seqLess, decide_eq_true_eq, Int16.lt_iff_toInt_lt, Int16.toInt, BitVec.toInt_eq_toNat_cond]
  change (if 2 * (x - y).toNat < 2 ^ 16 then ((x - y).toNat : Int) else (x - y).toNat - (2 ^ 16 : Nat)) < 0 ↔ _
  split <;> omega

theorem seqLess_of_not (h : ¬ seqLess y x) (hne : x ≠ y) : seqLess x y := by
  rw [seqLess_iff] at h ⊢
  rw [Ne, ← UInt16.toNat_inj] at hne
  rw [UInt16.toNat_sub] at h ⊢
  have hx := x.toNat_lt
  have hy := y.toNat_lt
  omega

theorem seqLess_of_not_succ (h : ¬ seqLess x (y + 1)) : seqLess y x := by
  rw [seqLess_iff] at h ⊢
  rw [UInt16.toNat_sub, UInt16.toNat_add] at h
  rw [UInt16.toNat_sub]
  have hx := x.toNat_lt
  have hy := y.toNat_lt
  change ¬ 32768 ≤ (2 ^ 16 - (y.toNat + 1) % 2 ^ 16 + x.toNat) % 2 ^ 16 at h
  omega

def Sorted (l : List (Frame μ)) : Prop := l.IsChain fun f g => seqLess f.seq g.seq

/-- The loop from the last frame puts a frame between two that it is in sequence with. -/
theorem insertRev_spec {l l' : List (Frame μ)} (h : insertRev f l = some l')
    (hs : l.IsChain fun g f => seqLess f.seq g.seq) :
    l'.IsChain (fun g f => seqLess f.seq g.seq) ∧ l'.Perm (f :: l) ∧
      (l'.getLast? = l.getLast? ∨ l'.getLast? = some f) ∧
      ∀ g ∈ l'.head?, l.head? = some g ∨ g = f ∧ ∀ g ∈ l.head?, seqLess g.seq f.seq := by
  fun_induction insertRev f l generalizing l' with
  | case1 =>
    cases h
    exact ⟨.singleton f, .refl _, .inr rfl, fun g hg => by cases hg; exact .inr ⟨rfl, nofun⟩⟩
  | case2 g gs hlt =>
    cases h
    refine ⟨isChain_cons_cons.2 ⟨hlt, hs⟩, .refl _, .inl (by simp), fun g' hg => ?_⟩
    cases hg
    refine .inr ⟨rfl, fun g' hg' => ?_⟩
    cases hg'
    exact hlt
  | case3 g gs hlt heq => cases h
  | case4 g gs hlt hne ih =>
    obtain ⟨l', hins, rfl⟩ := Option.map_eq_some_iff.1 h
    obtain ⟨hchain, hperm, hlast, hhead⟩ := ih hins hs.tail
    have hfg : seqLess f.seq g.seq := seqLess_of_not hlt hne
    refine ⟨?_, ?_, ?_, fun g' hg' => ?_⟩
    · refine isChain_cons.2 ⟨fun g' hg' => ?_, hchain⟩
      rcases hhead g' hg' with hg' | ⟨rfl, -⟩
      · exact (isChain_cons.1 hs).1 g' hg'
      · exact hfg
    · exact (hperm.cons g).trans (List.Perm.swap f g gs)
    · have hne' : l' ≠ [] := by
        rintro rfl
        exact absurd hperm.length_eq (by simp)
      rw [getLast?_cons_of_ne_nil hne']
      cases gs with
      | nil =>
        cases hins
        exact .inr rfl
      | cons g' gs => simpa using hlast
    · cases hg'
      exact .inl rfl

/-! ## What the jitter computation leaves alone -/

structure Same (jb jb' : Jbuf μ) : Prop where
  pooll : jb'.pooll = jb.pooll
  framel : jb'.framel = jb.framel
  n : jb'.n = jb.n
  seqGet : jb'.seqGet = jb.seqGet
  running : jb'.running = jb.running
  jbtype : jb'.jbtype = jb.jbtype
  min : jb'.min = jb.min
  wish : jb'.wish = jb.wish
  nPut : jb'.stat.nPut = jb.stat.nPut
  nDups : jb'.stat.nDups = jb.stat.nDups
  nOverflow : jb'.stat.nOverflow = jb.stat.nOverflow

theorem Same.trans {jb jb' jb'' : Jbuf μ} (h : Same jb jb') (h' : Same jb' jb'') : Same jb jb'' :=
  ⟨h'.pooll.trans h.pooll, h'.framel.trans h.framel, h'.n.trans h.n, h'.seqGet.trans h.seqGet,
    h'.running.trans h.running, h'.jbtype.trans h.jbtype, h'.min.trans h.min, h'.wish.trans h.wish,
    h'.nPut.trans h.nPut, h'.nDups.trans h.nDups, h'.nOverflow.trans h.nOverflow⟩

theorem same_calcBufftime {jb : Jbuf μ} : Same jb (calcBufftime jb).2 := by
  unfold calcBufftime
  dsimp only
  split <;> constructor <;> rfl

theorem same_jitterCalc {ts : UInt32} {tr : UInt64} {jb : Jbuf μ} : Same jb (jitterCalc ts tr jb) := by
  unfold jitterCalc
  dsimp only
  split
  · constructor <;> rfl
  · exact (same_calcBufftime).trans (by constructor <;> rfl)

theorem same_success {hdr : RtpHeader} (now : UInt64) (jb : Jbuf μ) :
    Same { jb with running := true } (success hdr now jb) := by
  unfold success
  dsimp only
  split
  · exact .trans (by constructor <;> rfl) (same_jitterCalc)
  · constructor <;> rfl

theorem same_countLost (f : Frame μ) {jb : Jbuf μ} : Same jb (countLost f jb) := by
  unfold countLost
  split <;> constructor <;> rfl

theorem same_ready (jb : Jbuf μ) : Same jb (ready jb).2 := by
  unfold ready
  dsimp only
  repeat' split
  all_goals constructor <;> rfl

def Counted (got : Nat) (jb : Jbuf μ) : Prop :=
  jb.stat.nPut = UInt32.ofNat got + jb.stat.nDups + jb.stat.nOverflow + jb.n

structure Inv (ids : List Nat) (got : Nat) (jb : Jbuf μ) : Prop where
  n : jb.n.toNat = jb.framel.length
  frames : ((jb.framel ++ jb.pooll).map Frame.id).Perm ids
  sorted : Sorted jb.framel
  pooled : ∀ f ∈ jb.pooll, f.mem = none
  counted : Counted got jb
  adaptive : jb.jbtype = .ADAPTIVE → 1 ≤ jb.min ∧ 1 ≤ jb.wish

section
variable {ids : List Nat} {got : Nat} {jb jb' : Jbuf μ} {framel : List (Frame μ)}

theorem Inv.of_same (h : Inv ids got jb) (hs : Same jb jb') : Inv ids got jb' where
  n := by rw [hs.n, hs.framel, h.n]
  frames := by rw [hs.framel, hs.pooll]; exact h.frames
  sorted := by rw [hs.framel]; exact h.sorted
  pooled := by rw [hs.pooll]; exact h.pooled
  counted := by rw [Counted, hs.nPut, hs.nDups, hs.nOverflow, hs.n, h.counted]
  adaptive := by rw [hs.jbtype, hs.min, hs.wish]; exact h.adaptive

/-! ## Allocating and releasing a frame -/

structure Held (ids : List Nat) (f : Frame μ) (jb : Jbuf μ) : Prop where
  n : jb.n.toNat = jb.framel.length + 1
  frames : (f.id :: (jb.framel ++ jb.pooll).map Frame.id).Perm ids
  sorted : Sorted jb.framel
  pooled : ∀ f ∈ jb.pooll, f.mem = none
  adaptive : jb.jbtype = .ADAPTIVE → 1 ≤ jb.min ∧ 1 ≤ jb.wish

theorem length_ids (h : Inv ids got jb) : ids.length = jb.framel.length + jb.pooll.length := by
  rw [← h.frames.length_eq, length_map, length_append]

theorem frameAlloc_pool {pooll : List (Frame μ)} (h : jb.pooll = f :: pooll) :
    frameAlloc jb = some (f, { jb with pooll, n := jb.n + 1 }) := by
  rw [frameAlloc]
  split <;> simp_all

theorem frameAlloc_steal (hp : jb.pooll = [])
    (hf : jb.framel = f :: framel) : frameAlloc jb = some ({ f with mem := none },
      onStat (fun s => { s with nOverflow := s.nOverflow + 1 }) { jb with framel }) := by
  rw [frameAlloc]
  split <;> simp_all

/-- `frame_alloc`, after `n_put` was counted up, finds a frame. -/
theorem frameAlloc_held (h : Inv ids got jb) (hids : ids ≠ []) (hmax : ids.length < 2 ^ 32) :
    ∃ f jb', frameAlloc (onStat (fun s => { s with nPut := s.nPut + 1 }) jb) = some (f, jb') ∧
      Held ids f jb' ∧ Counted got jb' ∧ jb'.seqGet = jb.seqGet ∧ jb'.running = jb.running ∧
      (jb'.framel = jb.framel ∨ jb.pooll = [] ∧ jb'.framel = jb.framel.tail) := by
  have hlen := length_ids h
  have hcounted := h.counted
  cases hp : jb.pooll with
  | cons f pooll =>
    refine ⟨f, _, frameAlloc_pool hp, ⟨?_, ?_, h.sorted, ?_, h.adaptive⟩, ?_, rfl, rfl, .inl rfl⟩
    · have hn := h.n
      rw [hp, length_cons] at hlen
      change (jb.n + 1).toNat = _
      rw [UInt32.toNat_add, hn]
      exact Nat.mod_eq_of_lt (by show jb.framel.length + 1 < 2 ^ 32; omega)
    · have hframes := h.frames
      rw [hp, map_append, map_cons] at hframes
      rw [map_append]
      exact perm_middle.symm.trans hframes
    · exact fun g hg => h.pooled g (hp ▸ mem_cons_of_mem _ hg)
    · change jb.stat.nPut + 1 = _ + _ + _ + (jb.n + 1)
      rw [hcounted, ← UInt32.add_assoc]
      rfl
  | nil =>
    cases hf : jb.framel with
    | nil =>
      rw [hp, hf] at hlen
      exact absurd (length_eq_zero_iff.1 hlen) hids
    | cons f framel =>
      have hn := h.n
      have hframes := h.frames
      have hsorted := h.sorted
      rw [hf] at hn hframes hsorted
      refine ⟨{ f with mem := none }, _, frameAlloc_steal hp hf, ⟨hn, hframes, hsorted.tail,
        fun g hg => h.pooled g hg, h.adaptive⟩, ?_, rfl, rfl, .inr ⟨rfl, rfl⟩⟩
      change jb.stat.nPut + 1 = _ + _ + (jb.stat.nOverflow + 1) + jb.n
      rw [hcounted]
      ac_rfl

theorem inv_frameDeref (h : Held ids f jb)
    (hcounted : jb.stat.nPut = UInt32.ofNat got + jb.stat.nDups + jb.stat.nOverflow + (jb.n - 1)) :
    Inv ids got (frameDeref f jb) where
  __ := h
  n := by
    have hn := h.n
    have hle : (1 : UInt32) ≤ jb.n := by
      rw [UInt32.le_iff_toNat_le]
      show 1 ≤ jb.n.toNat
      omega
    change (jb.n - 1).toNat = _
    rw [UInt32.toNat_sub_of_le _ _ hle]
    show jb.n.toNat - 1 = _
    rw [hn]
    rfl
  frames := by
    have hframes := h.frames
    rw [map_append] at hframes
    simp only [frameDeref, map_append, map_cons, map_nil]
    refine List.Perm.trans ?_ hframes
    rw [← append_assoc]
    exact (perm_append_comm.trans (by simp))
  pooled := by
    intro g hg
    rcases mem_append.1 hg with hg | hg
    · exact h.pooled g hg
    · rw [mem_singleton.1 hg]
  counted := hcounted

/-! ## `jbuf_put` -/

theorem inv_insert {f' : Frame μ} (h : Held ids f jb) (hc : Counted got jb)
    (hid : f'.id = f.id) (hperm : framel.Perm (f' :: jb.framel)) (hsorted : Sorted framel) :
    Inv ids got { jb with framel, running := true } where
  __ := h
  n := by
    show jb.n.toNat = framel.length
    rw [h.n, hperm.length_eq, length_cons]
  frames := by
    refine List.Perm.trans ?_ h.frames
    show ((framel ++ jb.pooll).map Frame.id).Perm _
    rw [← hid]
    exact ((hperm.append_right jb.pooll).map Frame.id)
  sorted := hsorted
  counted := hc

theorem inv_dup (h : Held ids f jb) (hc : Counted got jb) :
    Inv ids got (frameDeref f (onStat (fun s => { s with nDups := s.nDups + 1 }) jb)) := by
  apply inv_frameDeref
  · exact { h with }
  rw [Counted] at hc
  simp only [onStat, hc]
  grind

/-- **What `jbuf_put` makes of a frame that it has allocated.** -/
theorem place_spec (h : Held ids f jb) (hc : Counted got jb) {hdr : RtpHeader}
    {mem : Option μ} {now : UInt64} : Inv ids got (place hdr mem now f jb).2 ∧
      (place hdr mem now f jb).2.seqGet = jb.seqGet ∧
      ((place hdr mem now f jb).2.running ∨ (place hdr mem now f jb).2.running = jb.running ∧
        (place hdr mem now f jb).2.framel = jb.framel) ∧
      ∀ g ∈ (place hdr mem now f jb).2.framel.head?, jb.framel.head? = some g ∨ g.seq = hdr.seq := by
  have hdone : ∀ jb1 framel, framel.Perm ({ f with hdr, mem } :: jb.framel) → Sorted framel →
      (∀ g ∈ framel.head?, jb.framel.head? = some g ∨ g.seq = hdr.seq) →
      Same { jb with framel, running := true } jb1 →
      Inv ids got jb1 ∧ jb1.seqGet = jb.seqGet ∧
        (jb1.running ∨ jb1.running = jb.running ∧ jb1.framel = jb.framel) ∧
        ∀ g ∈ jb1.framel.head?, jb.framel.head? = some g ∨ g.seq = hdr.seq := by
    intro jb1 framel hperm hsorted hhead hsame
    have hid : ({ f with hdr, mem } : Frame μ).id = f.id := rfl
    refine ⟨(inv_insert h hc hid hperm hsorted).of_same hsame, hsame.seqGet, .inl hsame.running, ?_⟩
    rw [hsame.framel]
    exact hhead
  unfold place
  dsimp only
  cases hlast : jb.framel.getLast? with
  | none =>
    dsimp only
    have hnil : jb.framel = [] := getLast?_eq_none_iff.1 hlast
    refine hdone _ [{ f with hdr, mem }] ?_ (.singleton _) ?_
      (same_success now { jb with framel := [{ f with hdr, mem }] })
    · rw [hnil]
    intro g hg
    cases hg
    exact .inr rfl
  | some tail =>
    dsimp only
    split
    · rename_i hlt
      refine hdone _ (jb.framel ++ [{ f with hdr, mem }]) ?_ ?_ ?_
        (same_success now { jb with framel := jb.framel ++ [{ f with hdr, mem }] })
      · exact perm_append_singleton _ _
      · refine isChain_append.2 ⟨h.sorted, .singleton _, fun x hx y hy => ?_⟩
        rw [hlast] at hx
        cases hx
        cases hy
        exact hlt
      intro g hg
      rw [head?_append] at hg
      cases hh : jb.framel.head? with
      | none =>
        rw [head?_eq_none_iff.1 hh] at hlast
        cases hlast
      | some g' =>
        rw [hh] at hg
        cases hg
        exact .inl rfl
    cases hins : insertRev { f with hdr, mem } jb.framel.reverse with
    | none => exact ⟨inv_dup h hc, rfl, .inr ⟨rfl, rfl⟩, fun g hg => .inl hg⟩
    | some l =>
      have hrev : jb.framel.reverse.IsChain fun g f => seqLess f.seq g.seq := isChain_reverse.2 h.sorted
      obtain ⟨hchain, hperm, hhead, -⟩ := insertRev_spec hins hrev
      refine hdone _ l.reverse ?_ (isChain_reverse.2 hchain) ?_ ?_
      · exact (reverse_perm l).trans (hperm.trans ((reverse_perm _).cons _))
      · intro g hg
        rw [head?_reverse] at hg
        rw [getLast?_reverse] at hhead
        rcases hhead with hhead | hhead
        · exact .inl (hhead.symm.trans hg)
        · cases hhead.symm.trans hg
          exact .inr rfl
      · exact .trans (by constructor <;> rfl) (same_success now
          (onStat (fun s => { s with nOos := s.nOos + 1 }) { jb with framel := l.reverse }))

/-! ## `jbuf_flush`, `jbuf_get` -/

theorem foldl_frameDeref (l : List (Frame μ)) (jb : Jbuf μ) :
    ∃ n, l.foldl (fun jb f => frameDeref f jb) jb =
      { jb with pooll := jb.pooll ++ l.map fun f => { f with mem := none }, n } := by
  induction l generalizing jb with
  | nil => exact ⟨jb.n, by simp⟩
  | cons f l ih =>
    obtain ⟨n, hn⟩ := ih (frameDeref f jb)
    refine ⟨n, hn.trans ?_⟩
    simp [frameDeref]

section
variable (h : Inv ids got jb)
include h

theorem inv_flush : Inv ids 0 (jbufFlush jb) := by
  obtain ⟨n, hn⟩ := foldl_frameDeref jb.framel jb
  rw [jbufFlush, hn]
  refine ⟨rfl, ?_, .nil, ?_, rfl, h.adaptive⟩
  · have hids : (jb.framel.map fun f => ({ f with mem := none } : Frame μ)).map Frame.id =
        jb.framel.map Frame.id := by simp
    show (([] ++ (jb.pooll ++ _)).map Frame.id).Perm ids
    rw [nil_append, map_append, hids]
    refine perm_append_comm.trans ?_
    rw [← map_append]
    exact h.frames
  · intro f hf
    rcases mem_append.1 hf with hf | hf
    · exact h.pooled f hf
    · obtain ⟨g, -, rfl⟩ := mem_map.1 hf
      rfl

theorem ready_framel (hr : (ready jb).1) : jb.framel ≠ [] := by
  intro hnil
  have hn : jb.n = 0 := by
    have := h.n
    rw [hnil, length_nil] at this
    exact UInt32.toNat_inj.1 this
  unfold ready at hr
  cases ht : jb.jbtype with
  | ADAPTIVE =>
    rw [ht] at hr
    simp only [hnil, isEmpty_nil, if_true] at hr
    split at hr
    · split at hr
      · cases hr
      · rename_i hw
        -- at least one frame is wished for
        have hwish := (h.adaptive ht).2
        rw [hn, UInt32.lt_iff_toNat_lt] at hw
        rw [UInt32.le_iff_toNat_le] at hwish
        exact hw (Nat.lt_of_lt_of_le Nat.zero_lt_one hwish)
    · cases hr
  | _ =>
    rw [ht] at hr
    simp [hnil] at hr

theorem inv_take (hf : jb.framel = f :: framel) :
    Inv ids (got + 1) (frameDeref f { jb with seqGet := f.seq, framel }) := by
  have hn := h.n
  have hframes := h.frames
  have hsorted := h.sorted
  rw [hf] at hn hframes hsorted
  apply inv_frameDeref
  · exact ⟨hn, hframes, hsorted.tail, h.pooled, h.adaptive⟩
  have hc := h.counted
  have hsucc : UInt32.ofNat (got + 1) = UInt32.ofNat got + 1 := UInt32.ofNat_add got 1
  rw [Counted] at hc
  rw [hc, hsucc]
  grind

/-- **What `jbuf_get` does**: it returns the first frame, or leaves the lists alone. -/
theorem jbufGet_spec :
    (∃ jb', jbufGet jb = some (.error .ENOENT, jb') ∧ Same jb jb') ∨
    ∃ f framel again jb', jb.framel = f :: framel ∧
      jbufGet jb = some (.ok ⟨f.hdr, f.mem, again⟩, jb') ∧ Inv ids (got + 1) jb' ∧
      jb'.framel = framel ∧ jb'.seqGet = f.seq ∧ jb'.running = jb.running := by
  have hcount : Same jb (onStat (fun s => { s with nGet := s.nGet + 1 }) jb) := by
    constructor <;> rfl
  have hready := same_ready (onStat (fun s => { s with nGet := s.nGet + 1 }) jb)
  have htake := ready_framel (h.of_same hcount)
  unfold jbufGet
  cases hr : ready (onStat (fun s => { s with nGet := s.nGet + 1 }) jb) with
  | mk b jb1 =>
    rw [hr] at hready htake
    have hsame := hcount.trans hready
    cases b with
    | false => exact .inl ⟨jb1, rfl, hsame⟩
    | true =>
      obtain ⟨f, framel, hf⟩ := exists_cons_of_ne_nil (htake rfl)
      have hlost := hsame.trans (same_countLost f)
      have hf1 : (countLost f jb1).framel = f :: framel := hlost.framel.trans hf
      have hinv := inv_take (h.of_same hlost) hf1
      dsimp only
      rw [show jb1.framel = f :: framel from hsame.framel.trans hf]
      dsimp only
      refine .inr ?_
      split
      · refine ⟨f, framel, true, _, hf, rfl, hinv.of_same ?_, rfl, rfl, hlost.running⟩
        constructor <;> rfl
      · exact ⟨f, framel, false, _, hf, rfl, hinv, rfl, rfl, hlost.running⟩

/-- **What `jbuf_put` does** with a packet of the same stream: it is late, or gets a frame, which
may have to be the first one. -/
theorem jbufPut_spec (hids : ids ≠ []) (hmax : ids.length < 2 ^ 32) (hdr : RtpHeader)
    (mem : Option μ) (now : UInt64) (hssrc : ssrcChanged hdr jb = false) :
    ∃ r jb', jbufPut hdr mem now jb = some (r, jb') ∧ Inv ids got jb' ∧ jb'.seqGet = jb.seqGet ∧
      (jb'.running ∨ jb'.running = jb.running ∧ (jb'.framel ≠ [] → jb.framel ≠ [])) ∧
      (late hdr.seq jb ∧ jb'.framel = jb.framel ∨
        late hdr.seq jb = false ∧ ∀ g ∈ jb'.framel.head?, g.seq = hdr.seq ∨
          jb.framel.head? = some g ∨ jb.pooll = [] ∧ jb.framel.tail.head? = some g) := by
  have hset : Same jb { jb with ssrc := hdr.ssrc } := by
    constructor <;> rfl
  have hinv := h.of_same hset
  unfold jbufPut
  rw [hssrc]
  simp only [Bool.false_eq_true, if_false]
  split
  · rename_i hlate
    refine ⟨_, _, rfl, hinv.of_same ?_, rfl, .inr ⟨rfl, id⟩, .inl ⟨hlate, rfl⟩⟩
    constructor <;> rfl
  rename_i hlate
  obtain ⟨f, jb1, halloc, hheld, hc, hseq, hrun, hfr⟩ := frameAlloc_held hinv hids hmax
  obtain ⟨hinv', hseq', hrun', hhead⟩ := place_spec hheld hc
  have hne : jb1.framel ≠ [] → jb.framel ≠ [] := by
    intro hne hnil
    rcases hfr with hfr | ⟨-, hfr⟩
    · exact hne (hfr.trans hnil)
    · exact hne (hfr.trans (by rw [hnil]; rfl))
  rw [halloc]
  refine ⟨_, _, rfl, hinv', hseq'.trans hseq, ?_, .inr ⟨Bool.eq_false_iff.2 hlate, fun g hg => ?_⟩⟩
  · rcases hrun' with hr | ⟨hr, hf⟩
    · exact .inl hr
    · exact .inr ⟨hr.trans hrun, fun h => hne (hf ▸ h)⟩
  rcases hhead g hg with hg | hg
  · rcases hfr with hfr | ⟨hp, hfr⟩
    · exact .inr (.inl (hfr ▸ hg))
    · exact .inr (.inr ⟨hp, hfr ▸ hg⟩)
  · exact .inl hg

end

theorem jbufPut_changed {hdr : RtpHeader} (hssrc : ssrcChanged hdr jb) (mem : Option μ)
    (now : UInt64) : jbufPut hdr mem now jb = jbufPut hdr mem now { jbufFlush jb with ssrc := hdr.ssrc } := by
  unfold jbufPut
  rw [hssrc]
  have hsame : ssrcChanged hdr { jbufFlush jb with ssrc := hdr.ssrc } = false := by simp [ssrcChanged]
  rw [hsame]
  rfl

theorem le_max_of_le {a b c : UInt32} (h : c ≤ a ∨ c ≤ b) : c ≤ Max.max a b := by
  show c ≤ if a ≤ b then b else a
  split
  · rename_i hab
    exact h.elim (fun h => UInt32.le_trans h hab) id
  · rename_i hab
    exact h.elim id fun h => UInt32.le_trans h (UInt32.le_of_lt (UInt32.not_le.1 hab))

theorem inv_setType (h : Inv ids got jb) {jbtype : JbufType} : Inv ids got (jbufSetType jbtype jb) := by
  unfold jbufSetType
  split
  · refine { h with adaptive := fun _ => ?_ }
    have hmin : (1 : UInt32) ≤ Max.max jb.min 1 := le_max_of_le (.inr (UInt32.le_refl 1))
    exact ⟨hmin, le_max_of_le (.inl hmin)⟩
  · rename_i hne
    exact { h with adaptive := fun ht => absurd ht hne }

theorem inv_setWish (h : Inv ids got jb) {wish : UInt32} : Inv ids got (jbufSetWish wish jb) :=
  { h with adaptive := fun ht => ⟨(h.adaptive ht).1, le_max_of_le (.inl (h.adaptive ht).1)⟩ }

end

/-! ## Runs -/

inductive Op (μ : Type)
  | put (hdr : RtpHeader) (mem : Option μ) (now : UInt64)
  | get
  | setType (jbtype : JbufType)
  | setWish (wish : UInt32)
  | silence (on : Bool)
  | flush

structure Hist (μ : Type) where
  jb : Jbuf μ
  got : List UInt16

namespace Hist

def step (h : Hist μ) : Op μ → Hist μ × Bool
  | .put hdr mem now =>
    match jbufPut hdr mem now h.jb with
    | none => (h, true)
    | some (_, jb) => (⟨jb, if ssrcChanged hdr h.jb then [] else h.got⟩, false)
  | .get =>
    match jbufGet h.jb with
    | none => (h, true)
    | some (.error _, jb) => (⟨jb, h.got⟩, false)
    | some (.ok r, jb) => (⟨jb, r.hdr.seq :: h.got⟩, false)
  | .setType jbtype => (⟨jbufSetType jbtype h.jb, h.got⟩, false)
  | .setWish wish => (⟨jbufSetWish wish h.jb, h.got⟩, false)
  | .silence on => (⟨jbufSilence on h.jb, h.got⟩, false)
  | .flush => (⟨jbufFlush h.jb, []⟩, false)

end Hist

structure Consistent (max : UInt32) (h : Hist μ) : Prop where
  n_eq : h.jb.n.toNat = h.jb.framel.length
  disjoint : ∀ f ∈ h.jb.framel, ∀ g ∈ h.jb.pooll, f.id ≠ g.id
  frames : ((h.jb.framel ++ h.jb.pooll).map Frame.id).Perm (List.range max.toNat)
  sorted : h.jb.framel.IsChain fun f g => seqLess f.seq g.seq
  pooled : ∀ f ∈ h.jb.pooll, f.mem = none
  counted : h.jb.stat.nPut =
    UInt32.ofNat h.got.length + h.jb.stat.nDups + h.jb.stat.nOverflow + h.jb.n

section
variable {max : UInt32} {h : Hist μ} {ids : List Nat}

theorem Inv.consistent (hi : Inv (List.range max.toNat) h.got.length h.jb) : Consistent max h where
  __ := hi
  n_eq := hi.n
  disjoint f hf g hg := by
    have hnodup := hi.frames.nodup_iff.2 nodup_range
    rw [map_append, nodup_append] at hnodup
    exact hnodup.2.2 _ (mem_map_of_mem hf) _ (mem_map_of_mem hg)

theorem inv_restart {got : Nat} {jb : Jbuf μ} (hi : Inv ids got jb) (hdr : RtpHeader) :
    Inv ids 0 { jbufFlush jb with ssrc := hdr.ssrc } ∧ ssrcChanged hdr { jbufFlush jb with ssrc := hdr.ssrc } = false :=
  ⟨(inv_flush hi).of_same (by constructor <;> rfl), by simp [ssrcChanged]⟩

theorem inv_step (hids : ids ≠ []) (hmax : ids.length < 2 ^ 32) (hi : Inv ids h.got.length h.jb) (op : Op μ) :
    Inv ids (h.step op).1.got.length (h.step op).1.jb ∧ (h.step op).2 = false := by
  cases op with
  | put hdr mem now =>
    by_cases hc : ssrcChanged hdr h.jb
    · obtain ⟨hflush, hsame⟩ := inv_restart hi hdr
      obtain ⟨r, jb', hput, hinv, -⟩ := jbufPut_spec hflush hids hmax hdr mem now hsame
      rw [Hist.step, jbufPut_changed hc, hput]
      simp only [hc, if_true, and_true]
      exact hinv
    rw [Bool.not_eq_true] at hc
    obtain ⟨r, jb', hput, hinv, -⟩ := jbufPut_spec hi hids hmax hdr mem now hc
    rw [Hist.step, hput]
    simp only [hc, Bool.false_eq_true, if_false, and_true]
    exact hinv
  | get =>
    rcases jbufGet_spec hi with ⟨jb', hget, hsame⟩ | ⟨f, framel, again, jb', -, hget, hinv, -⟩
    · rw [Hist.step, hget]
      exact ⟨hi.of_same hsame, rfl⟩
    · rw [Hist.step, hget]
      exact ⟨hinv, rfl⟩
  | setType jbtype => exact ⟨inv_setType hi, rfl⟩
  | setWish wish => exact ⟨inv_setWish hi, rfl⟩
  | silence on => exact ⟨hi.of_same (by constructor <;> rfl), rfl⟩
  | flush => exact ⟨inv_flush hi, rfl⟩

end

theorem inv_alloc {min max : UInt32} {jb : Jbuf μ} (h : jbufAlloc min max = .ok jb) :
    Inv (List.range max.toNat) 0 jb := by
  unfold jbufAlloc at h
  split at h
  · cases h
  cases h
  refine ⟨rfl, ?_, .nil, ?_, rfl, nofun⟩
  · rw [nil_append, map_map]
    have hid : (Frame.id ∘ (Frame.zero : Nat → Frame μ)) = id := rfl
    rw [hid, map_id]
  intro f hf
  obtain ⟨i, -, rfl⟩ := mem_map.1 hf
  rfl

theorem range_ne_nil {max : UInt32} (hmax : 1 ≤ max) : List.range max.toNat ≠ [] := by
  rw [UInt32.le_iff_toNat_le] at hmax
  intro hnil
  exact absurd (range_eq_nil.1 hnil) (Nat.ne_of_gt hmax)

theorem length_range_lt (max : UInt32) : (List.range max.toNat).length < 2 ^ 32 := by
  rw [length_range]
  exact max.toNat_lt

/-- **After any calls the lists of a jitter buffer are consistent.** -/
theorem consistent_exec {min max : UInt32} {jb : Jbuf μ} (h : jbufAlloc min max = .ok jb) (hmax : 1 ≤ max)
    (ops : List (Op μ)) : Consistent max (exec Hist.step ⟨jb, []⟩ ops) := by
  have hinv := exec_inv_all (fun h : Hist μ => Inv (List.range max.toNat) h.got.length h.jb)
    (fun h op hi => (inv_step (range_ne_nil hmax) (length_range_lt max) hi op).1) ops ⟨jb, []⟩ (inv_alloc h)
  exact hinv.consistent

def packet (seq : UInt16) : RtpHeader := ⟨2, false, false, 0, false, 0, seq, 0, 1, [], 0, 0⟩

/-- A buffer of two frames gets three packets, and the last one twice. -/
theorem consistent_two : ∃ jb : Jbuf Unit, jbufAlloc 0 2 = .ok jb ∧
    Consistent 2 (exec Hist.step ⟨jb, []⟩
      [.put (packet 1) none 0, .put (packet 2) none 0, .put (packet 3) none 0, .put (packet 3) none 0, .get]) := by
  have halloc : jbufAlloc 0 2 = .ok
      (⟨(List.range 2).map Frame.zero, [], 0, 0, 2, 0, 20, 0, 0, 0, false, false, true, .zero, .FIXED,
        .zero⟩ : Jbuf Unit) := rfl
  exact ⟨_, halloc, consistent_exec halloc (by decide) _⟩

/-! ## Packets that are rejected -/

structure Unchanged (jb jb' : Jbuf μ) : Prop where
  frames : jb'.framel.map (fun f => (f.hdr, f.mem)) = jb.framel.map fun f => (f.hdr, f.mem)
  n : jb'.n = jb.n
  seqPut : jb'.seqPut = jb.seqPut
  seqGet : jb'.seqGet = jb.seqGet
  running : jb'.running = jb.running

section
variable {hdr : RtpHeader} {mem : Option μ} {now : UInt64} {jb jb' : Jbuf μ} {e : Errno}

theorem place_error {f : Frame μ} (h : place hdr mem now f jb = (.error e, jb')) :
    jb' = frameDeref f (onStat (fun s => { s with nDups := s.nDups + 1 }) jb) := by
  unfold place at h
  dsimp only at h
  split at h
  · cases h
  split at h
  · cases h
  · split at h <;> cases h
    rfl

/-- A rejected packet leaves the frames as they are, unless its frame was taken from the head of the
list. -/
theorem put_rejected_iff (hssrc : hdr.ssrc = jb.ssrc) (h : jbufPut hdr mem now jb = some (.error e, jb')) :
    Unchanged jb jb' ↔ late hdr.seq jb ∨ jb.pooll ≠ [] := by
  have hsame : ssrcChanged hdr jb = false := by simp [ssrcChanged, hssrc]
  unfold jbufPut at h
  rw [hsame] at h
  simp only [Bool.false_eq_true, if_false] at h
  split at h
  · rename_i hlate
    cases h
    exact iff_of_true ⟨rfl, rfl, rfl, rfl, rfl⟩ (.inl hlate)
  rename_i hlate
  obtain ⟨⟨f, jb1⟩, halloc, hplace⟩ := Option.map_eq_some_iff.1 h
  obtain rfl := place_error hplace
  cases hpool : jb.pooll with
  | cons f0 pooll =>
    cases halloc.symm.trans (frameAlloc_pool hpool)
    exact iff_of_true ⟨rfl, UInt32.add_sub_cancel _ _, rfl, rfl, rfl⟩ (.inr (cons_ne_nil _ _))
  | nil =>
    cases hframes : jb.framel with
    | nil => simp [frameAlloc, onStat, hpool, hframes] at halloc
    | cons f0 framel =>
      cases halloc.symm.trans (frameAlloc_steal hpool hframes)
      refine iff_of_false (fun hu => ?_) (·.elim hlate (· rfl))
      have hlen := congrArg length hu.frames
      simp [frameDeref, onStat, hframes] at hlen

end

def twoPackets (max : UInt32) : Option (Jbuf Unit) :=
  (jbufAlloc 0 max).toOption.map fun jb => (exec Hist.step ⟨jb, []⟩ [.put (packet 1) none 0, .put (packet 2) none 0]).jb

theorem put_rejected_three : ∃ jb jb', twoPackets 3 = some jb ∧
    jbufPut (packet 2) none 0 jb = some (.error .EALREADY, jb') ∧ Unchanged jb jb' := by
  obtain ⟨jb, jb', hjb, hput, hssrc, hpool⟩ : ∃ jb jb', twoPackets 3 = some jb ∧
      jbufPut (packet 2) none 0 jb = some (.error .EALREADY, jb') ∧ (packet 2).ssrc = jb.ssrc ∧ jb.pooll ≠ [] :=
    ⟨_, _, rfl, rfl, rfl, nofun⟩
  exact ⟨jb, jb', hjb, hput, (put_rejected_iff hssrc hput).2 (.inr hpool)⟩

/-- When a packet comes to a full buffer again, the first frame is lost. -/
theorem put_rejected_two : ∃ jb jb', twoPackets 2 = some jb ∧ (packet 2).ssrc = jb.ssrc ∧
    jbufPut (packet 2) none 0 jb = some (.error .EALREADY, jb') ∧ ¬ Unchanged jb jb' :=
  ⟨_, _, rfl, rfl, rfl, fun h => absurd h.n (by decide)⟩

end BareRTC.Jbuf
