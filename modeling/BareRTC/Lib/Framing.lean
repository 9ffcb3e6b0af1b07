import BareRTC.Lib.Run

/-!
# Messages in a stream

A receiver of a stream gets it in segments, keeps what it has not read, and reads message by
message. A message may be followed by padding, which the receiver passes over together with the
message, whether it is there or not: if it is not, the receiver takes what comes next for the start
of a message. `framed_iff` says when all messages are read at their places: exactly if no segment
ends between a message and the end of its padding, the last message apart.
-/

namespace BareRTC.Framing

open List

inductive Parsed
  | wait
  | bad
  | msg (len : Nat)
  deriving DecidableEq, Repr

structure Framer (α : Type) where
  parse : List α → Parsed
  align : Nat → Nat
  unit : Nat
  short : ∀ w, w.length < unit → parse w = .wait
  size : ∀ {w len}, parse w = .msg len → unit ≤ len ∧ len ≤ w.length
  le_align : ∀ len, len ≤ align len
  align_lt : ∀ len, align len < len + unit

structure Frame (α : Type) where
  msg : List α
  pad : List α

variable {α : Type}

def Frame.all (f : Frame α) : List α := f.msg ++ f.pad

def stream (fs : List (Frame α)) : List α := fs.flatMap Frame.all

def placed : Nat → List (Frame α) → List (Nat × List α)
  | _, [] => []
  | o, f :: fs => (o, f.msg) :: placed (o + f.all.length) fs

namespace Framer

variable (p : Framer α)

structure Reads (f : Frame α) : Prop where
  unit_le : p.unit ≤ f.msg.length
  align : f.all.length = p.align f.msg.length
  part : ∀ w, w <+: f.msg → w.length < f.msg.length → p.parse w = .wait
  whole : ∀ w, f.msg <+: w → p.parse w = .msg f.msg.length

def drain : Nat → List α → List (Nat × List α) × List α
  | 0, w => ([], w)
  | n + 1, w =>
    match p.parse w with
    | .wait => ([], w)
    | .bad => ([], [])
    | .msg len =>
      let r := drain n (w.drop (p.align len))
      ((w.length, w.take len) :: r.1, r.2)

structure Rx (α : Type) where
  count : Nat
  kept : List α

def feed (s : Rx α) (seg : List α) : Rx α × List (Nat × List α) :=
  let w := s.kept ++ seg
  let r := p.drain (w.length + 1) w
  (⟨s.count + seg.length, r.2⟩, r.1.map fun c => (s.count + seg.length - c.1, c.2))

def received (s : Rx α) (segs : List (List α)) : List (Nat × List α) := (outs p.feed s segs).flatten

end Framer

def InPad (fs : List (Frame α)) (c : Nat) : Prop :=
  ∃ a f g b, fs = a ++ f :: g :: b ∧ (stream a).length + f.msg.length ≤ c ∧ c < (stream a).length + f.all.length

def PadCut (fs : List (Frame α)) (segs : List (List α)) : Prop := ∃ us, us <+: segs ∧ InPad fs us.flatten.length

/-! ## Streams -/

section
variable {fs gs : List (Frame α)} {f g : Frame α}

@[simp] theorem stream_nil : stream ([] : List (Frame α)) = [] := rfl

@[simp] theorem stream_cons : stream (f :: fs) = f.all ++ stream fs := flatMap_cons

theorem length_stream_cons : (stream (f :: fs)).length = f.all.length + (stream fs).length := by
  rw [stream_cons, length_append]

@[simp] theorem stream_append : stream (fs ++ gs) = stream fs ++ stream gs := flatMap_append

theorem length_msg_le : f.msg.length ≤ f.all.length := by
  rw [Frame.all, length_append]
  omega

theorem placed_append : ∀ (fs : List (Frame α)) (o : Nat),
    placed o (fs ++ gs) = placed o fs ++ placed (o + (stream fs).length) gs
  | [], o => rfl
  | f :: fs, o => by
    rw [cons_append, placed, placed, placed_append fs, cons_append, length_stream_cons, Nat.add_assoc]

theorem placed_shift (k : Nat) : ∀ (fs : List (Frame α)) (o : Nat),
    placed (o + k) fs = (placed o fs).map fun c => (c.1 + k, c.2)
  | [], _ => rfl
  | f :: fs, o => by
    rw [placed, placed, map_cons, ← placed_shift k fs, Nat.add_right_comm]

theorem placed_lt : ∀ {fs : List (Frame α)} {o : Nat} {c : Nat × List α}, c ∈ placed o fs →
    c.1 + c.2.length ≤ o + (stream fs).length
  | f :: fs, o, c, hc => by
    rw [length_stream_cons]
    rw [placed] at hc
    cases hc with
    | head =>
      have := length_msg_le (f := f)
      dsimp only
      omega
    | tail _ hc =>
      have := placed_lt hc
      omega

end

namespace Framer

variable {p : Framer α} {fs : List (Frame α)} {w : List α} {f : Frame α}

/-! ## Reading what is there -/

variable {n : Nat}

theorem drain_wait (h : p.parse w = .wait) : p.drain (n + 1) w = ([], w) := by
  rw [drain, h]

theorem drain_bad (h : p.parse w = .bad) : p.drain (n + 1) w = ([], []) := by
  rw [drain, h]

theorem drain_msg {len : Nat} (h : p.parse w = .msg len) :
    p.drain (n + 1) w = ((w.length, w.take len) :: (p.drain n (w.drop (p.align len))).1,
      (p.drain n (w.drop (p.align len))).2) := by
  rw [drain, h]

theorem drain_nil (hunit : 0 < p.unit) : ∀ n, p.drain n [] = ([], [])
  | 0 => rfl
  | _ + 1 => drain_wait (p.short [] hunit)

inductive Caught (p : Framer α) (fs : List (Frame α)) (m : Nat) (done : List (Frame α)) (kept : List α) : Prop
  | waits (g : Frame α) (gs : List (Frame α)) (split : fs = done ++ g :: gs) (le : (stream done).length ≤ m)
    (kept_eq : kept = (stream (g :: gs)).take (m - (stream done).length))
    (short : m - (stream done).length < g.msg.length)
  | ends (split : fs = done) (kept_eq : kept = []) (le : (stream fs).length < m + p.unit)
  | lost (split : InPad fs m) (next : ∃ g gs, fs = done ++ g :: gs) (lt : m < (stream done).length)
    (kept_eq : kept = []) (le : (stream done).length < m + p.unit)

theorem inPad_cons {c : Nat} (h : InPad fs c) : InPad (f :: fs) (f.all.length + c) := by
  obtain ⟨a, g, g', b, rfl, hle, hlt⟩ := h
  refine ⟨f :: a, g, g', b, rfl, ?_, ?_⟩ <;> rw [length_stream_cons] <;> omega

theorem Caught.cons {done : List (Frame α)} {m : Nat} {kept : List α} (hle : f.all.length ≤ m)
    (h : Caught p fs (m - f.all.length) done kept) : Caught p (f :: fs) m (f :: done) kept := by
  cases h with
  | waits g gs split le kept_eq short =>
    refine .waits g gs (by rw [split]; rfl) ?_ ?_ ?_ <;> rw [length_stream_cons]
    · omega
    · rwa [← Nat.sub_sub]
    · rwa [← Nat.sub_sub]
  | ends split kept_eq le =>
    refine .ends (by rw [split]) kept_eq ?_
    rw [length_stream_cons]
    omega
  | lost split next lt kept_eq le =>
    obtain ⟨g, gs, rfl⟩ := next
    refine .lost ?_ ⟨g, gs, rfl⟩ ?_ kept_eq ?_
    · have := inPad_cons (f := f) split
      rwa [Nat.add_sub_cancel' hle] at this
    all_goals
      rw [length_stream_cons]
      omega

theorem drain_stream : ∀ (fs : List (Frame α)) (n m : Nat), (∀ f ∈ fs, p.Reads f) → 0 < p.unit →
    m ≤ (stream fs).length → m < n →
    ∃ done kept, p.drain n ((stream fs).take m) = ((placed 0 done).map fun c => (m - c.1, c.2), kept) ∧
      (∀ c ∈ placed 0 done, c.1 ≤ m) ∧ Caught p fs m done kept
  | [], n, m, _, hunit, hm, hn => by
    obtain rfl : m = 0 := Nat.le_zero.1 hm
    refine ⟨[], [], ?_, nofun, .ends rfl rfl (by simpa using hunit)⟩
    rw [stream_nil, take_nil, drain_nil hunit]
    rfl
  | f :: fs, 0, m, _, _, _, hn => absurd hn (Nat.not_lt_zero _)
  | f :: fs, n + 1, m, hreads, hunit, hm, hn => by
    have hf := hreads f (by simp)
    have hfs : ∀ g ∈ fs, p.Reads g := fun g hg => hreads g (mem_cons_of_mem _ hg)
    have hmsg := length_msg_le (f := f)
    have hstream : stream (f :: fs) = f.msg ++ (f.pad ++ stream fs) := by
      rw [stream_cons, Frame.all, append_assoc]
    by_cases hpart : m < f.msg.length
    · -- the message is not there yet
      have htake : (stream (f :: fs)).take m = f.msg.take m := by
        rw [hstream, take_append_of_le_length hpart.le]
      have hwait : p.parse ((stream (f :: fs)).take m) = .wait := by
        rw [htake]
        refine hf.part _ ( take_prefix _ _) ?_
        rw [length_take]
        omega
      rw [drain_wait hwait]
      exact ⟨[], _, rfl, nofun, .waits f fs rfl (Nat.zero_le _) rfl hpart⟩
    rw [Nat.not_lt] at hpart
    have hpre : f.msg <+: (stream (f :: fs)).take m := by
      rw [hstream, take_append, take_of_length_le hpart]
      exact List.prefix_append _ _
    have htake : ((stream (f :: fs)).take m).take f.msg.length = f.msg := List.prefix_iff_eq_take.1 hpre |>.symm
    have hlen : ((stream (f :: fs)).take m).length = m := length_take_of_le (by omega)
    rw [drain_msg (hf.whole _ hpre), htake, hlen, ← hf.align]
    by_cases hpad : f.all.length ≤ m
    · -- the whole frame is there
      have hdrop : ((stream (f :: fs)).take m).drop f.all.length = (stream fs).take (m - f.all.length) := by
        rw [drop_take, stream_cons, drop_left]
      have hunit_le := hf.unit_le
      rw [length_stream_cons] at hm
      obtain ⟨done, kept, hdrain, hplace, hcaught⟩ :=
        drain_stream fs n (m - f.all.length) hfs hunit (by omega) (by omega)
      rw [hdrop, hdrain]
      refine ⟨f :: done, kept, ?_, ?_, hcaught.cons hpad⟩
      · rw [placed, placed_shift, map_cons, map_map]
        refine Prod.ext (congrArg ((m, f.msg) :: ·) (map_congr_left fun c _ => ?_)) rfl
        exact Prod.ext (by dsimp only [Function.comp]; omega) rfl
      rw [placed, placed_shift]
      intro c hc
      cases hc with
      | head => exact Nat.zero_le _
      | tail _ hc =>
        obtain ⟨c', hc', rfl⟩ := mem_map.1 hc
        have := hplace c' hc'
        dsimp only
        omega
    · -- the padding is not: what comes next is lost
      have hdrop : ((stream (f :: fs)).take m).drop f.all.length = [] := by
        rw [drop_eq_nil_iff, hlen]
        omega
      have halign := p.align_lt f.msg.length
      rw [← hf.align] at halign
      rw [hdrop, drain_nil hunit]
      refine ⟨[f], [], rfl, by simp [placed], ?_⟩
      cases fs with
      | nil => exact .ends rfl rfl (by simp only [stream_cons, stream_nil, append_nil]; omega)
      | cons g gs =>
        refine .lost ⟨[], f, g, gs, rfl, ?_, ?_⟩ ⟨g, gs, rfl⟩ ?_ rfl ?_
        · simpa using hpart
        · simpa using hpad
        · simpa using hpad
        · simp only [stream_cons, stream_nil, append_nil]
          omega

/-! ## Places that are never read -/

def Skips (p : Framer α) (target pos : Nat) : Prop := target < pos ∨ (pos < target ∧ target < pos + p.unit)

theorem Skips.of_le {target pos pos' : Nat} (h : Skips p target pos) (hle : pos + p.unit ≤ pos') :
    Skips p target pos' := by
  unfold Skips at h ⊢
  omega

theorem drain_skips {target : Nat} (count : Nat) : ∀ (n : Nat) (w : List α), w.length ≤ count →
    Skips p target (count - w.length) →
    (∀ c ∈ (p.drain n w).1, count - c.1 ≠ target) ∧ (p.drain n w).2.length ≤ count ∧
      Skips p target (count - (p.drain n w).2.length)
  | 0, w, hle, hskip => ⟨nofun, hle, hskip⟩
  | n + 1, w, hle, hskip => by
    cases hparse : p.parse w with
    | wait =>
      rw [drain_wait hparse]
      exact ⟨nofun, hle, hskip⟩
    | bad =>
      have hlong : ¬ w.length < p.unit := fun hlt => by
        rw [p.short w hlt] at hparse
        cases hparse
      rw [drain_bad hparse]
      refine ⟨nofun, Nat.zero_le _, hskip.of_le ?_⟩
      simp only [length_nil]
      omega
    | msg len =>
      obtain ⟨hunit, hlen⟩ := p.size hparse
      have halign := p.le_align len
      have hdrop : (w.drop (p.align len)).length = w.length - p.align len := length_drop
      have hle' : (w.drop (p.align len)).length ≤ count := by omega
      have hskip' : Skips p target (count - (w.drop (p.align len)).length) := hskip.of_le (by omega)
      obtain ⟨hcalls, hkept, hnext⟩ := drain_skips count n (w.drop (p.align len)) hle' hskip'
      rw [drain_msg hparse]
      refine ⟨fun c hc => ?_, hkept, hnext⟩
      cases hc with
      | head =>
        unfold Skips at hskip
        dsimp only
        omega
      | tail _ hc => exact hcalls c hc

theorem received_skips {target : Nat} : ∀ (segs : List (List α)) (s : Rx α), s.kept.length ≤ s.count →
    Skips p target (s.count - s.kept.length) → ∀ c ∈ p.received s segs, c.1 ≠ target
  | [], _, _, _, c, hc => by cases hc
  | seg :: segs, s, hle, hskip, c, hc => by
    have hw : (s.kept ++ seg).length = s.kept.length + seg.length := length_append
    obtain ⟨hcalls, hkept, hnext⟩ := drain_skips (p := p) (s.count + seg.length)
      ((s.kept ++ seg).length + 1) (s.kept ++ seg) (by omega) (by
        rw [hw, Nat.add_sub_add_right]
        exact hskip)
    rcases mem_append.1 hc with hc | hc
    · obtain ⟨c', hc', rfl⟩ := mem_map.1 hc
      exact hcalls c' hc'
    · exact received_skips segs _ hkept hnext c hc

theorem received_short : ∀ (segs : List (List α)) (s : Rx α), s.kept.length + segs.flatten.length < p.unit →
    p.received s segs = []
  | [], _, _ => rfl
  | seg :: segs, s, hlt => by
    rw [flatten_cons, length_append] at hlt
    have hdrain : p.drain ((s.kept ++ seg).length + 1) (s.kept ++ seg) = ([], s.kept ++ seg) :=
      drain_wait (p.short (s.kept ++ seg) (by rw [length_append]; omega))
    have hfeed : p.feed s seg = (⟨s.count + seg.length, s.kept ++ seg⟩, []) := by
      simp only [feed, hdrain, map_nil]
    have hrest := received_short segs ⟨s.count + seg.length, s.kept ++ seg⟩ (by
      simp only [length_append]
      omega)
    unfold received at hrest ⊢
    rw [outs_cons, flatten_cons, hfeed, hrest]
    rfl

/-! ## Segments -/

theorem inPad_append {gs : List (Frame α)} {c : Nat} : ∀ fs : List (Frame α),
    InPad (fs ++ gs) ((stream fs).length + c) ↔ InPad gs c
  | [] => by simp
  | f :: fs => by
    refine Iff.trans ?_ (inPad_append fs)
    rw [length_stream_cons, Nat.add_assoc, cons_append]
    constructor
    · rintro ⟨a, f', g, b, hsplit, hle, hlt⟩
      cases a with
      | nil =>
        obtain ⟨rfl, -⟩ := List.cons.inj hsplit
        rw [stream_nil, length_nil] at hlt
        omega
      | cons f'' a =>
        obtain ⟨rfl, hrest⟩ := List.cons.inj hsplit
        rw [length_stream_cons] at hle hlt
        exact ⟨a, f', g, b, hrest, by omega, by omega⟩
    · exact inPad_cons

def Short (fs : List (Frame α)) (k : Nat) : Prop := ∀ g gs, fs = g :: gs → k < g.msg.length

theorem Short.not_inPad {k : Nat} (h : Short fs k) : ¬ InPad fs k := by
  rintro ⟨a, f, g, b, rfl, hle, -⟩
  cases a with
  | nil =>
    have := h f (g :: b) rfl
    omega
  | cons f' a =>
    have := h f' (a ++ f :: g :: b) rfl
    have := length_msg_le (f := f')
    rw [length_stream_cons] at hle
    omega

theorem inPad_add_unit_le {c : Nat} (hreads : ∀ f ∈ fs, p.Reads f) (h : InPad fs c) :
    c + p.unit ≤ (stream fs).length := by
  obtain ⟨a, f, g, b, rfl, -, hlt⟩ := h
  have hunit := (hreads g (by simp)).unit_le
  have := length_msg_le (f := g)
  simp only [stream_append, stream_cons, length_append]
  omega

theorem feed_stream {o k : Nat} {seg : List α} (hreads : ∀ f ∈ fs, p.Reads f)
    (hunit : 0 < p.unit) (hseg : (stream fs).take k ++ seg = (stream fs).take (k + seg.length))
    (hk : k + seg.length ≤ (stream fs).length) :
    ∃ done kept, p.feed ⟨o + k, (stream fs).take k⟩ seg = (⟨o + (k + seg.length), kept⟩, placed o done) ∧
      Caught p fs (k + seg.length) done kept := by
  have hlen : ((stream fs).take (k + seg.length)).length = k + seg.length := length_take_of_le (by omega)
  obtain ⟨done, kept, hdrain, hplace, hcaught⟩ :=
    drain_stream (p := p) fs (k + seg.length + 1) (k + seg.length) hreads hunit hk (Nat.lt_succ_self _)
  refine ⟨done, kept, ?_, hcaught⟩
  simp only [feed, hseg, hlen, hdrain, map_map]
  refine Prod.ext (by simp only [Nat.add_assoc]) ?_
  have hshift := placed_shift o done 0
  rw [Nat.zero_add] at hshift
  rw [hshift]
  refine map_congr_left fun c hc => ?_
  have := hplace c hc
  exact Prod.ext (by dsimp only [Function.comp]; omega) rfl

/-- **From any place where a message is awaited**, the messages to come are read at their places
exactly if no segment ends in padding that another frame follows. -/
theorem received_iff (hunit : 0 < p.unit) : ∀ (segs : List (List α)) (fs : List (Frame α)) (o k : Nat),
    (∀ f ∈ fs, p.Reads f) → Short fs k → (stream fs).take k ++ segs.flatten = stream fs →
    k ≤ (stream fs).length →
    (p.received ⟨o + k, (stream fs).take k⟩ segs = placed o fs ↔ ¬ ∃ us, us <+: segs ∧ InPad fs (k + us.flatten.length))
  | [], fs, o, k, hreads, hshort, hall, hk => by
    have hnil : fs = [] := by
      cases fs with
      | nil => rfl
      | cons g gs =>
        have := hshort g gs rfl
        have := length_msg_le (f := g)
        have hlen := congrArg List.length hall
        rw [flatten_nil, append_nil, length_take, length_stream_cons] at hlen
        omega
    subst hnil
    refine iff_of_true rfl ?_
    rintro ⟨us, -, a, f, g, b, hsplit, -⟩
    exact absurd hsplit (by simp)
  | seg :: segs, fs, o, k, hreads, hshort, hall, hk => by
    rw [flatten_cons, ← append_assoc] at hall
    have htotal := congrArg List.length hall
    rw [length_append, length_append, length_take, Nat.min_eq_left hk] at htotal
    have hseg : (stream fs).take k ++ seg = (stream fs).take (k + seg.length) := by
      have := congrArg (List.take (k + seg.length)) hall
      rwa [take_left' (by rw [length_append, length_take, Nat.min_eq_left hk])] at this
    obtain ⟨done, kept, hfeed, hcaught⟩ := feed_stream (o := o) hreads hunit hseg (by omega)
    have hreceived : p.received ⟨o + k, (stream fs).take k⟩ (seg :: segs) =
        placed o done ++ p.received ⟨o + (k + seg.length), kept⟩ segs := by
      unfold received
      rw [outs_cons, flatten_cons, hfeed]
    have hcuts : (∃ us, us <+: seg :: segs ∧ InPad fs (k + us.flatten.length)) ↔
        ∃ us, us <+: segs ∧ InPad fs (k + seg.length + us.flatten.length) := by
      constructor
      · rintro ⟨us, hus, hin⟩
        cases us with
        | nil => exact absurd hin hshort.not_inPad
        | cons u us =>
          obtain ⟨rfl, hrest⟩ := cons_prefix_cons.1 hus
          rw [flatten_cons, length_append, ← Nat.add_assoc] at hin
          exact ⟨us, hrest, hin⟩
      · rintro ⟨us, hus, hin⟩
        refine ⟨seg :: us, cons_prefix_cons.2 ⟨rfl, hus⟩, ?_⟩
        rw [flatten_cons, length_append, ← Nat.add_assoc]
        exact hin
    rw [hreceived, hcuts]
    cases hcaught with
    | waits g gs split le kept_eq short =>
      subst split
      have hk' : k + seg.length = (stream done).length + (k + seg.length - (stream done).length) := by omega
      have hdrop : (stream (g :: gs)).take (k + seg.length - (stream done).length) ++ segs.flatten =
          stream (g :: gs) := by
        have := congrArg (List.drop (stream done).length) hall
        rwa [hseg, drop_append_of_le_length (by rw [length_take]; omega), drop_take, stream_append, drop_left] at this
      rw [stream_append, length_append] at htotal
      have ih := received_iff hunit segs (g :: gs) (o + (stream done).length) (k + seg.length - (stream done).length)
        (fun f hf => hreads f (mem_append_right _ hf)) (by rintro g' gs' ⟨⟩; exact short) hdrop (by omega)
      rw [Nat.add_assoc, ← hk', ← kept_eq] at ih
      have hin : ∀ c, InPad (done ++ g :: gs) (k + seg.length + c) ↔
          InPad (g :: gs) (k + seg.length - (stream done).length + c) := fun c => by
        refine Iff.trans (iff_of_eq (congrArg _ ?_)) (inPad_append done)
        omega
      rw [placed_append, append_cancel_left_eq, ih]
      simp only [hin]
    | ends split kept_eq le =>
      subst split kept_eq
      rw [received_short segs _ (by simp only [length_nil]; omega), append_nil]
      refine iff_of_true rfl ?_
      rintro ⟨us, hus, hin⟩
      have := inPad_add_unit_le hreads hin
      omega
    | lost split next lt kept_eq le =>
      obtain ⟨g, gs, rfl⟩ := next
      subst kept_eq
      refine iff_of_false (fun heq => ?_) (not_not.2 ⟨[], List.nil_prefix, split⟩)
      -- the message at the end of the padding is never read
      have hmem : (o + (stream done).length, g.msg) ∈ placed o (done ++ g :: gs) := by
        rw [placed_append]
        exact mem_append_right _ (.head _)
      rw [← heq] at hmem
      rcases mem_append.1 hmem with hmem | hmem
      · have hunit_le := (hreads g (by simp)).unit_le
        have := placed_lt hmem
        dsimp only at this
        omega
      · refine received_skips (p := p) segs _ (Nat.zero_le _) (.inr ?_) _ hmem rfl
        simp only [length_nil]
        omega

/-- **The messages of a stream are read at their places**, whatever the segments are, exactly if no
segment ends in padding that another frame follows. -/
theorem framed_iff (hunit : 0 < p.unit) {segs : List (List α)}
    (hreads : ∀ f ∈ fs, p.Reads f) (hall : segs.flatten = stream fs) :
    p.received ⟨0, []⟩ segs = placed 0 fs ↔ ¬ PadCut fs segs := by
  have hshort : Short fs 0 := by
    rintro g gs rfl
    have := (hreads g (by simp)).unit_le
    omega
  have h := received_iff hunit segs fs 0 0 hreads hshort (by simpa using hall) (Nat.zero_le _)
  simpa [PadCut] using h

/-! ## What is kept -/

def Awaits (fs : List (Frame α)) (s : Rx α) : Prop :=
  ∃ done g gs, fs = done ++ g :: gs ∧ (stream done).length ≤ s.count ∧
    s.kept = (stream (g :: gs)).take (s.count - (stream done).length) ∧
    s.count - (stream done).length < g.msg.length

theorem Awaits.feed {s : Rx α} {seg more : List α} (h : Awaits fs s) (hreads : ∀ f ∈ fs, p.Reads f)
    (hunit : 0 < p.unit) (hnext : (stream fs).drop s.count = seg ++ more)
    (hmore : p.unit ≤ more.length) (hcut : ¬ InPad fs (s.count + seg.length)) :
    Awaits fs (p.feed s seg).1 := by
  obtain ⟨count, kept⟩ := s
  obtain ⟨done, g, gs, rfl, hle, hkept, hshort⟩ := h
  obtain ⟨k, rfl⟩ := Nat.exists_eq_add_of_le hle
  dsimp only at hkept hshort hnext hcut
  rw [Nat.add_sub_cancel_left] at hkept hshort
  subst hkept
  rw [stream_append, drop_length_add_append] at hnext
  have hlen := congrArg List.length hnext
  have hg := length_msg_le (f := g)
  rw [length_drop, length_append, length_stream_cons] at hlen
  have hseg : (stream (g :: gs)).take k ++ seg = (stream (g :: gs)).take (k + seg.length) := by
    rw [take_add, hnext, take_left]
  obtain ⟨done', kept', hfeed, hcaught⟩ := feed_stream (o := (stream done).length)
    (fun f hf => hreads f (mem_append_right _ hf)) hunit hseg (by rw [length_stream_cons]; omega)
  rw [hfeed]
  cases hcaught with
  | waits g' gs' split le kept_eq short =>
    have hk : (stream done).length + (k + seg.length) - (stream (done ++ done')).length =
        k + seg.length - (stream done').length := by
      rw [stream_append, length_append]
      omega
    refine ⟨done ++ done', g', gs', by rw [split, append_assoc], ?_, ?_, ?_⟩
    · rw [stream_append, length_append]
      exact Nat.add_le_add_left le _
    · dsimp only
      rw [hk, kept_eq]
    · dsimp only
      rwa [hk]
  | ends _ _ le =>
    rw [length_stream_cons] at le
    omega
  | lost split =>
    rw [Nat.add_assoc] at hcut
    exact absurd ((inPad_append done).2 split) hcut

/-- Nothing is kept exactly where a frame ends. -/
theorem Awaits.kept_eq_nil_iff {s : Rx α} (h : Awaits fs s) :
    s.kept = [] ↔ ∃ a, a <+: fs ∧ (stream a).length = s.count := by
  obtain ⟨done, g, gs, rfl, hle, hkept, hshort⟩ := h
  have hg := length_msg_le (f := g)
  rw [hkept, take_eq_nil_iff]
  constructor
  · rintro (hk | hnil)
    · exact ⟨done, List.prefix_append _ _, by omega⟩
    · have hlen := congrArg List.length hnil
      rw [length_stream_cons, length_nil] at hlen
      omega
  · rintro ⟨a, ha, hlen⟩
    refine .inl ?_
    rcases prefix_or_prefix_of_prefix ha ( List.prefix_append done (g :: gs)) with hpre | ⟨t, rfl⟩
    · obtain ⟨t, rfl⟩ := hpre
      rw [stream_append, length_append] at hle ⊢
      omega
    · rw [stream_append, length_append] at hlen
      cases t with
      | nil =>
        rw [stream_nil, length_nil] at hlen
        omega
      | cons g' t =>
        obtain ⟨rfl, -⟩ := cons_prefix_cons.1 ((prefix_append_right_inj done).1 ha)
        rw [length_stream_cons] at hlen
        omega

end Framer

end BareRTC.Framing
