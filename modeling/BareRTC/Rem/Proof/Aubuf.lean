import BareRTC.Lib.Run
import BareRTC.Rem.Aubuf

/-!
# The audio buffer: what is read

The unread bytes of the frames are a queue (`step_queue`): bytes come in at its end, and leave at
its front by being read or with the rest of their frame. A read fills its destination unless the
buffer has just been filled up, but has less than is read (`read_fills_iff`).
-/

namespace BareRTC.Rem

open List

def Aubuf.unread (ab : Aubuf) : Bytes := ab.afl.flatMap Auframe.left

theorem readLoop_spec : ∀ (afl : List Auframe) (sz : Nat),
    (readLoop afl sz).1.flatMap Auframe.left = (afl.flatMap Auframe.left).drop sz ∧
      (readLoop afl sz).2 = (afl.flatMap Auframe.left).take sz ∧
      ∀ af ∈ (readLoop afl sz).1, af ∈ afl ∨ af.left ≠ []
  | [], sz => by simp [readLoop]
  | af :: afl, sz => by
    obtain ⟨hstay, hread, hmem⟩ := readLoop_spec afl (sz - min af.left.length sz)
    generalize hn : min af.left.length sz = n at hstay hread hmem
    have hleft : (⟨af.mb, af.pos + n⟩ : Auframe).left = af.left.drop n := (drop_drop ..).symm
    generalize hkept : (if (⟨af.mb, af.pos + n⟩ : Auframe).left.length = 0 then [] else
      [(⟨af.mb, af.pos + n⟩ : Auframe)]) = kept
    have hflat : kept.flatMap Auframe.left = af.left.drop n := by
      rw [← hkept, ← hleft]
      split
      · exact (length_eq_zero_iff.1 ‹_›).symm
      · exact append_nil _
    have hin : ∀ x ∈ kept, x.left ≠ [] := by
      rw [← hkept]
      split
      · exact nofun
      · exact forall_mem_singleton.2 fun h => ‹¬ _› (by rw [h]; rfl)
    simp only [readLoop, hn, hkept, flatMap_cons]
    split
    · subst sz
      rw [flatMap_append, hflat, drop_append_of_le_length (by omega), take_append_of_le_length (by omega)]
      refine ⟨rfl, rfl, fun x hx => ?_⟩
      exact (mem_append.1 hx).elim (fun h => .inr (hin x h)) fun h => .inl (mem_cons_of_mem _ h)
    · have hall : af.left.length = n := by omega
      have hle : af.left.length ≤ sz := by omega
      rw [flatMap_append, hflat, hstay, hread, drop_append, take_append, hall, drop_of_length_le hall.le,
        drop_of_length_le hle, take_of_length_le hall.le, take_of_length_le hle]
      refine ⟨rfl, rfl, fun x hx => ?_⟩
      exact (mem_append.1 hx).elim (fun h => .inr (hin x h)) fun h => (hmem x h).imp_left (mem_cons_of_mem _)

/-! ## The queue -/

structure Sound (ab : Aubuf) : Prop where
  cur : ab.curSz = ab.unread.length
  frames : ∀ af ∈ ab.afl, af.left = [] → af.mb = []

def Aubuf.rests (ab : Aubuf) : List Bytes := ab.afl.map Auframe.left

def Event.frames : Event → List Bytes
  | .append mem mb => if mem then [mb] else []
  | .write memMb mem p => if memMb ∧ mem then [p] else []
  | _ => []

def Event.bytes (ev : Event) : Bytes := ev.frames.flatten

def Out.bytes : Out → Bytes
  | .audio d _ | .dropped d => d

def Handed (p d dest : Bytes) : Prop :=
  d.length ≤ p.length ∧
    (dest = d ++ replicate (p.length - d.length) 0 ∨ dest = d ++ p.drop d.length)

def Takes (ab : Aubuf) (ev : Event) : Prop :=
  match ev with
  | .read p => ∃ d dest, (step ab ev).2 = [.audio d dest] ∧ Handed p d dest ∧
      ab.unread = d ++ (step ab ev).1.unread
  | .flush => (step ab ev).2 = ab.rests.map .dropped ∧ (step ab ev).1.rests = []
  | ev => ∃ ds, (step ab ev).2 = ds.map .dropped ∧
      ab.rests ++ ev.frames = ds ++ (step ab ev).1.rests ∧
      (ds ≠ [] → ab.maxSz ≠ 0 ∧ ab.maxSz < ab.unread.length + ev.bytes.length)

theorem readFrames_dest {p : Bytes} {ab : Aubuf} :
    (readFrames p ab).2.2 = ab.unread.take p.length ++ p.drop ab.unread.length := by
  have hd : (readLoop ab.afl p.length).2 = ab.unread.take p.length :=
    (readLoop_spec ab.afl p.length).2.1
  simp only [readFrames, overwrite, hd, take_zero, nil_append, Nat.zero_add, length_take]
  rcases Nat.le_total p.length ab.unread.length with hle | hle
  · rw [Nat.min_eq_left hle, drop_length, drop_of_length_le hle]
  · rw [Nat.min_eq_right hle]

theorem readFrames_queue {ab : Aubuf} (h : Sound ab) (p : Bytes) :
    Sound (readFrames p ab).1 ∧ (readFrames p ab).2.1 = ab.unread.take p.length ∧
      ab.unread = (readFrames p ab).2.1 ++ (readFrames p ab).1.unread := by
  obtain ⟨hstay, hread, hmem⟩ := readLoop_spec ab.afl p.length
  have hunread : (readFrames p ab).1.unread = ab.unread.drop p.length := hstay
  have hd : (readFrames p ab).2.1 = ab.unread.take p.length := hread
  have hcur : (readFrames p ab).1.curSz = ab.curSz - (readFrames p ab).2.1.length := rfl
  refine ⟨⟨?_, fun af haf hnil => ?_⟩, hd, by rw [hunread, hd, take_append_drop]⟩
  · rw [hcur, hunread, hd, h.cur, length_drop, length_take]
    omega
  · exact (hmem af haf).elim (h.frames af · hnil) (absurd hnil)

theorem handed_take {p q u : Bytes} (hlen : q.length = p.length)
    (hq : q = p ∨ q = replicate p.length 0) :
    Handed p (u.take q.length) (u.take q.length ++ q.drop u.length) := by
  have hdrop : q.drop u.length = q.drop (u.take q.length).length := by
    rw [length_take]
    rcases Nat.le_total q.length u.length with hle | hle
    · rw [Nat.min_eq_left hle, drop_length, drop_of_length_le hle]
    · rw [Nat.min_eq_right hle]
  refine ⟨by rw [length_take]; omega, ?_⟩
  rw [hdrop]
  rcases hq with rfl | rfl
  · exact .inr rfl
  · rw [drop_replicate]
    exact .inl rfl

theorem aubufAppend_queue {ab : Aubuf} (h : Sound ab) {mem : Bool} {mb : Bytes} :
    Sound (aubufAppend mem mb ab).2.1 ∧ ab.rests ++ Event.frames (.append mem mb) =
        (aubufAppend mem mb ab).2.2 ++ (aubufAppend mem mb ab).2.1.rests ∧
      ((aubufAppend mem mb ab).2.2 ≠ [] → ab.maxSz ≠ 0 ∧
        ab.maxSz < ab.unread.length + (Event.bytes (.append mem mb)).length) := by
  cases mem with
  | false => exact ⟨h, append_nil _, absurd rfl⟩
  | true =>
    have happ : Sound { ab with afl := ab.afl ++ [⟨mb, 0⟩], curSz := ab.curSz + mb.length } := by
      refine ⟨by simp [h.cur, Aubuf.unread, Auframe.left], fun af haf => ?_⟩
      exact (mem_append.1 haf).elim (h.frames af) fun haf => by rw [mem_singleton.1 haf]; exact id
    have hrests : ab.rests ++ [mb] = (ab.afl ++ [(⟨mb, 0⟩ : Auframe)]).map Auframe.left := by
      simp [Aubuf.rests, Auframe.left]
    have hbytes : Event.bytes (.append true mb) = mb := append_nil mb
    simp only [aubufAppend, Event.frames, if_true, hrests, hbytes, Bool.true_eq_false, if_false,
      ← h.cur]
    split
    · rename_i hmax
      split
      · exact ⟨happ, rfl, absurd rfl⟩
      · rename_i af afl hafl
        have hcur : ab.curSz + mb.length = (af.left ++ afl.flatMap Auframe.left).length := by
          rw [← flatMap_cons, ← hafl]
          exact happ.cur
        refine ⟨⟨?_, fun x hx => happ.frames x (hafl ▸ mem_cons_of_mem _ hx)⟩, ?_, fun _ => hmax⟩
        · rw [hcur, length_append, Nat.add_sub_cancel_left]
          rfl
        · rw [hafl]
          rfl
    · exact ⟨happ, rfl, absurd rfl⟩

theorem step_queue {ab : Aubuf} (h : Sound ab) {ev : Event} :
    Sound (step ab ev).1 ∧ Takes ab ev := by
  cases ev with
  | append mem mb =>
    obtain ⟨hsound, htakes⟩ := aubufAppend_queue h
    exact ⟨hsound, _, rfl, htakes⟩
  | write memMb mem p =>
    cases memMb with
    | false => exact ⟨h, [], rfl, append_nil _, absurd rfl⟩
    | true =>
      have hframes : Event.frames (.write true mem p) = Event.frames (.append mem p) := by
        simp [Event.frames]
      obtain ⟨hsound, htakes⟩ := aubufAppend_queue h
      rw [← hframes] at htakes
      refine ⟨hsound, _, rfl, htakes.1, fun hds => ?_⟩
      rw [Event.bytes, hframes]
      exact htakes.2 hds
  | read p =>
    have hread (b : Bool) {q : Bytes} (hlen : q.length = p.length)
        (hq : q = p ∨ q = replicate p.length 0) :
        Sound (readFrames q { ab with filling := b }).1 ∧
          ∃ d dest, [Out.audio (readFrames q { ab with filling := b }).2.1
            (readFrames q { ab with filling := b }).2.2] = [.audio d dest] ∧ Handed p d dest ∧
            ab.unread = d ++ (readFrames q { ab with filling := b }).1.unread := by
      obtain ⟨hsound, hd, hunread⟩ :=
        @readFrames_queue { ab with filling := b } ⟨h.cur, h.frames⟩ q
      refine ⟨hsound, _, _, rfl, ?_, hunread⟩
      rw [readFrames_dest, hd]
      exact handed_take hlen hq
    simp only [Takes, step, aubufRead]
    split_ifs
    · exact ⟨h, [], p, rfl, ⟨Nat.zero_le _, .inr rfl⟩, rfl⟩
    · exact ⟨h, [], _, rfl, ⟨Nat.zero_le _, .inl rfl⟩, rfl⟩
    · exact hread false rfl (.inl rfl)
    · exact hread true length_replicate (.inr rfl)
    · exact hread false rfl (.inl rfl)
  | flush => exact ⟨⟨rfl, nofun⟩, rfl, rfl⟩

theorem Takes.bytes {ab : Aubuf} {ev : Event} (h : Takes ab ev) :
    ab.unread ++ ev.bytes = (step ab ev).2.flatMap Out.bytes ++ (step ab ev).1.unread := by
  have hmap (ds : List Bytes) : (ds.map Out.dropped).flatMap Out.bytes = ds.flatten := by
    rw [flatMap_map]
    exact flatMap_id
  have hflat {ds : List Bytes} (hout : (step ab ev).2 = ds.map .dropped)
      (hrests : ab.rests ++ ev.frames = ds ++ (step ab ev).1.rests) :
      ab.unread ++ ev.bytes = (step ab ev).2.flatMap Out.bytes ++ (step ab ev).1.unread := by
    rw [hout, hmap]
    simpa [Aubuf.unread, Aubuf.rests, Event.bytes, flatMap] using congrArg flatten hrests
  cases ev with
  | append | write =>
    obtain ⟨ds, hout, hrests, -⟩ := h
    exact hflat hout hrests
  | read p =>
    obtain ⟨d, dest, hout, -, hunread⟩ := h
    rw [hout, hunread]
    simp [Event.bytes, Event.frames, Out.bytes]
  | flush => exact hflat h.1 (by rw [h.2]; rfl)

theorem sound_alloc {err : Option Errno} {minSz maxSz : Nat} {ab : Aubuf}
    (h : aubufAlloc err minSz maxSz = .ok ab) : Sound ab ∧ ab.unread = [] := by
  unfold aubufAlloc at h
  split at h
  · cases h
  split at h
  · cases h
  · cases h
    exact ⟨⟨rfl, nofun⟩, rfl⟩

theorem exec_queue : ∀ (evs : List Event) {ab : Aubuf}, Sound ab →
    Sound (exec step ab evs) ∧ ab.unread ++ evs.flatMap Event.bytes =
      (outs step ab evs).flatten.flatMap Out.bytes ++ (exec step ab evs).unread ∧
    Along step Takes ab evs
  | [], ab, h => ⟨h, append_nil _, trivial⟩
  | ev :: evs, ab, h => by
    obtain ⟨hsound, htakes⟩ := step_queue h
    obtain ⟨hrun, hbytes, halong⟩ := exec_queue evs hsound
    refine ⟨hrun, ?_, htakes, halong⟩
    rw [flatMap_cons, ← append_assoc, htakes.bytes, append_assoc, hbytes, outs_cons, flatten_cons,
      flatMap_append, append_assoc]
    rfl

/-- **In order.** After any run `cur_sz` is right and no frame that is read stays. The bytes that
were written are those that were read and those that were dropped, as they left the buffer, and
those that are unread. Every read has put its bytes into its destination, and only whole rests of
frames at the head were dropped, in a flush or because there would have been too many bytes. -/
theorem audio_in_order {err : Option Errno} {minSz maxSz : Nat} {ab : Aubuf}
    (h : aubufAlloc err minSz maxSz = .ok ab) (evs : List Event) :
    Sound (exec step ab evs) ∧ evs.flatMap Event.bytes =
      (outs step ab evs).flatten.flatMap Out.bytes ++ (exec step ab evs).unread ∧
    Along step Takes ab evs := by
  obtain ⟨hsound, hnil⟩ := sound_alloc h
  obtain ⟨hrun, hbytes, halong⟩ := exec_queue evs hsound
  exact ⟨hrun, by rw [← hbytes, hnil, nil_append], halong⟩

def overrun : List Event :=
  [.write true true [1, 2, 3], .read [0, 0], .append true [4, 5, 6, 7]]

theorem audio_in_order_overrun :
    (exec step ⟨[], 2, 0, 4, true⟩ overrun).unread = [4, 5, 6, 7] ∧
    Sound (exec step ⟨[], 2, 0, 4, true⟩ overrun) ∧ overrun.flatMap Event.bytes =
      (outs step ⟨[], 2, 0, 4, true⟩ overrun).flatten.flatMap Out.bytes ++
        (exec step ⟨[], 2, 0, 4, true⟩ overrun).unread ∧
    Along step Takes ⟨[], 2, 0, 4, true⟩ overrun :=
  ⟨by decide, audio_in_order (show aubufAlloc none 2 4 = .ok _ from rfl) overrun⟩

/-! ## The destination of a read -/

def Filled (ab : Aubuf) (p : Bytes) : Prop :=
  ∃ n ≤ ab.unread.length, (aubufRead p ab).2.2 = ab.unread.take n ++ List.replicate (p.length - n) 0

/-- **A read fills its destination** exactly if it does not end the filling of the buffer with less
in it than is read. -/
theorem read_fills_iff {err : Option Errno} {minSz maxSz : Nat} {ab : Aubuf} (h : aubufAlloc err minSz maxSz = .ok ab)
    (evs : List Event) (sz : Nat) : (∀ p : Bytes, p.length = sz → Filled (exec step ab evs) p) ↔
      ¬ ((exec step ab evs).filling ∧ (exec step ab evs).wishSz ≤ (exec step ab evs).curSz ∧
        (exec step ab evs).curSz < sz) := by
  have hcur := (exec_queue evs (sound_alloc h).1).1.cur
  generalize exec step ab evs = ab at hcur
  have hread (p : Bytes) (b : Bool) : (readFrames p { ab with filling := b }).2.2 =
      ab.unread.take p.length ++ p.drop ab.unread.length :=
    readFrames_dest
  constructor
  · rintro hall ⟨hfill, hwish, hlt⟩
    obtain ⟨n, hn, heq⟩ := hall (List.replicate sz 1) length_replicate
    rw [aubufRead, if_neg (by rw [length_replicate]; omega), if_neg (by rw [if_pos hfill]; omega), hread] at heq
    have hlast := congrArg getLast? heq
    have hsz : sz - ab.unread.length ≠ 0 ∧ sz - n ≠ 0 := by omega
    simp [getLast?_replicate, hsz.1, hsz.2] at hlast
  · rintro hok p rfl
    unfold Filled aubufRead
    have hfull (b : Bool) (hle : p.length ≤ ab.unread.length) : ∃ n ≤ ab.unread.length,
        (readFrames p { ab with filling := b }).2.2 = ab.unread.take n ++ List.replicate (p.length - n) 0 :=
      ⟨p.length, hle, by rw [hread, drop_of_length_le hle, Nat.sub_self]; rfl⟩
    split_ifs with h0 hfill hlow hlow
    · exact ⟨0, Nat.zero_le _, by rw [length_eq_zero_iff.1 h0]; rfl⟩
    · exact ⟨0, Nat.zero_le _, rfl⟩
    · exact hfull _ (Nat.not_lt.1 fun hlt => hok ⟨hfill, Nat.not_lt.1 hlow, hcur ▸ hlt⟩)
    · refine ⟨ab.unread.length, le_rfl, ?_⟩
      rw [hread, length_replicate, drop_replicate, take_length, take_of_length_le (by omega)]
    · exact hfull _ (by omega)

theorem read_fills_iff_two : aubufAlloc none 2 0 = .ok ⟨[], 2, 0, 0, true⟩ ∧ ∀ p : Bytes, p.length = 2 →
    Filled (exec step ⟨[], 2, 0, 0, true⟩ [.write true true [7, 7]]) p :=
  ⟨rfl, (read_fills_iff (show aubufAlloc none 2 0 = .ok _ from rfl) _ 2).2 (by decide)⟩

/-- Two bytes are what the buffer waits for: a read of three leaves the third byte of the
destination as it was. -/
theorem third_unwritten :
    (aubufRead [1, 1, 1] (exec step ⟨[], 2, 0, 0, true⟩ [.write true true [7, 7]])).2.2 = [7, 7, 1] ∧
      ¬ Filled (exec step ⟨[], 2, 0, 0, true⟩ [.write true true [7, 7]]) [1, 1, 1] := by
  refine ⟨by decide, ?_⟩
  unfold Filled
  decide

end BareRTC.Rem
