import BareRTC.Lib.Run
import BareRTC.Lib.Window
import BareRTC.Srtp.Defs

/-!
# Streams, replay lists and contexts

What the packet functions use of a session: the stream of an SSRC and how `modStream`,
`streamGet` and `streamGetSeq` change it, the replay list as a sliding window
(`srtpReplayCheck_fst`, `srtpReplayCheck_snd`: `srtp_replay_check` is `Window.check`), and the
shape of the two components `srtp_alloc` makes for a suite (`Session.Of`).
-/

namespace BareRTC.Srtp

open List

/-! ## The stream of an SSRC -/

section
variable {srtp srtp' : Session} {ssrc ssrc' : UInt32} {f : SrtpStream → SrtpStream} {strm : SrtpStream}

theorem find_modFirst_self (hf : ∀ s, (f s).ssrc = s.ssrc) : ∀ l : List SrtpStream,
    (modFirst ssrc f l).find? (·.ssrc == ssrc) = (l.find? (·.ssrc == ssrc)).map f
  | [] => rfl
  | s :: l => by
    unfold modFirst
    split
    · rename_i h
      simp [hf, h]
    rename_i h
    simp only [find?_cons, h]
    exact find_modFirst_self hf l

theorem find_modFirst_ne (hf : ∀ s, (f s).ssrc = s.ssrc) (hne : ssrc' ≠ ssrc) :
    ∀ l : List SrtpStream, (modFirst ssrc f l).find? (·.ssrc == ssrc') = l.find? (·.ssrc == ssrc')
  | [] => rfl
  | s :: l => by
    unfold modFirst
    split
    · rename_i h
      have hs : s.ssrc = ssrc := by simpa using h
      simp [hf, hs, Ne.symm hne]
    · simp only [find?_cons]
      rw [find_modFirst_ne hf hne l]

theorem streamFind_modStream (hf : ∀ s, (f s).ssrc = s.ssrc) :
    (srtp.modStream ssrc f).streamFind ssrc = (srtp.streamFind ssrc).map f :=
  find_modFirst_self hf _

theorem streamFind_modStream_ne (hf : ∀ s, (f s).ssrc = s.ssrc) (hne : ssrc' ≠ ssrc) :
    (srtp.modStream ssrc f).streamFind ssrc' = srtp.streamFind ssrc' :=
  find_modFirst_ne hf hne _

theorem modFirst_congr {g : SrtpStream → SrtpStream} : ∀ l : List SrtpStream,
    l.find? (·.ssrc == ssrc) = some strm → f strm = g strm → modFirst ssrc f l = modFirst ssrc g l
  | [], h, _ => by cases h
  | s :: l, h, hf => by
    unfold modFirst
    rw [find?_cons] at h
    split
    · rename_i hs
      simp only [hs, Option.some.injEq] at h
      rw [h, hf]
    rename_i hs
    simp only [hs] at h
    rw [modFirst_congr l h hf]

theorem modFirst_id : ∀ l : List SrtpStream, modFirst ssrc id l = l
  | [] => rfl
  | s :: l => by
    unfold modFirst
    split
    · rfl
    · rw [modFirst_id l]

theorem modStream_congr {g : SrtpStream → SrtpStream} (h : srtp.streamFind ssrc = some strm)
    (hf : f strm = g strm) : srtp.modStream ssrc f = srtp.modStream ssrc g := by
  unfold Session.modStream
  rw [modFirst_congr _ h hf]

theorem modStream_eq_self (h : srtp.streamFind ssrc = some strm) (hf : f strm = strm) :
    srtp.modStream ssrc f = srtp := by
  rw [modStream_congr h (show f strm = id strm from hf)]
  unfold Session.modStream
  rw [modFirst_id]

theorem modStream_ne_self (hs : ∀ s, (f s).ssrc = s.ssrc) (h : srtp.streamFind ssrc = some strm)
    (hf : f strm ≠ strm) : srtp.modStream ssrc f ≠ srtp := by
  intro he
  have hfind : (srtp.modStream ssrc f).streamFind ssrc = (srtp.streamFind ssrc).map f := streamFind_modStream hs
  rw [he, h] at hfind
  exact hf (Option.some.inj hfind).symm

end

/-! ## Looking a stream up -/

section
variable {E : Env} {srtp srtp' : Session} {ssrc ssrc' : UInt32} {seq : UInt16} {strm : SrtpStream}

def Session.Room (E : Env) (srtp : Session) (ssrc : UInt32) : Prop :=
  (srtp.streamFind ssrc).isSome ∨ (srtp.streaml.length < SRTP_MAX_STREAMS ∧ E.mem)

instance : Decidable (srtp.Room E ssrc) := by unfold Session.Room; infer_instance

/-- The two ways to a stream: it is there, or it is created at the end of the list. -/
theorem streamGet_cases (h : streamGet E ssrc srtp = .ok (strm, srtp')) :
    (srtp.streamFind ssrc = some strm ∧ srtp' = srtp) ∨
      (srtp.streamFind ssrc = none ∧ strm = newStream ssrc ∧
        srtp' = { srtp with streaml := srtp.streaml ++ [newStream ssrc] }) := by
  unfold streamGet at h
  split at h
  · rename_i s hs
    cases h
    exact .inl ⟨hs, rfl⟩
  rename_i hs
  unfold streamNew at h
  split at h
  · cases h
  split at h
  · cases h
  · cases h
    exact .inr ⟨hs, rfl, rfl⟩

theorem streamFind_append_new (h : srtp.streamFind ssrc = none) :
    Session.streamFind { srtp with streaml := srtp.streaml ++ [newStream ssrc] } ssrc' =
      if ssrc' = ssrc then some (newStream ssrc) else srtp.streamFind ssrc' := by
  unfold Session.streamFind at h ⊢
  rw [find?_append]
  split
  · rename_i he
    subst he
    rw [h]
    simp [newStream]
  · rename_i he
    simp [newStream, Ne.symm he]

/-- **After a lookup the stream is in the session**, and the others are as before. -/
theorem streamGet_find (h : streamGet E ssrc srtp = .ok (strm, srtp')) : srtp'.streamFind ssrc = some strm := by
  rcases streamGet_cases h with ⟨hs, rfl⟩ | ⟨hs, rfl, rfl⟩
  · exact hs
  · rw [streamFind_append_new hs, if_pos rfl]

theorem streamGet_find_ne (h : streamGet E ssrc srtp = .ok (strm, srtp')) (hne : ssrc' ≠ ssrc) :
    srtp'.streamFind ssrc' = srtp.streamFind ssrc' := by
  rcases streamGet_cases h with ⟨_, rfl⟩ | ⟨hs, _, rfl⟩
  · rfl
  · rw [streamFind_append_new hs, if_neg hne]

theorem streamGet_comps (h : streamGet E ssrc srtp = .ok (strm, srtp')) :
    srtp'.rtp = srtp.rtp ∧ srtp'.rtcp = srtp.rtcp := by
  rcases streamGet_cases h with ⟨_, rfl⟩ | ⟨_, _, rfl⟩ <;> exact ⟨rfl, rfl⟩

theorem streamGet_of_find (h : srtp.streamFind ssrc = some strm) : streamGet E ssrc srtp = .ok (strm, srtp) := by
  simp [streamGet, h]

theorem streamGet_isOk : (∃ r, streamGet E ssrc srtp = .ok r) ↔ srtp.Room E ssrc := by
  unfold streamGet Session.Room
  split
  · rename_i hs
    simp [hs]
  rename_i hs
  unfold streamNew
  split
  · simp [hs]
    omega
  · split <;> simp_all

def Session.current (srtp : Session) (ssrc : UInt32) (seq : UInt16) : SrtpStream :=
  match srtp.streamFind ssrc with
  | some s => if s.sLSet then s else s.setSeq seq
  | none => (newStream ssrc).setSeq seq

def Session.Known (srtp : Session) (ssrc : UInt32) : Prop := ∃ s, srtp.streamFind ssrc = some s ∧ s.sLSet

theorem streamGetSeq_isOk : (∃ r, streamGetSeq E ssrc seq srtp = .ok r) ↔ srtp.Room E ssrc := by
  rw [← streamGet_isOk]
  unfold streamGetSeq
  cases streamGet E ssrc srtp with
  | error e => simp
  | ok r =>
    obtain ⟨s, srtp'⟩ := r
    refine ⟨fun _ => ⟨_, rfl⟩, fun _ => ?_⟩
    dsimp only
    split <;> exact ⟨_, rfl⟩

/-- What `stream_get_seq` returns, where it finds it, and when it changed the session for it. -/
theorem streamGetSeq_ok (h : streamGetSeq E ssrc seq srtp = .ok (strm, srtp')) :
    strm = srtp.current ssrc seq ∧ srtp'.streamFind ssrc = some strm ∧
      (∀ ssrc' ≠ ssrc, srtp'.streamFind ssrc' = srtp.streamFind ssrc') ∧
      srtp'.rtp = srtp.rtp ∧ srtp'.rtcp = srtp.rtcp ∧ (srtp.Known ssrc → srtp' = srtp) := by
  unfold streamGetSeq at h
  split at h
  · cases h
  rename_i s srtp1 hs
  have hfind := streamGet_find hs
  have hcur : srtp.current ssrc seq = if s.sLSet then s else s.setSeq seq := by
    unfold Session.current
    rcases streamGet_cases hs with ⟨hs', _⟩ | ⟨hs', rfl, _⟩ <;> rw [hs']
    rfl
  have hcomps := streamGet_comps hs
  split at h
  · rename_i hset
    cases h
    refine ⟨by rw [hcur, if_pos hset], hfind, fun _ hne => streamGet_find_ne hs hne, hcomps.1,
      hcomps.2, fun ⟨s', hs', _⟩ => ?_⟩
    rw [streamGet_of_find hs'] at hs
    cases hs
    rfl
  rename_i hset
  cases h
  have hf : ∀ s : SrtpStream, (s.setSeq seq).ssrc = s.ssrc := fun _ => rfl
  refine ⟨by rw [hcur, if_neg hset], by rw [streamFind_modStream hf, hfind]; rfl,
    fun _ hne => ?_, hcomps.1, hcomps.2, fun ⟨s', hs', hset'⟩ => ?_⟩
  · rw [streamFind_modStream_ne hf hne]
    exact streamGet_find_ne hs hne
  rw [streamGet_of_find hs'] at hs
  cases hs
  exact absurd hset' hset

end

/-! ## The replay list as a window -/

def Replay.win (r : Replay) : Window 64 := ⟨r.bitmap, r.lix.toNat⟩

theorem Replay.win_injective {r r' : Replay} (h : r.win = r'.win) : r = r' := by
  obtain ⟨b, l⟩ := r
  obtain ⟨b', l'⟩ := r'
  simp only [Replay.win, Window.mk.injEq, UInt64.toNat_inj] at h
  rw [h.1, h.2]

theorem and_one_shift_ne_zero (b : BitVec 64) {d : Nat} (hd : d < 64) : b &&& 1#64 <<< d ≠ 0 ↔ b.getLsbD d := by
  constructor
  · intro h
    by_contra hb
    apply h
    apply BitVec.eq_of_getLsbD_eq
    intro i hi
    by_cases he : i = d
    · subst he
      simp [Bool.eq_false_iff.2 hb]
    have : ¬ (d ≤ i ∧ i - d = 0) := by omega
    simp only [BitVec.getLsbD_and, BitVec.getLsbD_shiftLeft, BitVec.getLsbD_one]
    simp
    omega
  · intro hb h
    have := congrArg (fun v : BitVec 64 => v.getLsbD d) h
    simp only [BitVec.getLsbD_and, hb] at this
    simp [hd] at this

variable (r : Replay)

/-- **`srtp_replay_check` is a check against a window of 64 indices.** -/
theorem srtpReplayCheck_win (ix : UInt64) :
    ((srtpReplayCheck r ix).1, (srtpReplayCheck r ix).2.win) = r.win.check ix.toNat := by
  obtain ⟨b, l⟩ := r
  have hw : SRTP_WINDOW_SIZE.toNat = 64 := rfl
  unfold srtpReplayCheck Window.check
  by_cases hgt : ix > l
  · have hlt : (Replay.win ⟨b, l⟩).last < ix.toNat := UInt64.lt_iff_toNat_lt.1 hgt
    have hsub : (ix - l).toNat = ix.toNat - l.toNat := UInt64.toNat_sub_of_le _ _ (UInt64.le_of_lt hgt)
    have hd : ix - l < SRTP_WINDOW_SIZE ↔ ix.toNat - (Replay.win ⟨b, l⟩).last < 64 := by
      rw [UInt64.lt_iff_toNat_lt, hsub, hw]
      rfl
    rw [if_pos hlt]
    simp only [if_pos hgt]
    by_cases h : ix - l < SRTP_WINDOW_SIZE
    · simp only [if_pos h, if_pos (hd.1 h), hsub]
      rfl
    · simp only [if_neg h, if_neg (fun h' => h (hd.2 h'))]
      rfl
  have hle : ¬ (Replay.win ⟨b, l⟩).last < ix.toNat := fun h => hgt (UInt64.lt_iff_toNat_lt.2 h)
  have hsub : (l - ix).toNat = (Replay.win ⟨b, l⟩).last - ix.toNat := UInt64.toNat_sub_of_le _ _ (UInt64.not_lt.1 hgt)
  have hd : l - ix ≥ SRTP_WINDOW_SIZE ↔ 64 ≤ (Replay.win ⟨b, l⟩).last - ix.toNat := by
    rw [ge_iff_le, UInt64.le_iff_toNat_le, hsub, hw]
  rw [if_neg hle]
  simp only [if_neg hgt]
  by_cases h : l - ix ≥ SRTP_WINDOW_SIZE
  · simp only [if_pos h, if_pos (hd.1 h)]
  have hlt : ¬ 64 ≤ (Replay.win ⟨b, l⟩).last - ix.toNat := fun h' => h (hd.2 h')
  have hbit := and_one_shift_ne_zero b (Nat.not_le.1 hlt)
  simp only [if_neg h, if_neg hlt, hsub]
  by_cases hb : b.getLsbD ((Replay.win ⟨b, l⟩).last - ix.toNat)
  · simp only [if_pos (hbit.2 hb)]
    rw [if_pos (show (Replay.win ⟨b, l⟩).bitmap.getLsbD _ from hb)]
  simp only [if_neg (fun h' => hb (hbit.1 h'))]
  rw [if_neg (show ¬ (Replay.win ⟨b, l⟩).bitmap.getLsbD _ from hb)]
  rfl

theorem srtpReplayCheck_fst (ix : UInt64) : (srtpReplayCheck r ix).1 ↔ ¬ r.win.Blocked ix.toNat := by
  rw [← Window.check_fst, ← srtpReplayCheck_win]

variable {ix : UInt64}

theorem srtpReplayCheck_snd : (srtpReplayCheck r ix).2.win = (r.win.check ix.toNat).2 := by
  rw [← srtpReplayCheck_win]

theorem srtpReplayCheck_snd_eq_iff : (srtpReplayCheck r ix).2 = r ↔ (srtpReplayCheck r ix).1 = false := by
  constructor
  · intro h
    by_contra hc
    have hnb := (srtpReplayCheck_fst r ix).1 (by simpa using hc)
    have := Window.check_blocked r.win ix.toNat
    rw [← srtpReplayCheck_snd, h] at this
    exact hnb this
  intro h
  apply Replay.win_injective
  rw [srtpReplayCheck_snd]
  apply Window.check_snd_of_refused
  rw [← srtpReplayCheck_win]
  exact h

theorem not_blocked_init (i : Nat) : ¬ srtpReplayInit.win.Blocked i := by
  rintro ⟨hle, hbit⟩
  obtain rfl : i = 0 := Nat.le_zero.1 hle
  revert hbit
  decide

def replayStep (r : Replay) (ix : UInt64) : Replay × List UInt64 :=
  ((srtpReplayCheck r ix).2, if (srtpReplayCheck r ix).1 then [ix] else [])

def accepted (ixs : List UInt64) : List UInt64 := (outs replayStep srtpReplayInit ixs).flatten

variable {ixs : List UInt64}

theorem accepted_concat :
    accepted (ixs ++ [ix]) = accepted ixs ++ (replayStep (exec replayStep srtpReplayInit ixs) ix).2 := by
  rw [accepted, outs_append, flatten_append]
  simp [accepted]

theorem tracks_accepts {acc : List UInt64} (h : r.win.Tracks (acc.map UInt64.toNat)) (ix : UInt64) :
    (srtpReplayCheck r ix).1 ↔ ix ∉ acc ∧ ∀ j ∈ acc, j.toNat < ix.toNat + 64 := by
  have hfst := h.check_fst (by decide) ix.toNat
  rw [← srtpReplayCheck_win] at hfst
  simpa [UInt64.toNat_inj] using hfst

/-- **The list knows what was accepted**, over every sequence of calls. -/
theorem tracks_accepted :
    (accepted ixs).Nodup ∧ (exec replayStep srtpReplayInit ixs).win.Tracks ((accepted ixs).map UInt64.toNat) := by
  induction ixs using List.reverseRecOn with
  | nil =>
    refine ⟨nodup_nil, nofun, .inl rfl, fun j hj _ => ?_⟩
    obtain rfl := Nat.le_zero.1 hj
    decide
  | append_singleton ixs ix ih =>
    obtain ⟨hnd, htracks⟩ := ih
    have hwin := srtpReplayCheck_win (exec replayStep srtpReplayInit ixs) ix
    rw [exec_append, accepted_concat]
    show _ ∧ (srtpReplayCheck (exec replayStep srtpReplayInit ixs) ix).2.win.Tracks _
    rw [srtpReplayCheck_snd, replayStep]
    split
    · rename_i hc
      rw [map_append, ← concat_eq_append]
      exact ⟨hnd.concat ((tracks_accepts _ htracks ix).1 hc).1, htracks.check (by rwa [← hwin])⟩
    rename_i hc
    rw [append_nil, Window.check_snd_of_refused (by rw [← hwin]; simpa using hc)]
    exact ⟨hnd, htracks⟩

/-- Exactly the indices that are new and at most 63 below the largest are accepted, so none is
twice. -/
theorem replay_accepts (ixs : List UInt64) : (accepted ixs).Nodup ∧ ∀ ix,
    (srtpReplayCheck (exec replayStep srtpReplayInit ixs) ix).1 ↔
      ix ∉ accepted ixs ∧ ∀ j ∈ accepted ixs, j.toNat < ix.toNat + 64 :=
  (tracks_accepted).imp_right fun h => tracks_accepts _ h

/-! ## Contexts made for a suite -/

structure Comp.For (suite : Suite) (comp : Comp) : Prop where
  aes : comp.aes.isSome
  mode : comp.mode = suite.params.mode
  hmac : comp.hmac.isSome = suite.params.hash
  tagLen : comp.tagLen = suite.params.authBytes
  kS : comp.kS.length = 16

def Session.Of (suite : Suite) (srtp : Session) : Prop :=
  ∃ E key s, srtpAlloc E suite key = .ok s ∧ srtp.rtp = s.rtp ∧ srtp.rtcp = s.rtcp

theorem length_srtpDerive {E : Env} {n : Nat} {label : UInt8} {k s out : Bytes}
    (h : srtpDerive E n label k s = .ok out) : out.length = n := by
  unfold srtpDerive at h
  split at h
  · cases h
  dsimp only at h
  split at h
  · cases h
  split at h
  · cases h
  split at h
  · rename_i he
    cases h
    simpa using E.length_encr _ _ _ he
  · cases h

variable {suite : Suite} {comp : Comp}

theorem compInit_for {E : Env} {offs : UInt8} {k s : Bytes}
    (h : compInit E offs k s suite.params.authBytes true suite.params.hash suite.params.mode =
      .ok comp) : comp.For suite := by
  unfold compInit at h
  simp only [bind, Except.bind, pure, Except.pure, throw, throwThe, MonadExceptOf.throw] at h
  split at h
  · cases h
  split at h
  · cases h
  split at h
  · cases h
  split at h
  · cases h
  split at h
  · cases h
  rename_i kS hkS
  split at h
  · cases h
  cases h
  refine ⟨rfl, rfl, ?_, rfl, ?_⟩
  · dsimp only
    split
    · simp [*]
    · simp_all
  · simp [length_srtpDerive hkS]

theorem srtpAlloc_ok {E : Env} {key : Bytes} {srtp : Session} (h : srtpAlloc E suite key = .ok srtp) :
    srtp.streaml = [] ∧ srtp.rtp.For suite ∧ srtp.rtcp.For suite := by
  unfold srtpAlloc at h
  simp only [bind, Except.bind, pure, Except.pure, throw, throwThe, MonadExceptOf.throw] at h
  split at h
  · cases h
  split at h
  · cases h
  split at h
  · cases h
  rename_i hr
  split at h
  · cases h
  rename_i hc
  cases h
  exact ⟨rfl, compInit_for hr, compInit_for hc⟩

theorem Session.Of.comps {srtp : Session} (h : srtp.Of suite) : srtp.rtp.For suite ∧ srtp.rtcp.For suite := by
  obtain ⟨E, key, s, hs, hrtp, hrtcp⟩ := h
  rw [hrtp, hrtcp]
  exact (srtpAlloc_ok hs).2

/-- **The two kinds of context**: counter mode with an HMAC, or GCM without one. -/
theorem Comp.For.shape (h : comp.For suite) :
    (suite.params.hash ∧ ∃ kE kA, comp.aes = some kE ∧ comp.hmac = some kA ∧
        comp.mode = .CTR ∧ 4 ≤ comp.tagLen ∧ comp.tagLen ≤ 20) ∨
      (suite.params.hash = false ∧ ∃ kE, comp.aes = some kE ∧ comp.hmac = none ∧
        comp.mode = .GCM ∧ comp.tagLen = 0) := by
  obtain ⟨kE, haes⟩ := Option.isSome_iff_exists.1 h.aes
  have hmode := h.mode
  have htag := h.tagLen
  cases hh : suite.params.hash with
  | true =>
    obtain ⟨kA, hmac⟩ := Option.isSome_iff_exists.1 (h.hmac.trans hh)
    refine .inl ⟨rfl, kE, kA, haes, hmac, ?_⟩
    cases suite <;> simp_all [Suite.params]
  | false =>
    refine .inr ⟨rfl, kE, haes, ?_⟩
    have hmac : comp.hmac = none := by simpa using h.hmac.trans hh
    cases suite <;> simp_all [Suite.params]

end BareRTC.Srtp
