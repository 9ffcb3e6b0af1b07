import BareRTC.Re.Reader
import BareRTC.Srtp.Proof.Stream

/-!
# Calls: what the primitives do

Each primitive of a call by its successful exits (`onMb_require_ok`, `aesDecr_ok`, ..); with
`bind_eq_ok` they take a successful call apart. All primitives but the two that go through a
stream keep the session on every exit (`Quiet`).
-/

namespace BareRTC.Srtp

variable {α β : Type} {E : Env} {c c' : Call} {f : Session → Except Errno (α × Session)} {n : Nat} {u : Unit}
  {op op' : AesOp} {tag : Bytes}

section
variable {s s' : Session} {mb mb' : Mbuf} {evs : List Ev} {a : α} {e : Errno}

theorem onMb_of_ok {f : MbufM α} (h : f mb = .ok a mb') : onMb f ⟨s, mb, evs⟩ = .ok a ⟨s, mb', evs⟩ := by
  rw [onMb, h]

theorem onMb_of_error {f : MbufM α} (h : f mb = .error e mb') : onMb f ⟨s, mb, evs⟩ = .error e ⟨s, mb', evs⟩ := by
  rw [onMb, h]

theorem onSrtp_of_ok (h : f s = .ok (a, s')) : onSrtp f ⟨s, mb, evs⟩ = .ok a ⟨s', mb, evs⟩ := by
  rw [onSrtp, h]

theorem onSrtp_of_error (h : f s = .error e) : onSrtp f ⟨s, mb, evs⟩ = .error e ⟨s, mb, evs⟩ := by
  rw [onSrtp, h]

end

/-! ## Successful exits -/

theorem onMb_ok {f : MbufM α} {a : α} : onMb f c = .ok a c' ↔ ∃ mb, f c.mb = .ok a mb ∧ c' = { c with mb } := by
  unfold onMb
  cases f c.mb <;> simp [eq_comm]

theorem onSrtp_ok {a : α} : onSrtp f c = .ok a c' ↔ ∃ srtp, f c.srtp = .ok (a, srtp) ∧ c' = { c with srtp } := by
  unfold onSrtp
  rcases f c.srtp with e | ⟨b, srtp⟩
  · simp
  simp only [EStateM.Result.ok.injEq, Except.ok.injEq, Prod.mk.injEq]
  constructor
  · rintro ⟨rfl, rfl⟩
    exact ⟨_, ⟨rfl, rfl⟩, rfl⟩
  · rintro ⟨_, ⟨rfl, rfl⟩, rfl⟩
    exact ⟨rfl, rfl⟩

theorem onMb_require_ok : onMb (Mbuf.require n) c = .ok u c' ↔ n ≤ c.mb.getLeft ∧ c' = c := by
  rw [onMb_ok]
  unfold Mbuf.require
  split
  · simp
    omega
  · simp only [EStateM.Result.ok.injEq, true_and, exists_eq_left']
    exact ⟨fun h => ⟨by omega, h⟩, fun h => h.2⟩

theorem onMb_readMem_ok {b : Bytes} :
    onMb (Mbuf.readMem n) c = .ok b c' ↔
      n ≤ c.mb.getLeft ∧ b = slice c.mb.buf c.mb.pos n ∧ c' = { c with mb := c.mb.setPos (c.mb.pos + n) } := by
  rw [onMb_ok]
  unfold Mbuf.readMem
  split
  · simp
    omega
  simp only [EStateM.Result.ok.injEq]
  constructor
  · rintro ⟨_, ⟨rfl, rfl⟩, rfl⟩
    exact ⟨by omega, rfl, rfl⟩
  · rintro ⟨_, rfl, rfl⟩
    exact ⟨_, ⟨rfl, rfl⟩, rfl⟩

@[simp] theorem modMb_apply {f : Mbuf → Mbuf} : modMb f c = .ok () { c with mb := f c.mb } := rfl

@[simp] theorem emit_apply (e : Ev) : emit e c = .ok () { c with evs := c.evs ++ [e] } := rfl

@[simp] theorem modStream_apply (ssrc : UInt32) (f : SrtpStream → SrtpStream) :
    modStream ssrc f c = .ok () { c with srtp := c.srtp.modStream ssrc f } := rfl

variable {g : Unit → CallM β}

theorem modMb_bind (f : Mbuf → Mbuf) : (modMb f >>= g) c = g () { c with mb := f c.mb } := rfl

theorem modStream_bind (ssrc : UInt32) (f : SrtpStream → SrtpStream) :
    (modStream ssrc f >>= g) c = g () { c with srtp := c.srtp.modStream ssrc f } := rfl

theorem hmacDigest_ok {key data md : Bytes} :
    hmacDigest E key data c = .ok md c' ↔ data.length ≠ 0 ∧ E.hmac key data = some md ∧ c' = c := by
  unfold hmacDigest
  split
  · simp [*]
  · cases E.hmac key data <;> simp_all [eq_comm (a := c)]

theorem aesAad_ok {d : Bytes} :
    aesAad E op d c = .ok op' c' ↔ E.aad op d ∧ op' = { op with aad := op.aad ++ d } ∧ c' = c := by
  unfold aesAad
  split <;> simp_all [eq_comm (a := c), eq_comm (b := op')]

theorem aesEncr_ok {i : Nat} :
    aesEncr E op i n c = .ok op' c' ↔ ∃ ct, E.encr op (slice c.mb.buf i n) = some ct ∧
      op' = { op with text := op.text ++ ct } ∧ c' = { c with mb := c.mb.poke i ct } := by
  unfold aesEncr
  cases E.encr op (slice c.mb.buf i n) <;> simp [eq_comm]

theorem aesDecr_ok {i : Nat} :
    aesDecr E op i n c = .ok op' c' ↔ ∃ pt, E.decr op (slice c.mb.buf i n) = some pt ∧
      op' = { op with text := op.text ++ slice c.mb.buf i n } ∧
      c' = { c with mb := c.mb.poke i pt } := by
  unfold aesDecr
  cases E.decr op (slice c.mb.buf i n) <;> simp [eq_comm]

theorem aesGetAuthtag_ok : aesGetAuthtag E op c = .ok tag c' ↔ E.tag op = some tag ∧ c' = c := by
  unfold aesGetAuthtag
  cases E.tag op <;> simp [eq_comm]

theorem aesAuthenticate_ok :
    aesAuthenticate E op tag c = .ok u c' ↔
      E.verify op tag ∧ c' = { c with evs := c.evs ++ [.gcmOk op tag] } := by
  unfold aesAuthenticate
  split <;> simp_all [eq_comm (b := c')]

theorem checkTag_ok {key data tagCalc tagPkt : Bytes} :
    checkTag key data tagCalc tagPkt n c = .ok u c' ↔
      tagCalc.take n = tagPkt ∧ c' = { c with evs := c.evs ++ [.hmacOk key data tagPkt] } := by
  unfold checkTag
  split <;> simp_all [eq_comm (b := c')]

/-! ## The session and the record -/

def Grows (x : CallM α) : Prop := Steps Call.evs (· <+: ·) x

theorem Grows.bind {x : CallM α} {f : α → CallM β} (hx : Grows x) (hf : ∀ a, Grows (f a)) : Grows (x >>= f) :=
  Steps.bind List.IsPrefix.trans hx hf

def Quiet (x : CallM α) : Prop := ∀ c, (Result.state (x c)).srtp = c.srtp ∧ c.evs <+: (Result.state (x c)).evs

namespace Quiet

variable {x : CallM α} {f : α → CallM β}

theorem keeps (h : Quiet x) : Keeps Call.srtp x := fun c => (h c).1
theorem grows (h : Quiet x) : Grows x := fun c => (h c).2

theorem bind (hx : Quiet x) (hf : ∀ a, Quiet (f a)) : Quiet (x >>= f) := fun c =>
  ⟨hx.keeps.bind (fun a => (hf a).keeps) c, hx.grows.bind (fun a => (hf a).grows) c⟩

theorem pure (a : α) : Quiet (pure a) := fun _ => ⟨rfl, List.prefix_rfl⟩
theorem throw {e : Errno} : Quiet (throw e : CallM α) := fun _ => ⟨rfl, List.prefix_rfl⟩
theorem get : Quiet (get : CallM Call) := fun _ => ⟨rfl, List.prefix_rfl⟩
theorem modMb (f : Mbuf → Mbuf) : Quiet (modMb f) := fun _ => ⟨rfl, List.prefix_rfl⟩
theorem emit {e : Ev} : Quiet (emit e) := fun _ => ⟨rfl, List.prefix_append _ _⟩

theorem onMb (f : MbufM α) : Quiet (onMb f) := by
  intro c
  unfold Srtp.onMb
  cases f c.mb <;> exact ⟨rfl, List.prefix_rfl⟩

theorem hmacDigest (key data : Bytes) : Quiet (hmacDigest E key data) := by
  intro c
  unfold Srtp.hmacDigest
  split
  · exact ⟨rfl, List.prefix_rfl⟩
  · cases E.hmac key data <;> exact ⟨rfl, List.prefix_rfl⟩

theorem aesAad (op : AesOp) (d : Bytes) : Quiet (aesAad E op d) := by
  intro c
  unfold Srtp.aesAad
  split <;> exact ⟨rfl, List.prefix_rfl⟩

theorem aesDecr (op : AesOp) (i n : Nat) : Quiet (aesDecr E op i n) := by
  intro c
  unfold Srtp.aesDecr
  cases E.decr op (slice c.mb.buf i n) <;> exact ⟨rfl, List.prefix_rfl⟩

theorem aesAuthenticate (op : AesOp) (tag : Bytes) : Quiet (aesAuthenticate E op tag) := by
  unfold Srtp.aesAuthenticate
  split
  · exact emit
  · exact throw

theorem checkTag (key data tagCalc tagPkt : Bytes) (n : Nat) : Quiet (checkTag key data tagCalc tagPkt n) := by
  unfold Srtp.checkTag
  split
  · exact emit
  · exact throw

end Quiet

def ctrOp (comp : Comp) (key : Bytes) (ssrc : UInt32) (ix : UInt64) : AesOp :=
  ⟨.CTR, key, srtpIvCalc comp.kS ssrc ix, [], []⟩

def gcmOp (comp : Comp) (key : Bytes) (ssrc : UInt32) (ix : UInt64) (aad text : Bytes) : AesOp :=
  ⟨.GCM, key, srtpIvCalcGcm comp.kS ssrc ix, aad, text⟩

variable {ssrc : UInt32} {replay : Replay} {put : Replay → SrtpStream → SrtpStream} {ix : UInt64}

theorem replayCheck_ok :
    replayCheck ssrc replay put ix c = .ok u c' ↔ (srtpReplayCheck replay ix).1 ∧
      c' = { c with srtp := c.srtp.modStream ssrc (put (srtpReplayCheck replay ix).2) } := by
  unfold replayCheck
  rw [bind_of_ok (modStream_apply ..)]
  split <;> simp_all [eq_comm (b := c')]

theorem replayCheck_steps : Steps Call.srtp (fun s s' =>
    s' = s.modStream ssrc (put (srtpReplayCheck replay ix).2)) (replayCheck ssrc replay put ix) := by
  intro c
  unfold replayCheck
  rw [bind_of_ok (modStream_apply ..)]
  split <;> rfl

theorem replayCheck_error {e : Errno} {strm : SrtpStream}
    (hs : c.srtp.streamFind ssrc = some strm) (hput : put replay strm = strm)
    (h : replayCheck ssrc replay put ix c = .error e c') :
    (srtpReplayCheck replay ix).1 = false ∧ c'.srtp = c.srtp := by
  unfold replayCheck at h
  rw [bind_of_ok (modStream_apply ..)] at h
  split at h
  · cases h
  rename_i hr
  cases h
  have hr : (srtpReplayCheck replay ix).1 = false := by simpa using hr
  refine ⟨hr, modStream_eq_self hs ?_⟩
  rw [(srtpReplayCheck_snd_eq_iff replay).2 hr, hput]

structure Tame (ssrc : UInt32) (strm : SrtpStream) (x : CallM α) : Prop where
  grows : Grows x
  fails : FailKeeps (fun s : Session => s.streamFind ssrc = some strm) Call.srtp x

section
variable {strm : SrtpStream} {x : CallM α}

theorem Quiet.tame (h : Quiet x) : Tame ssrc strm x := ⟨h.grows, h.keeps.failKeeps⟩

theorem Quiet.bind_tame {f : α → CallM β} (h : Quiet x) (hf : ∀ a, Tame ssrc strm (f a)) : Tame ssrc strm (x >>= f) :=
  ⟨h.grows.bind fun a => (hf a).grows, h.keeps.bind_failKeeps fun a => (hf a).fails⟩

theorem replayCheck_tame (hput : put replay strm = strm) : Tame ssrc strm (replayCheck ssrc replay put ix) := by
  refine ⟨Grows.bind (fun _ => List.prefix_rfl) fun _ => ?_, fun _ _ _ hs h => (replayCheck_error hs hput h).2⟩
  split
  · exact (Quiet.pure _).grows
  · exact (Quiet.throw).grows

end

end BareRTC.Srtp
