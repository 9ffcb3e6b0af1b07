import BareRTC.Sdp.Proof.Lines

/-!
# Decoding, from any text

The current media line is looked at without a check in one place, `candidate_decode`: a decode reads
through `NULL` exactly if it gets to a candidate among the attributes of the session
(`decodeSafe_iff`). And `sdp_decode` has reset the remote state before it looks at the text: when it
fails, the remote state is what the lines before the failure describe (`keepsRemote_iff`).
-/

namespace BareRTC.Sdp

open EStateM (Result)

section
variable {net : Net} {offer : Bool} {d d' : DecSt} {ls : List Line}

theorem runLines_isSome (h : runLines net offer ls d = .ok () d') (hm : d.m.isSome) :
    d'.m.isSome := by
  induction ls generalizing d with
  | nil => cases h; exact hm
  | cons l ls ih =>
    obtain ⟨_, d1, hl, hls⟩ := bind_eq_ok.1 h
    exact ih hls (lineDecode_isSome hl (.inr hm))

theorem runLines_sessionLine (h : runLines net offer ls d = .ok () d')
    (hm : d.m = none) (hm' : d'.m = none) : ∀ l ∈ ls, SessionLine l := by
  induction ls generalizing d with
  | nil => simp
  | cons l ls ih =>
    obtain ⟨_, d1, hl, hls⟩ := bind_eq_ok.1 h
    have ht : l.1 ≠ chr 'm' := by
      intro ht
      have := runLines_isSome hls (lineDecode_isSome hl (.inl ht))
      rw [hm'] at this
      cases this
    obtain ⟨hline, hm1⟩ := lineDecode_sessionLine hm ht hl
    exact List.forall_mem_cons.2 ⟨hline, ih hls hm1⟩

theorem runLines_of_sessionLine (h : ∀ l ∈ ls, SessionLine l)
    (hm : d.m = none) : ∃ d', runLines net offer ls d = .ok () d' ∧ d'.m = none := by
  induction ls generalizing d with
  | nil => exact ⟨d, rfl, hm⟩
  | cons l ls ih =>
    have hl := h l List.mem_cons_self
    obtain ⟨d1, hr, hm1⟩ := hl.accepted net offer hm
    obtain ⟨d', hrun, hm'⟩ := ih (fun l' hl' => h l' (List.mem_cons_of_mem _ hl')) hm1
    exact ⟨d', (bind_of_ok hr).trans hrun, hm'⟩

end

/-! ## No read through `NULL` -/

def Reached (net : Net) (offer : Bool) (s : Session) (text : Bytes) (l : Line) (d : DecSt) : Prop :=
  ∃ pre post, lines text = pre ++ l :: post ∧ runLines net offer pre (decodeStart s) = .ok () d

structure DecodeSafe (net : Net) (offer : Bool) (text : Bytes) (s : Session) : Prop where
  returns : ∀ s', sdpDecode net offer text s ≠ .error .nullDeref s'
  notNull : ∀ l d, Reached net offer s text l d →
    ∀ d', lineDecode net offer l.1 l.2 d ≠ .error .nullDeref d'
  scope : ∀ v d, Reached net offer s text (chr 'a', v) d →
    Scoped d (Result.state (lineDecode net offer (chr 'a') v d))

def SessionCandidate (text : Bytes) : Prop :=
  ∃ pre v post, lines text = pre ++ (chr 'a', v) :: post ∧ (∀ l ∈ pre, SessionLine l) ∧
    isCandidate v

section
variable {net : Net} {offer : Bool} {text : Bytes} {s : Session}

theorem sdpDecode_nullDeref {s' : Session} (h : sdpDecode net offer text s = .error .nullDeref s') :
    ∃ d', runLines net offer (lines text) (decodeStart s) = .error .nullDeref d' := by
  cases hr : runLines net offer (lines text) (decodeStart s) with
  | error e d =>
    rw [sdpDecode_of_error hr] at h
    cases h
    exact ⟨d, rfl⟩
  | ok a d =>
    rw [sdpDecode_of_ok hr] at h
    split at h <;> cases h

theorem Reached.not_candidate {l : Line} {d d' : DecSt} (h : Reached net offer s text l d)
    (hc : ¬ SessionCandidate text) : lineDecode net offer l.1 l.2 d ≠ .error .nullDeref d' := by
  intro hl
  obtain ⟨pre, post, hlines, hpre⟩ := h
  obtain ⟨ha, hm, hcand⟩ := (lineDecode_error hl).2 rfl
  refine hc ⟨pre, l.2, post, ?_, runLines_sessionLine hpre rfl hm, hcand⟩
  rw [hlines, ← ha]

end

/-- **Decoding is safe** for exactly the texts without a candidate before the first media line. -/
theorem decodeSafe_iff (net : Net) (offer : Bool) (text : Bytes) (s : Session) :
    DecodeSafe net offer text s ↔ ¬ SessionCandidate text := by
  constructor
  · intro h hc
    obtain ⟨pre, v, post, hlines, hpre, hcand⟩ := hc
    obtain ⟨d, hrun, hm⟩ :=
      runLines_of_sessionLine hpre (show (decodeStart s).m = none from rfl)
    exact h.notNull (chr 'a', v) d ⟨pre, post, hlines, hrun⟩ d (attrDecode_candidate hm hcand)
  intro hc
  refine ⟨fun s' h => ?_, fun l d hr d' => hr.not_candidate hc, fun v d hr => ?_⟩
  · obtain ⟨d', hd⟩ := sdpDecode_nullDeref h
    obtain ⟨pre, l, post, hlines, hpre, hl⟩ := runLines_error hd
    exact Reached.not_candidate ⟨pre, post, hlines, hpre⟩ hc hl
  have hscope := inScope_attrDecode net fun hm => by
    by_contra hcand
    rw [Bool.not_eq_false] at hcand
    exact hr.not_candidate hc (attrDecode_candidate hm hcand)
  change Scoped d (Result.state (attrDecode net v d))
  obtain ⟨-, d', hok, hd'⟩ | ⟨-, e, herr⟩ := hscope
  · rw [hok]
    exact hd'.1
  · rw [herr]
    exact .refl d

def noNet : Net := ⟨fun _ => none, fun _ => []⟩

theorem session_candidate_null : Result.err (sdpDecode noNet true
    (ascii "v=0\r\na=candidate:1 1 udp 1 10.0.0.1 5000 typ host\r\n") (sessionAlloc .init 1 1)) = some .nullDeref := by
  decide +kernel

/-! ## What a failure leaves behind -/

structure MediaRemote where
  name : Bytes
  uproto : Option Bytes
  raddr : Sa
  raddrRtcp : Sa
  rdir : Dir
  rbwv : Bwv
  rattrl : List Attr
  rfmtl : List Format

def Media.remote (m : Media) : MediaRemote :=
  ⟨m.name, m.uproto, m.raddr, m.raddrRtcp, m.rdir, m.rbwv, m.rattrl, m.rfmtl⟩

structure Remote where
  raddr : Sa
  rdir : Dir
  rbwv : Bwv
  rattrl : List Attr
  medial : List MediaRemote
  lmedial : List MediaRemote

def Session.remote (s : Session) : Remote :=
  ⟨s.raddr, s.rdir, s.rbwv, s.rattrl, s.medial.map Media.remote, s.lmedial.map Media.remote⟩

def Accepted (net : Net) (offer : Bool) (text : Bytes) (s : Session) : Prop :=
  whole text ∧ ∃ d, runLines net offer (lines text) (decodeStart s) = .ok () d

theorem accepted_iff {net : Net} {offer : Bool} {text : Bytes} {s : Session} :
    Accepted net offer text s ↔ ∃ s', sdpDecode net offer text s = .ok () s' := by
  constructor
  · intro h
    obtain ⟨hw, d, hd⟩ := h
    rw [sdpDecode_of_ok hd, if_pos hw]
    exact ⟨_, rfl⟩
  intro h
  obtain ⟨s', hs⟩ := h
  cases hr : runLines net offer (lines text) (decodeStart s) with
  | error e d =>
    rw [sdpDecode_of_error hr] at hs
    cases hs
  | ok a d =>
    rw [sdpDecode_of_ok hr] at hs
    split at hs
    · exact ⟨by assumption, d, hr⟩
    · cases hs

def Session.names (s : Session) : List Bytes := s.medial.map (·.name)

def Session.takes (offer : Bool) (text : Bytes) (s : Session) : Prop :=
  Unrefused offer (whole text) false s.names (lines text)

theorem takes_iff (net : Net) {offer : Bool} {text : Bytes} {s : Session} :
    s.takes offer text ↔ ∀ e s', sdpDecode net offer text s ≠ .error (.err e) s' := by
  have hahead : (decodeStart s).ahead = s.names := by
    simp [DecSt.ahead, DecSt.names, decodeStart, Session.names, Media.rreset]
  have hend := unrefused_iff net offer (whole text) (lines text) (decodeStart s)
  rw [hahead] at hend
  refine hend.trans ?_
  rw [sdpDecode_eq]
  cases endedLines (whole text) (runLines net offer (lines text) (decodeStart s)) with
  | ok a d => simp
  | error e d => simp

def attrText (n : Nat) : Bytes := (List.replicate n (ascii "a=x\n")).flatten

theorem textLines_attrText (n : Nat) :
    textLines 0 [] (attrText n) = (List.replicate n (chr 'a', ascii "x"), true) := by
  induction n with
  | zero => rfl
  | succ n ih =>
    have hcons (t : Bytes) : textLines 0 [] (ascii "a=x\n" ++ t) =
        ((chr 'a', ascii "x") :: (textLines 0 [] t).1, (textLines 0 [] t).2) := by
      cases t <;> rfl
    rw [attrText, List.replicate_succ, List.flatten_cons, hcons, ← attrText, ih]
    rfl

theorem runLines_attr (net : Net) (offer : Bool) (n : Nat) {s : Session} :
    runLines net offer (List.replicate n (chr 'a', ascii "x")) ⟨s, none⟩ =
      .ok () ⟨{ s with rattrl := s.rattrl ++ List.replicate n ⟨ascii "x", none⟩ }, none⟩ := by
  induction n generalizing s with
  | zero => simp [runLines]
  | succ n ih =>
    have hline : lineDecode net offer (chr 'a') (ascii "x") ⟨s, none⟩ =
        .ok () ⟨{ s with rattrl := s.rattrl ++ [⟨ascii "x", none⟩] }, none⟩ := by
      have hsplit : attrSplit (ascii "x") = (ascii "x", none) := by decide +kernel
      change attrDecode net (ascii "x") _ = _
      rw [attrDecode, hsplit]
      rfl
    rw [List.replicate_succ, runLines_cons, bind_of_ok hline, ih]
    simp [List.replicate_succ]

theorem sdpDecode_attrText (net : Net) (offer : Bool) (n : Nat) (s : Session) :
    sdpDecode net offer (attrText n) s =
      .ok () { (decodeStart s).sess with rattrl := List.replicate n ⟨ascii "x", none⟩ } := by
  have hlines := textLines_attrText n
  have hrun : runLines net offer (lines (attrText n)) (decodeStart s) =
      .ok () ⟨{ (decodeStart s).sess with rattrl := List.replicate n ⟨ascii "x", none⟩ }, none⟩ := by
    rw [lines, hlines]
    exact runLines_attr net offer n
  have halign : ∀ m ∈ (decodeStart s).sess.medial, m.alignFormats offer = m := by
    intro m hm
    obtain ⟨m', -, rfl⟩ := List.mem_map.1 hm
    rw [Media.alignFormats, if_pos (by simp [Media.rreset, Sa.init])]
  rw [sdpDecode_of_ok hrun, whole, hlines, if_pos rfl, List.map_congr_left halign, List.map_id']

def Session.after (net : Net) (s : Session) (past : List (Bool × Bytes)) : Session :=
  past.foldl (fun s t => Result.state (sdpDecode net t.1 t.2 s)) s

def KeepsRemote (net : Net) (offer : Bool) (text : Bytes) (s : Session) : Prop :=
  ∀ e s', sdpDecode net offer text s = .error (.err e) s' → s'.remote = s.remote

/-- **A decode that fails leaves the remote state as it was**, whatever was decoded before, exactly
if it does not fail: no line of the text is refused for a session with these media lines. -/
theorem keepsRemote_iff (net : Net) (offer : Bool) (text : Bytes) (s : Session) :
    (∀ past, (s.after net past).names = s.names →
      KeepsRemote net offer text (s.after net past)) ↔ s.takes offer text := by
  constructor
  · intro h
    by_contra hno
    obtain ⟨e, s', herr⟩ : ∃ e s', sdpDecode net offer text s = .error (.err e) s' := by
      simpa [takes_iff net] using hno
    -- more attributes are decoded first than the failure leaves
    have hpast : s.after net [(offer, attrText (s'.rattrl.length + 1))] =
        { (decodeStart s).sess with
          rattrl := List.replicate (s'.rattrl.length + 1) ⟨ascii "x", none⟩ } := by
      simp [Session.after, sdpDecode_attrText, Result.state]
    have hstart :
        decodeStart (s.after net [(offer, attrText (s'.rattrl.length + 1))]) = decodeStart s := by
      rw [hpast]
      simp [decodeStart, Session.rreset, Media.rreset]
    have hkeeps := h [(offer, attrText (s'.rattrl.length + 1))] (by
      rw [hpast]
      simp [Session.names, decodeStart, Media.rreset]) e s' (by
      rw [sdpDecode_eq, hstart, ← sdpDecode_eq, herr])
    rw [hpast] at hkeeps
    simpa [Session.remote] using congrArg (·.rattrl.length) hkeeps
  · intro h past hnames e s' herr
    have htakes : (s.after net past).takes offer text := by
      rw [Session.takes, hnames]
      exact h
    exact absurd herr ((takes_iff net).1 htakes e s')

def audioSession : Session :=
  { sessionAlloc .init 1 1 with
    lmedial := [{ mediaAlloc (ascii "audio") (ascii "RTP/AVP") with
      lfmtl := [⟨⟨ascii "0", none, none, some (ascii "PCMU"), true, 8000, 1⟩, none, none⟩] }] }

/-- An offer is accepted; the next one has another media line and is refused. -/
theorem reoffer_refused :
    let s := Result.state (sdpDecode noNet true (ascii "v=0\r\nm=audio 9 RTP/AVP 0\r\n") audioSession)
    let r := sdpDecode noNet true (ascii "v=0\r\nm=video 9 RTP/AVP 96\r\n") s
    s.medial.map (fun m => (m.raddr.port, m.rfmtl.map (·.id))) = [(9, [ascii "0"])] ∧
    Result.err r = some (.err .ENOTSUP) ∧
    (Result.state r).medial.map (fun m => (m.raddr.port, m.rfmtl.map (·.id))) = [(0, [])] := by
  decide +kernel

end BareRTC.Sdp
