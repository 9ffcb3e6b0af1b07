import BareRTC.Lib.Prog
import BareRTC.Sdp.Decode

/-!
# The lines of a session description

`sdp_decode` decodes while it reads; what it does is to decode the lines of the text one after the
other, up to the first that is refused (`sdpDecode_eq`). What a line can do is said here once, with
what it must match not to be refused (`Checks`): an attribute stays within its scope
(`inScope_attrDecode`), only a media line makes for another current media line (`lineDecode_other`,
`lineDecode_media`), and a line that is refused changes nothing. Which texts are refused is a matter
of the text and of the names of the media lines (`unrefused_iff`).
-/

namespace BareRTC.Sdp

open EStateM (Result)

abbrev Line := UInt8 × Bytes

def textLines : UInt8 → Bytes → Bytes → List Line × Bool
  | type, _, [] => ([], type == 0)
  | type, val, [c] =>
    if c = 13 ∨ c = 10 then (if type ≠ 0 then [(type, val)] else [], true) else ([], false)
  | type, val, c :: e :: t =>
    if c = 13 ∨ c = 10 then
      let (ls, whole) := textLines 0 [] (e :: t)
      (if type ≠ 0 then (type, val) :: ls else ls, whole)
    else if type ≠ 0 then textLines type (val ++ [c]) (e :: t)
    else if e ≠ chr '=' then ([], false)
    else textLines c [] t

def lines (text : Bytes) : List Line := (textLines 0 [] text).1

def whole (text : Bytes) : Bool := (textLines 0 [] text).2

def runLines (net : Net) (offer : Bool) : List Line → DecM Unit
  | [] => return ()
  | l :: ls => do
    lineDecode net offer l.1 l.2
    runLines net offer ls

def ended : Result Fault DecSt UInt8 → Result Fault DecSt Unit
  | .error e d => .error e d
  | .ok type d => if type ≠ 0 then .error (.err .EBADMSG) d else .ok () d

def endedLines (whole : Bool) : Result Fault DecSt Unit → Result Fault DecSt Unit
  | .error e d => .error e d
  | .ok _ d => if whole then .ok () d else .error (.err .EBADMSG) d

variable {e : Fault}

section
variable {net : Net} {offer : Bool} {d : DecSt} {text : Bytes} {s : Session}

theorem runLines_cons (l : Line) (ls : List Line) :
    runLines net offer (l :: ls) = lineDecode net offer l.1 l.2 >>= fun _ => runLines net offer ls :=
  rfl

theorem ended_bind {x : DecM Unit} {f : DecM UInt8} (ls : List Line) (w : Bool)
    (h : ∀ d, ended (f d) = endedLines w (runLines net offer ls d)) :
    ended ((x >>= fun _ => f) d) = endedLines w ((x >>= fun _ => runLines net offer ls) d) := by
  cases hx : x d with
  | ok a d' => rw [bind_of_ok hx, bind_of_ok hx, h]
  | error e d' => rw [bind_of_error hx, bind_of_error hx]; rfl

theorem ended_decodeLoop (net : Net) (offer : Bool) (type : UInt8) (val text : Bytes) (d : DecSt) :
    ended (decodeLoop net offer type val text d) =
      endedLines (textLines type val text).2 (runLines net offer (textLines type val text).1 d) := by
  fun_induction textLines type val text generalizing d with
  | case1 type val =>
    rw [decodeLoop]
    by_cases h : type = 0 <;> simp [ended, endedLines, runLines, h]
  | case2 type val c hc =>
    rw [decodeLoop, if_pos hc]
    by_cases h : type = 0
    · simp [h, ended, endedLines, runLines]
    · rw [if_pos h, if_pos h]
      exact ended_bind [] true fun _ => rfl
  | case3 type val c hc =>
    rw [decodeLoop, if_neg hc]
    by_cases h : type = 0 <;> simp [h, ended, endedLines, runLines]
  | case4 type val c e t hc ls w hls ih =>
    rw [hls] at ih
    rw [decodeLoop, if_pos hc]
    by_cases h : type = 0
    · simp only [h, ne_eq, not_true_eq_false, if_false]
      exact ih d
    · rw [if_pos h, if_pos h, runLines_cons]
      exact ended_bind ls w ih
  | case5 type val c e t hc h ih =>
    rw [decodeLoop, if_neg hc, if_pos h]
    exact ih d
  | case6 type val c e t hc h he =>
    rw [decodeLoop, if_neg hc, if_neg h, if_pos he]
    rfl
  | case7 type val c e t hc h he ih =>
    rw [decodeLoop, if_neg hc, if_neg h, if_neg he]
    exact ih d

/-- **`sdp_decode` decodes the lines** from a session whose remote state is reset, and aligns the
formats at the end. -/
theorem sdpDecode_eq :
    sdpDecode net offer text s =
      match endedLines (whole text) (runLines net offer (lines text) (decodeStart s)) with
      | .error e d => .error e d.sess
      | .ok _ d => .ok () { d.sess with medial := d.sess.medial.map (Media.alignFormats offer) } := by
  have h := ended_decodeLoop net offer 0 [] text (decodeStart s)
  unfold lines whole
  rw [← h, sdpDecode]
  cases decodeLoop net offer 0 [] text (decodeStart s) with
  | error e d => rfl
  | ok type d =>
    simp only [ended]
    split <;> rfl

theorem sdpDecode_of_error (h : runLines net offer (lines text) (decodeStart s) = .error e d) :
    sdpDecode net offer text s = .error e d.sess := by
  rw [sdpDecode_eq, h]
  rfl

theorem sdpDecode_of_ok (h : runLines net offer (lines text) (decodeStart s) = .ok () d) :
    sdpDecode net offer text s =
      if whole text then .ok () { d.sess with medial := d.sess.medial.map (Media.alignFormats offer) }
      else .error (.err .EBADMSG) d.sess := by
  rw [sdpDecode_eq, h]
  unfold endedLines
  cases whole text <;> rfl

end

/-! ## What a line can do -/

def Scoped (d d' : DecSt) : Prop :=
  match d.m with
  | none => ∃ rattrl rdir, d' = { d with sess := { d.sess with rattrl, rdir } }
  | some k => ∃ f, d' = { d with sess := { d.sess with medial := d.sess.medial.modify k f } }

theorem Scoped.refl (d : DecSt) : Scoped d d := by
  unfold Scoped
  split
  · exact ⟨_, _, rfl⟩
  · exact ⟨id, by rw [List.modify_id]⟩

theorem Scoped.trans {d1 d2 d3 : DecSt} (h : Scoped d1 d2) (h' : Scoped d2 d3) : Scoped d1 d3 := by
  unfold Scoped at h
  split at h
  · rename_i hm
    obtain ⟨a, r, rfl⟩ := h
    simp only [Scoped, hm] at h' ⊢
    obtain ⟨a', r', rfl⟩ := h'
    exact ⟨_, _, rfl⟩
  rename_i k hm
  obtain ⟨f, rfl⟩ := h
  simp only [Scoped, hm] at h' ⊢
  obtain ⟨g, rfl⟩ := h'
  exact ⟨g ∘ f, by rw [List.modify_modify_eq]⟩

theorem Scoped.of_session {d : DecSt} (hm : d.m = none) {rattrl : List Attr} {rdir : Dir} :
    Scoped d { d with sess := { d.sess with rattrl, rdir } } := by
  simp only [Scoped, hm]
  exact ⟨_, _, rfl⟩

theorem Scoped.of_media {d : DecSt} {k : Nat} (hm : d.m = some k) {f : Media → Media} :
    Scoped d { d with sess := { d.sess with medial := d.sess.medial.modify k f } } := by
  simp only [Scoped, hm]
  exact ⟨f, rfl⟩

def DecSt.names (d : DecSt) : List Bytes := d.sess.medial.map (·.name)

def Checks (R : DecSt → DecSt → Prop) (p : Prop) (d : DecSt) (r : Result Fault DecSt Unit) : Prop :=
  (p ∧ ∃ d', r = .ok () d' ∧ R d d') ∨ (¬ p ∧ ∃ e, r = .error (.err e) d)

def Stays (d d' : DecSt) : Prop := d'.m = d.m ∧ d'.names = d.names

def InScope (d d' : DecSt) : Prop := Scoped d d' ∧ d'.names = d.names

section
variable {R : DecSt → DecSt → Prop} {p q : Prop} {d : DecSt} {r : Result Fault DecSt Unit}

theorem Checks.congr (h : Checks R p d r) (hpq : p ↔ q) : Checks R q d r :=
  propext hpq ▸ h

theorem Checks.mono {R' : DecSt → DecSt → Prop} (h : Checks R p d r) (hR : ∀ d', R d d' → R' d d') :
    Checks R' p d r :=
  h.imp_left fun ⟨hp, d', hr, hd⟩ => ⟨hp, d', hr, hR d' hd⟩

theorem checks_ok {d' : DecSt} (hp : p) (h : R d d') : Checks R p d (.ok () d') :=
  .inl ⟨hp, d', rfl, h⟩

theorem checks_fail (hp : ¬ p) (e : Errno) : Checks R p d (fail e d) := .inr ⟨hp, e, rfl⟩

end

theorem map_name_modify {medial : List Media} {k : Nat} {g : Media → Media}
    (hg : ∀ m, (g m).name = m.name) : (medial.modify k g).map (·.name) = medial.map (·.name) := by
  refine List.ext_getElem? fun i => ?_
  rw [List.getElem?_map, List.getElem?_map, List.getElem?_modify]
  cases medial[i]? with
  | none => rfl
  | some m => split <;> simp [hg]

section
variable {f : Session → Session} {g : Media → Media} {d : DecSt} {p : Prop}

theorem onScope_none (hm : d.m = none) : onScope f g d = .ok () { d with sess := f d.sess } := by
  obtain ⟨s, m⟩ := d
  subst hm
  rfl

theorem onScope_some {k : Nat} (hm : d.m = some k) :
    onScope f g d =
      .ok () { d with sess := { d.sess with medial := d.sess.medial.modify k g } } := by
  obtain ⟨s, m⟩ := d
  subst hm
  rfl

theorem stays_onScope (hf : ∀ s, (f s).medial = s.medial) (hg : ∀ m, (g m).name = m.name)
    (hp : p) : Checks Stays p d (onScope f g d) := by
  cases hm : d.m with
  | none =>
    rw [onScope_none hm]
    exact checks_ok hp ⟨rfl, congrArg (List.map _) (hf d.sess)⟩
  | some k =>
    rw [onScope_some hm]
    exact checks_ok hp ⟨rfl, map_name_modify hg⟩

theorem inScope_onScope (hf : ∀ s, ∃ rattrl rdir, f s = { s with rattrl, rdir })
    (hg : ∀ m, (g m).name = m.name) (hp : p) : Checks InScope p d (onScope f g d) := by
  cases hm : d.m with
  | none =>
    obtain ⟨a, r, h⟩ := hf d.sess
    rw [onScope_none hm, h]
    exact checks_ok hp ⟨.of_session hm, rfl⟩
  | some k =>
    rw [onScope_some hm]
    exact checks_ok hp ⟨.of_media hm, map_name_modify hg⟩

theorem inScope_whenMedia (hg : ∀ m, (g m).name = m.name) (hp : p) :
    Checks InScope p d (whenMedia g d) :=
  inScope_onScope (fun _ => ⟨_, _, rfl⟩) hg hp

theorem inScope_setDir {dir : Dir} (hp : p) : Checks InScope p d (setDir dir d) :=
  inScope_onScope (fun _ => ⟨_, _, rfl⟩) (fun _ => rfl) hp

/-- An attribute that is for media lines only -/
theorem inScope_unlessNone {x : DecM Unit} (hx : Checks InScope p d (x d)) :
    Checks InScope (d.m.isSome = true → p) d
      ((do if (← get).m.isNone then return () else x : DecM Unit) d) := by
  rw [get_bind]
  cases hm : d.m with
  | none => exact checks_ok nofun ⟨.refl d, rfl⟩
  | some k => exact hx.congr (by simp)

end

/-! ## Attributes -/

def nameFits (name val : Bytes) : Prop :=
  if name = ascii "fmtp" then (fmtpMatch val).isSome = true
  else if name = ascii "rtcp" then (rtcpMatch val).isSome = true
  else if name = ascii "rtpmap" then (rtpmapMatch val).isSome = true
  else True

def attrFits (pl : Bytes) : Prop := nameFits (attrSplit pl).1 ((attrSplit pl).2.getD [])

section
variable {net : Net} {d : DecSt}

theorem onFormat_name {m : Media} {id : Bytes} {f : Format → Format} :
    (m.onFormat id f).name = m.name := by
  unfold Media.onFormat
  split <;> rfl

theorem inScope_attrDecodeFmtp {pl : Bytes} :
    Checks InScope (d.m.isSome = true → (fmtpMatch pl).isSome = true) d (attrDecodeFmtp pl d) := by
  refine inScope_unlessNone ?_
  obtain - | ⟨id, params⟩ := fmtpMatch pl
  · exact checks_fail nofun _
  · exact inScope_whenMedia (fun _ => onFormat_name) rfl

theorem inScope_attrDecodeRtcp {pl : Bytes} :
    Checks InScope (d.m.isSome = true → (rtcpMatch pl).isSome = true) d
      (attrDecodeRtcp net pl d) := by
  refine inScope_unlessNone ?_
  obtain - | ⟨port, - | addr⟩ := rtcpMatch pl
  · exact checks_fail nofun _
  · exact inScope_whenMedia (fun _ => rfl) rfl
  · exact inScope_whenMedia (fun _ => rfl) rfl

theorem inScope_attrDecodeRtpmap {pl : Bytes} :
    Checks InScope (d.m.isSome = true → (rtpmapMatch pl).isSome = true) d
      (attrDecodeRtpmap pl d) := by
  refine inScope_unlessNone ?_
  obtain - | ⟨id, name, srate, ch⟩ := rtpmapMatch pl
  · exact checks_fail nofun _
  · exact inScope_whenMedia (fun _ => onFormat_name) rfl

theorem inScope_attrDecodeName {name : Bytes} {val : Option Bytes} :
    Checks InScope (d.m.isSome = true → nameFits name (val.getD [])) d
      (attrDecodeName net name val d) := by
  unfold attrDecodeName
  split_ifs with h1 h2 h3 h4 h5 h6 h7 <;> try subst name
  · exact inScope_attrDecodeFmtp
  · exact inScope_setDir fun _ => trivial
  · exact inScope_setDir fun _ => trivial
  · exact inScope_attrDecodeRtcp
  · exact inScope_attrDecodeRtpmap
  · exact inScope_setDir fun _ => trivial
  · exact inScope_setDir fun _ => trivial
  · exact inScope_onScope (fun _ => ⟨_, _, rfl⟩) (fun _ => rfl) (by simp [nameFits, h1, h4, h5])

def isCandidate (pl : Bytes) : Bool :=
  (attrSplit pl).1 == ascii "candidate" && (candidatePort ((attrSplit pl).2.getD [])).isSome

variable {pl : Bytes}

/-- **A candidate before the first media line** is read through `NULL` .. -/
theorem attrDecode_candidate (hm : d.m = none) (hc : isCandidate pl = true) :
    attrDecode net pl d = .error .nullDeref d := by
  simp only [isCandidate, Bool.and_eq_true, beq_iff_eq, Option.isSome_iff_exists] at hc
  obtain ⟨hname, port, hport⟩ := hc
  refine bind_of_error ?_
  rw [extractCandidate, if_pos hname, candidateDecode, hport]
  obtain ⟨s, m⟩ := d
  subst hm
  rfl

theorem extractCandidate_ok (h : d.m = none → isCandidate pl = false) :
    ∃ d', extractCandidate (attrSplit pl).1 (attrSplit pl).2 d = .ok () d' ∧ InScope d d' ∧
      ((attrSplit pl).1 ≠ ascii "candidate" → d' = d) := by
  unfold extractCandidate
  split
  · rename_i hname
    rw [candidateDecode]
    cases hport : candidatePort ((attrSplit pl).2.getD []) with
    | none => exact ⟨d, rfl, ⟨.refl d, rfl⟩, fun _ => rfl⟩
    | some port =>
      dsimp only
      rw [get_bind]
      cases hm : d.m with
      | none =>
        have := h hm
        simp [isCandidate, hname, hport] at this
      | some k =>
        refine ⟨_, rfl, ⟨.of_media hm, map_name_modify fun m => ?_⟩,
          fun hne => absurd hname hne⟩
        split <;> rfl
  · exact ⟨d, rfl, ⟨.refl d, rfl⟩, fun _ => rfl⟩

/-- .. and no other attribute is. -/
theorem inScope_attrDecode (net : Net) (h : d.m = none → isCandidate pl = false) :
    Checks InScope (d.m.isSome = true → attrFits pl) d (attrDecode net pl d) := by
  obtain ⟨d', hr, hd', hsame⟩ := extractCandidate_ok h
  rw [attrDecode, bind_of_ok hr]
  by_cases hname : (attrSplit pl).1 = ascii "candidate"
  swap
  · rw [hsame hname]
    exact inScope_attrDecodeName
  -- the attribute is added after its port has been looked at
  have hfits : nameFits (attrSplit pl).1 ((attrSplit pl).2.getD []) := hname ▸ trivial
  obtain ⟨-, d2, hr2, hd2⟩ | ⟨hno, -⟩ :=
    inScope_attrDecodeName
  · rw [hr2]
    exact checks_ok (fun _ => hfits) ⟨hd'.1.trans hd2.1, hd2.2.trans hd'.2⟩
  · exact absurd (fun _ => hfits) hno

end

theorem Scoped.m_eq {d d' : DecSt} (h : Scoped d d') : d'.m = d.m := by
  unfold Scoped at h
  split at h
  · obtain ⟨_, _, rfl⟩ := h
    rfl
  · obtain ⟨_, rfl⟩ := h
    rfl

/-! ## The other lines -/

def Fits (media : Bool) (l : Line) : Prop :=
  if l.1 = chr 'a' then media = true → attrFits l.2
  else if l.1 = chr 'b' then (bandwidthMatch l.2).isSome = true
  else if l.1 = chr 'c' then (connMatch l.2).isSome = true
  else if l.1 = chr 'v' then l.2 = ascii "0"
  else True

def nextFits (offer : Bool) (name : Bytes) : List Bytes → Prop
  | [] => offer = true
  | name' :: _ => name = name'

def mediaFits (offer : Bool) (names : List Bytes) (pl : Bytes) : Prop :=
  ∃ name ∈ (mediaMatch pl).map (·.1), nextFits offer name names

def DecSt.ahead (d : DecSt) : List Bytes := d.names.drop (d.m.elim 0 (· + 1))

def SessionLine (l : Line) : Prop :=
  l.1 ≠ chr 'm' ∧ (l.1 = chr 'a' → isCandidate l.2 = false) ∧
  (l.1 = chr 'b' → (bandwidthMatch l.2).isSome = true) ∧
  (l.1 = chr 'c' → (connMatch l.2).isSome = true) ∧
  (l.1 = chr 'v' → l.2 = ascii "0")

variable {net : Net} {offer : Bool} {d d' : DecSt} {pl : Bytes} {l : Line}

theorem lineDecode_other (net : Net) (offer : Bool) (hl : l.1 ≠ chr 'm')
    (hc : l.1 = chr 'a' → d.m = none → isCandidate l.2 = false) :
    Checks Stays (Fits d.m.isSome l) d (lineDecode net offer l.1 l.2 d) := by
  unfold lineDecode Fits
  split_ifs with ha hb hc' hv
  · exact (inScope_attrDecode net (hc ha)).mono fun d' hd' => ⟨hd'.1.m_eq, hd'.2⟩
  · unfold bandwidthDecode
    cases bandwidthMatch l.2 with
    | none => exact checks_fail nofun _
    | some bw => exact stays_onScope (fun _ => rfl) (fun _ => rfl) rfl
  · unfold connDecode
    cases connMatch l.2 with
    | none => exact checks_fail nofun _
    | some addr => exact stays_onScope (fun _ => rfl) (fun _ => rfl) rfl
  · unfold versionDecode
    split
    · exact checks_ok ‹_› ⟨rfl, rfl⟩
    · exact checks_fail ‹_› _
  · exact checks_ok trivial ⟨rfl, rfl⟩

theorem lineDecode_candidate (net : Net) (offer : Bool) (ha : l.1 = chr 'a') (hm : d.m = none)
    (hc : isCandidate l.2 = true) : lineDecode net offer l.1 l.2 d = .error .nullDeref d := by
  rw [ha]
  exact attrDecode_candidate hm hc

theorem nextMedia_checks (offer : Bool) (name port proto fmtv : Bytes) (d : DecSt) :
    match nextMedia offer name port proto fmtv d with
    | .error _ => ¬ nextFits offer name d.ahead
    | .ok d' => nextFits offer name d.ahead ∧ d'.m.isSome = true ∧ d'.ahead = d.ahead.tail := by
  unfold nextMedia DecSt.ahead DecSt.names
  dsimp only
  generalize d.m.elim 0 (· + 1) = k
  cases hk : d.sess.medial[k]? with
  | none =>
    have hlen : d.sess.medial.length ≤ k := List.getElem?_eq_none_iff.1 hk
    rw [List.drop_of_length_le (by simpa using hlen)]
    cases offer with
    | false => exact Bool.false_ne_true
    | true => exact ⟨rfl, rfl, by simp⟩
  | some m =>
    obtain ⟨hlt, rfl⟩ := List.getElem?_eq_some_iff.1 hk
    rw [← List.map_drop, List.drop_eq_getElem_cons hlt, List.map_cons]
    dsimp only
    by_cases hname : name = d.sess.medial[k].name
    · rw [if_neg (not_not.2 hname)]
      exact ⟨hname, rfl, by simp [← List.map_drop, List.drop_set_of_lt]⟩
    · rw [if_pos hname]
      exact hname

theorem lineDecode_media (net : Net) (offer : Bool) (hl : l.1 = chr 'm') :
    Checks (fun d d' => d'.m.isSome = true ∧ d'.ahead = d.ahead.tail) (mediaFits offer d.ahead l.2) d
      (lineDecode net offer l.1 l.2 d) := by
  rw [hl]
  change Checks _ _ d (mediaDecode offer l.2 d)
  unfold mediaDecode mediaFits
  obtain - | ⟨name, port, proto, fmtv⟩ := mediaMatch l.2
  · exact checks_fail nofun _
  have hnext := nextMedia_checks offer name port proto fmtv d
  dsimp only
  rw [get_bind]
  cases hr : nextMedia offer name port proto fmtv d with
  | error e =>
    rw [hr] at hnext
    exact checks_fail (by simpa using hnext) e
  | ok d' =>
    rw [hr] at hnext
    exact checks_ok ⟨name, rfl, hnext.1⟩ hnext.2

/-- A line that is refused changes nothing; and the only one read through `NULL` is a candidate. -/
theorem lineDecode_error (h : lineDecode net offer l.1 l.2 d = .error e d') :
    d' = d ∧ (e = .nullDeref → l.1 = chr 'a' ∧ d.m = none ∧ isCandidate l.2 = true) := by
  have hchecks {R : DecSt → DecSt → Prop} {p : Prop}
      (hr : Checks R p d (lineDecode net offer l.1 l.2 d)) : d' = d ∧ e ≠ .nullDeref := by
    rw [h] at hr
    obtain ⟨-, _, hok, -⟩ | ⟨-, e, herr⟩ := hr
    · cases hok
    · cases herr
      exact ⟨rfl, nofun⟩
  by_cases hl : l.1 = chr 'm'
  · exact (hchecks (lineDecode_media net offer hl)).imp_right fun hne he => absurd he hne
  by_cases hc : l.1 = chr 'a' ∧ d.m = none ∧ isCandidate l.2 = true
  · cases (lineDecode_candidate net offer hc.1 hc.2.1 hc.2.2).symm.trans h
    exact ⟨rfl, fun _ => hc⟩
  · have hother := lineDecode_other net offer hl fun ha hm =>
      Bool.eq_false_iff.2 fun hcand => hc ⟨ha, hm, hcand⟩
    exact (hchecks hother).imp_right fun hne he => absurd he hne

theorem fits_session (l : Line) : Fits false l ↔
    (l.1 = chr 'b' → (bandwidthMatch l.2).isSome = true) ∧
      (l.1 = chr 'c' → (connMatch l.2).isSome = true) ∧ (l.1 = chr 'v' → l.2 = ascii "0") := by
  unfold Fits
  split_ifs with ha hb hc hv
  · simp +decide [ha]
  · simp +decide [hb]
  · simp +decide [hc]
  · simp +decide [hv]
  · simp [hb, hc, hv]

theorem lineDecode_sessionLine (hm : d.m = none) (hl : l.1 ≠ chr 'm')
    (h : lineDecode net offer l.1 l.2 d = .ok () d') : SessionLine l ∧ d'.m = none := by
  have hc : l.1 = chr 'a' → isCandidate l.2 = false := fun ha => by
    by_contra hc
    cases (lineDecode_candidate net offer ha hm (by simpa using hc)).symm.trans h
  have hother := lineDecode_other net offer hl fun ha (_ : d.m = none) => hc ha
  rw [h, hm] at hother
  obtain ⟨hfits, d1, hok, hstays⟩ | ⟨-, e, herr⟩ := hother
  · cases hok
    exact ⟨⟨hl, hc, (fits_session l).1 hfits⟩, hstays.1.trans hm⟩
  · cases herr

theorem SessionLine.accepted (h : SessionLine l) (net : Net) (offer : Bool) (hm : d.m = none) :
    ∃ d', lineDecode net offer l.1 l.2 d = .ok () d' ∧ d'.m = none := by
  have hother := lineDecode_other net offer h.1 fun ha (_ : d.m = none) => h.2.1 ha
  obtain ⟨-, d', hok, hstays⟩ | ⟨hno, -⟩ := hother
  · exact ⟨d', hok, hstays.1.trans hm⟩
  · rw [hm] at hno
    exact absurd ((fits_session l).2 h.2.2) hno

theorem lineDecode_isSome (h : lineDecode net offer l.1 l.2 d = .ok () d')
    (hm : l.1 = chr 'm' ∨ d.m.isSome = true) : d'.m.isSome = true := by
  by_cases hl : l.1 = chr 'm'
  · obtain ⟨-, d1, hok, hd1⟩ | ⟨-, e, herr⟩ := lineDecode_media (d := d) net offer hl
    · cases hok.symm.trans h
      exact hd1.1
    · cases herr.symm.trans h
  have hsome := hm.resolve_left hl
  have hother := lineDecode_other net offer hl fun _ (hnone : d.m = none) => by simp [hnone] at hsome
  obtain ⟨-, d1, hok, hd1⟩ | ⟨-, e, herr⟩ := hother
  · cases hok.symm.trans h
    rw [hd1.1, hsome]
  · cases herr.symm.trans h

theorem runLines_error {ls : List Line} (h : runLines net offer ls d = .error e d') :
    ∃ pre l post, ls = pre ++ l :: post ∧ runLines net offer pre d = .ok () d' ∧
      lineDecode net offer l.1 l.2 d' = .error e d' := by
  induction ls generalizing d with
  | nil => cases h
  | cons l ls ih =>
    rw [runLines_cons] at h
    rcases bind_eq_error.1 h with hl | ⟨a, d1, hl, hls⟩
    · obtain ⟨rfl, -⟩ := lineDecode_error hl
      exact ⟨[], l, ls, rfl, rfl, hl⟩
    · obtain ⟨pre, l', post, rfl, hpre, hl'⟩ := ih hls
      exact ⟨l :: pre, l', post, rfl, (bind_of_ok hl).trans hpre, hl'⟩

/-! ## Texts that are refused -/

def Unrefused (offer whole : Bool) : Bool → List Bytes → List Line → Prop
  | _, _, [] => whole = true
  | media, names, l :: ls =>
    if l.1 = chr 'm' then mediaFits offer names l.2 ∧ Unrefused offer whole true names.tail ls
    else Fits media l ∧ (l.1 = chr 'a' ∧ media = false ∧ isCandidate l.2 = true ∨
      Unrefused offer whole media names ls)

theorem unrefused_iff (net : Net) (offer w : Bool) (ls : List Line) (d : DecSt) :
    Unrefused offer w d.m.isSome d.ahead ls ↔
      ∀ e d', endedLines w (runLines net offer ls d) ≠ .error (.err e) d' := by
  induction ls generalizing d with
  | nil => cases w <;> simp [Unrefused, runLines, endedLines]
  | cons l ls ih =>
    have hrefused {R : DecSt → DecSt → Prop} {p q : Prop}
        (hr : Checks R p d (lineDecode net offer l.1 l.2 d))
        (hq : ∀ d', R d d' → p → (q ↔ Unrefused offer w d'.m.isSome d'.ahead ls)) :
        p ∧ q ↔ ∀ e d', endedLines w (runLines net offer (l :: ls) d) ≠ .error (.err e) d' := by
      rw [runLines_cons]
      obtain ⟨hp, d1, hok, hR⟩ | ⟨hp, e, herr⟩ := hr
      · rw [bind_of_ok hok, ← ih d1, ← hq d1 hR hp]
        exact and_iff_right hp
      · rw [bind_of_error herr]
        exact iff_of_false (fun h => hp h.1) fun h => h e d rfl
    unfold Unrefused
    split
    · next hl =>
      refine hrefused (lineDecode_media net offer hl) fun d' hd' _ => ?_
      rw [hd'.1, hd'.2]
    · next hl =>
      by_cases hc : l.1 = chr 'a' ∧ d.m = none ∧ isCandidate l.2 = true
      · have hfits : Fits d.m.isSome l := by
          rw [hc.2.1, Fits, if_pos hc.1]
          exact nofun
        refine iff_of_true ⟨hfits, .inl ⟨hc.1, by simp [hc.2.1], hc.2.2⟩⟩ ?_
        rw [runLines_cons, bind_of_error (lineDecode_candidate net offer hc.1 hc.2.1 hc.2.2)]
        exact nofun
      · refine hrefused (lineDecode_other net offer hl fun ha hm => ?_) fun d' hd' _ => ?_
        · exact Bool.eq_false_iff.2 fun hcand => hc ⟨ha, hm, hcand⟩
        · have hahead : d'.ahead = d.ahead := by
            rw [DecSt.ahead, DecSt.ahead, hd'.1, hd'.2]
          rw [hd'.1, hahead, or_iff_right (by simpa using hc)]

end BareRTC.Sdp
