import BareRTC.Lib.Run
import BareRTC.Peer.Connection
import BareRTC.Sdp.Proof.Decode

/-!
# The offer/answer exchange

`peerconnection_set_remote_descr` moves the signalling state before it decodes the description, so a
description that is refused has moved it all the same (`keepsOnError_iff`). And the only state in
which it refuses a description is that of an unanswered remote offer: offers and answers alternate
in exactly the runs in which no remote offer comes while a local one is outstanding, and no remote
answer while none is (`alternates_iff`).
-/

namespace BareRTC.Peer

open EStateM (Result)

def SdpType.target : SdpType → SignalingSt
  | .SDP_OFFER => .SS_HAVE_REMOTE_OFFER
  | .SDP_ANSWER => .SS_STABLE

def SessionDescription.isOffer (sd : SessionDescription) : Bool := sd.type = .SDP_OFFER

variable {pc' : PeerConnection} {offer : Bool}

section
variable {net : Sdp.Net} {pc : PeerConnection} {sd : SessionDescription}

/-! ## What the calls do -/

theorem setRemoteDescr_refused (h : pc.signalingState = .SS_HAVE_REMOTE_OFFER) :
    setRemoteDescr net sd pc = .error (.err .EPROTO) pc := by
  rw [setRemoteDescr, get_bind, if_pos h]
  rfl

theorem setRemoteDescr_eq (h : pc.signalingState ≠ .SS_HAVE_REMOTE_OFFER) :
    setRemoteDescr net sd pc =
      match Sdp.sdpDecode net sd.isOffer sd.sdp pc.sdp with
      | .ok _ sdp => .ok () { pc with sdp, signalingState := sd.type.target, sdpDecOk := true }
      | .error e sdp => .error (.ofDecode e) { pc with sdp, signalingState := sd.type.target } := by
  have htarget : (if sd.type = .SDP_OFFER then SignalingSt.SS_HAVE_REMOTE_OFFER else .SS_STABLE) = sd.type.target := by
    cases sd.type <;> rfl
  rw [setRemoteDescr, get_bind, if_neg h]
  dsimp only
  rw [bind_of_ok (modify_apply), htarget]
  unfold SessionDescription.isOffer
  cases hd : Sdp.sdpDecode net (sd.type = .SDP_OFFER) sd.sdp pc.sdp <;> simp only [bind, EStateM.bind, decodeSdp, hd]
  rfl

theorem createDescr_refused {old new : SignalingSt} (h : pc.signalingState ≠ old) :
    createDescr net offer old new pc = .error (.err .EPROTO) pc := by
  rw [createDescr, get_bind, if_pos h]
  rfl

theorem createDescr_eq {old new : SignalingSt} (h : pc.signalingState = old) :
    createDescr net offer old new pc = match Sdp.sdpEncode net offer pc.sdp with
      | .ok mb sdp => .ok mb { pc with sdp, signalingState := new, sdpEncOk := true }
      | .error c sdp => .error (.code c) { pc with sdp } := by
  rw [createDescr, get_bind, if_neg (not_not.2 h)]
  cases hd : Sdp.sdpEncode net offer pc.sdp <;> simp only [bind, EStateM.bind, encodeSdp, hd]
  rfl

/-! ## A call that returns an error -/

def PeerConnection.steps (pc : PeerConnection) : SignalingSt × Bool × Bool :=
  (pc.signalingState, pc.sdpEncOk, pc.sdpDecOk)

def KeepsOnError (net : Sdp.Net) (pc : PeerConnection) (c : Call) : Prop :=
  ∀ e pc', c.run net pc = .error e pc' → e ≠ .nullDeref → pc'.steps = pc.steps

def Refuses (pc : PeerConnection) (sd : SessionDescription) : Prop := ¬ pc.sdp.takes sd.isOffer sd.sdp

theorem refuses_iff : Refuses pc sd ↔
    ∃ e sdp, Sdp.sdpDecode net sd.isOffer sd.sdp pc.sdp = .error (.err e) sdp := by
  simp [Refuses, Sdp.takes_iff net]

theorem createDescr_error {old new : SignalingSt} {e : Fault}
    (h : createDescr net offer old new pc = .error e pc') : pc'.steps = pc.steps := by
  by_cases hs : pc.signalingState = old
  · rw [createDescr_eq hs] at h
    split at h
    · cases h
    · cases h
      rfl
  · rw [createDescr_refused hs] at h
    cases h
    rfl

end

/-- **An error leaves the signalling state as it was**, except that of a description which is
refused and is not an answer in the stable state. -/
theorem keepsOnError_iff (net : Sdp.Net) (pc : PeerConnection) (c : Call) :
    KeepsOnError net pc c ↔
      ∀ sd, c = .setRemoteDescr sd → pc.signalingState ≠ .SS_HAVE_REMOTE_OFFER → Refuses pc sd →
        sd.type = .SDP_ANSWER ∧ pc.signalingState = .SS_STABLE := by
  constructor
  · intro h sd hc hs hr
    subst hc
    obtain ⟨e, sdp, he⟩ := (refuses_iff).1 hr
    have hrun : (Call.setRemoteDescr sd).run net pc =
        .error (.err e) { pc with sdp, signalingState := sd.type.target } := by
      refine (setRemoteDescr_eq hs).trans ?_
      rw [he]
      rfl
    have hkeep : sd.type.target = pc.signalingState := congrArg Prod.fst (h _ _ hrun Fault.noConfusion)
    cases ht : sd.type with
    | SDP_OFFER =>
      rw [ht] at hkeep
      exact absurd hkeep.symm hs
    | SDP_ANSWER =>
      rw [ht] at hkeep
      exact ⟨rfl, hkeep.symm⟩
  intro h e pc' hrun hne
  cases c with
  | setRemoteDescr sd =>
    have hrun' : setRemoteDescr net sd pc = .error e pc' := hrun
    by_cases hs : pc.signalingState = .SS_HAVE_REMOTE_OFFER
    · rw [setRemoteDescr_refused hs] at hrun'
      cases hrun'
      rfl
    rw [setRemoteDescr_eq hs] at hrun'
    cases hd : Sdp.sdpDecode net sd.isOffer sd.sdp pc.sdp with
    | ok a sdp => rw [hd] at hrun'; cases hrun'
    | error e' sdp =>
      rw [hd] at hrun'
      cases hrun'
      cases e' with
      | nullDeref => exact absurd rfl hne
      | err e' =>
        obtain ⟨ht, hst⟩ := h sd rfl hs ((refuses_iff).2 ⟨e', sdp, hd⟩)
        simp only [PeerConnection.steps, ht, hst, SdpType.target]
  | createOffer | createAnswer =>
    rcases bind_eq_error.1 hrun with hr | ⟨_, _, _, hr⟩
    · exact createDescr_error hr
    · cases hr

theorem refused_offer_moves :
    let pc := peerconnectionNew Sdp.audioSession
    let r := (Call.setRemoteDescr ⟨.SDP_OFFER, ascii "v=1\r\n"⟩).run Sdp.noNet pc
    Result.err r = some (.err .ENOSYS) ∧
    (Result.state r).signalingState = .SS_HAVE_REMOTE_OFFER ∧
    Result.err ((Call.setRemoteDescr ⟨.SDP_OFFER, ascii "v=0\r\nm=audio 9 RTP/AVP 0\r\n"⟩).run Sdp.noNet
      (Result.state r)) = some (.err .EPROTO) ∧
    Result.err ((Call.setRemoteDescr ⟨.SDP_OFFER, ascii "v=0\r\nm=audio 9 RTP/AVP 0\r\n"⟩).run Sdp.noNet
      pc) = none := by
  decide +kernel

/-! ## The exchange -/

inductive Side
  | ours | theirs
  deriving DecidableEq, Repr

def Side.other : Side → Side
  | .ours => .theirs
  | .theirs => .ours

structure Descr where
  side : Side
  type : SdpType
  deriving DecidableEq, Repr

def Call.descr : Call → Descr
  | .setRemoteDescr sd => ⟨.theirs, sd.type⟩
  | .createOffer => ⟨.ours, .SDP_OFFER⟩
  | .createAnswer => ⟨.ours, .SDP_ANSWER⟩

structure Exchange where
  pc : PeerConnection
  descrs : List Descr
  failed : Bool

def Exchange.new (sdp : Sdp.Session) : Exchange := ⟨peerconnectionNew sdp, [], false⟩

def Exchange.step (net : Sdp.Net) (w : Exchange) (c : Call) : Exchange × List Descr :=
  if w.failed then (w, [])
  else match c.run net w.pc with
    | .ok _ pc => (⟨pc, w.descrs ++ [c.descr], false⟩, [c.descr])
    | .error _ pc => (⟨pc, w.descrs, true⟩, [])

def outstanding (descrs : List Descr) : Option Side :=
  match descrs.getLast? with
  | some ⟨side, .SDP_OFFER⟩ => some side
  | _ => none

def Descr.Follows (d : Descr) (o : Option Side) : Prop :=
  match d.type with
  | .SDP_OFFER => o = none
  | .SDP_ANSWER => o = some d.side.other

instance (d : Descr) (o : Option Side) : Decidable (d.Follows o) := by
  unfold Descr.Follows
  cases d.type <;> infer_instance

def Alternates (net : Sdp.Net) (w : Exchange) (c : Call) : Prop :=
  ∀ d ∈ (w.step net c).2, d.Follows (outstanding w.descrs)

def InTurn (net : Sdp.Net) (w : Exchange) : Call → Prop
  | .setRemoteDescr sd => w.failed = false → Sdp.Accepted net sd.isOffer sd.sdp w.pc.sdp →
      ¬ (sd.type = .SDP_ANSWER ∧ w.pc.signalingState = .SS_STABLE) ∧
      ¬ (sd.type = .SDP_OFFER ∧ w.pc.signalingState = .SS_HAVE_LOCAL_OFFER)
  | _ => True

def signaling : Option Side → SignalingSt
  | none => .SS_STABLE
  | some .ours => .SS_HAVE_LOCAL_OFFER
  | some .theirs => .SS_HAVE_REMOTE_OFFER

def Exchange.Inv (w : Exchange) : Prop := w.failed = false → w.pc.signalingState = signaling (outstanding w.descrs)

section
variable {net : Sdp.Net} {w : Exchange} {c : Call} {pc : PeerConnection} {o : Option Side}

theorem step_of_failed (h : w.failed) : w.step net c = (w, []) := by
  rw [Exchange.step, if_pos h]

theorem step_of_ok (h : w.failed = false) (hr : c.run net w.pc = .ok () pc') :
    w.step net c = (⟨pc', w.descrs ++ [c.descr], false⟩, [c.descr]) := by
  rw [Exchange.step, h, hr]
  rfl

theorem step_of_error {e : Fault} (h : w.failed = false)
    (hr : c.run net w.pc = .error e pc') : w.step net c = (⟨pc', w.descrs, true⟩, []) := by
  rw [Exchange.step, h, hr]
  rfl

theorem createDescr_ok {old new : SignalingSt} {mb : Bytes} (h : createDescr net offer old new pc = .ok mb pc') :
    pc.signalingState = old ∧ pc'.signalingState = new := by
  by_cases hs : pc.signalingState = old
  · rw [createDescr_eq hs] at h
    split at h
    · cases h
      exact ⟨hs, rfl⟩
    · cases h
  · rw [createDescr_refused hs] at h
    cases h

theorem setRemoteDescr_ok {sd : SessionDescription} (h : setRemoteDescr net sd pc = .ok () pc') :
    pc.signalingState ≠ .SS_HAVE_REMOTE_OFFER ∧ pc'.signalingState = sd.type.target ∧
      Sdp.Accepted net sd.isOffer sd.sdp pc.sdp := by
  by_cases hs : pc.signalingState = .SS_HAVE_REMOTE_OFFER
  · rw [setRemoteDescr_refused hs] at h
    cases h
  rw [setRemoteDescr_eq hs] at h
  split at h
  · rename_i sdp hd
    cases h
    exact ⟨hs, rfl, Sdp.accepted_iff.2 ⟨sdp, hd⟩⟩
  · cases h

/-- What a call that succeeds says of the state before it, and the state after it. -/
theorem run_ok (h : c.run net pc = .ok () pc') :
    pc'.signalingState = signaling (outstanding [c.descr]) ∧
      match c with
      | .setRemoteDescr sd => pc.signalingState ≠ .SS_HAVE_REMOTE_OFFER ∧ Sdp.Accepted net sd.isOffer sd.sdp pc.sdp
      | .createOffer => pc.signalingState = .SS_STABLE
      | .createAnswer => pc.signalingState = .SS_HAVE_REMOTE_OFFER := by
  cases c with
  | setRemoteDescr sd =>
    obtain ⟨hs, ht, ha⟩ := setRemoteDescr_ok h
    refine ⟨?_, hs, ha⟩
    obtain ⟨type, text⟩ := sd
    rw [ht]
    cases type <;> rfl
  | createOffer | createAnswer =>
    obtain ⟨_, _, hr, hp⟩ := bind_eq_ok.1 h
    obtain ⟨hold, hnew⟩ := createDescr_ok hr
    cases hp
    exact ⟨hnew, hold⟩

theorem outstanding_concat (ds : List Descr) (d : Descr) : outstanding (ds ++ [d]) = outstanding [d] := by
  simp [outstanding]

theorem step_inv (h : w.Inv) : (w.step net c).1.Inv := by
  intro hf'
  by_cases hf : w.failed
  · rw [step_of_failed hf] at hf' ⊢
    exact h hf'
  rw [Bool.not_eq_true] at hf
  cases hr : c.run net w.pc with
  | ok a pc' =>
    rw [step_of_ok hf hr]
    dsimp only
    rw [outstanding_concat]
    exact (run_ok hr).1
  | error e pc' =>
    rw [step_of_error hf hr] at hf'
    cases hf'

theorem signaling_eq :
    (signaling o = .SS_STABLE ↔ o = none) ∧ (signaling o = .SS_HAVE_LOCAL_OFFER ↔ o = some .ours) ∧
      (signaling o = .SS_HAVE_REMOTE_OFFER ↔ o = some .theirs) := by
  cases o with
  | none => decide
  | some s => cases s <;> decide

theorem theirs_follows {t : SdpType} (h : signaling o ≠ .SS_HAVE_REMOTE_OFFER) :
    Descr.Follows ⟨.theirs, t⟩ o ↔
      ¬ (t = .SDP_ANSWER ∧ signaling o = .SS_STABLE) ∧
      ¬ (t = .SDP_OFFER ∧ signaling o = .SS_HAVE_LOCAL_OFFER) := by
  cases o with
  | none => cases t <;> decide
  | some s =>
    cases s with
    | ours => cases t <;> decide
    | theirs => exact absurd rfl h

theorem alternates_iff_inTurn (h : w.Inv) : Alternates net w c ↔ InTurn net w c := by
  unfold Alternates
  by_cases hf : w.failed
  · rw [step_of_failed hf]
    refine ⟨fun _ => ?_, nofun⟩
    cases c with
    | setRemoteDescr sd =>
      intro hf'
      rw [hf] at hf'
      cases hf'
    | _ => trivial
  rw [Bool.not_eq_true] at hf
  cases hr : c.run net w.pc with
  | error e pc' =>
    rw [step_of_error hf hr]
    refine ⟨fun _ => ?_, nofun⟩
    cases c with
    | setRemoteDescr sd =>
      intro _ hacc
      -- it is refused for the state it comes in, which is none of the two
      have hs : w.pc.signalingState = .SS_HAVE_REMOTE_OFFER := by
        by_contra hs
        obtain ⟨sdp, hd⟩ := Sdp.accepted_iff.1 hacc
        have hr' : setRemoteDescr net sd w.pc = .error e pc' := hr
        rw [setRemoteDescr_eq hs, hd] at hr'
        cases hr'
      rw [hs]
      exact ⟨fun h => SignalingSt.noConfusion h.2, fun h => SignalingSt.noConfusion h.2⟩
    | _ => trivial
  | ok a pc' =>
    rw [step_of_ok hf hr]
    simp only [List.mem_singleton, forall_eq]
    have hstate := h hf
    obtain ⟨-, hbefore⟩ := run_ok hr
    cases c with
    | setRemoteDescr sd =>
      obtain ⟨hs, hacc⟩ := hbefore
      rw [hstate] at hs
      have hturn := theirs_follows (t := sd.type) hs
      rw [← hstate] at hturn
      exact hturn.trans ⟨fun h _ _ => h, fun h => h hf hacc⟩
    | createOffer =>
      rw [hstate] at hbefore
      exact ⟨fun _ => trivial, fun _ => signaling_eq.1.1 hbefore⟩
    | createAnswer =>
      rw [hstate] at hbefore
      exact ⟨fun _ => trivial, fun _ => signaling_eq.2.2.1 hbefore⟩

end

/-- **Offers and answers alternate** in exactly the runs of calls in which every remote description
is in turn. -/
theorem alternates_iff (net : Sdp.Net) (sdp : Sdp.Session) (cs : List Call) :
    Along (Exchange.step net) (Alternates net) (.new sdp) cs ↔ Along (Exchange.step net) (InTurn net) (.new sdp) cs :=
  along_iff_of_ok (fun _ _ h _ => step_inv h) (fun _ _ h => alternates_iff_inTurn h) cs (Exchange.new sdp) fun _ => rfl

/-- A remote answer without an offer, and a remote offer on top of a local one. -/
theorem answer_without_offer :
    (outs (Exchange.step Sdp.noNet) (.new Sdp.audioSession)
      [.setRemoteDescr ⟨.SDP_ANSWER, ascii "v=0\r\n"⟩]).flatten = [⟨.theirs, .SDP_ANSWER⟩] ∧
    (outs (Exchange.step Sdp.noNet) (.new Sdp.audioSession)
      [.createOffer, .setRemoteDescr ⟨.SDP_OFFER, ascii "v=0\r\nm=audio 9 RTP/AVP 0\r\n"⟩]).flatten =
      [⟨.ours, .SDP_OFFER⟩, ⟨.theirs, .SDP_OFFER⟩] := by
  decide +kernel

end BareRTC.Peer
