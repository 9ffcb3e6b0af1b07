import BareRTC.Sdp.Decode
import BareRTC.Sdp.Encode

/-!
# Peer connections (`barertc/src/peerconn.c`)

The offer/answer state of a connection and its SDP session. What follows a description that was
accepted, the update of the media tracks and of their streams, does not come back to this state and
is left out.
-/

namespace BareRTC.Peer

inductive SignalingSt
  | SS_STABLE | SS_HAVE_LOCAL_OFFER | SS_HAVE_REMOTE_OFFER
  deriving DecidableEq, Repr

inductive SdpType
  | SDP_OFFER | SDP_ANSWER
  deriving DecidableEq, Repr

structure SessionDescription where
  type : SdpType
  sdp : Bytes
  deriving DecidableEq, Repr

structure PeerConnection where
  sdp : Sdp.Session
  signalingState : SignalingSt
  gatherOk : Bool
  sdpEncOk : Bool
  sdpDecOk : Bool

/-- How a call can end other than with `0`: an error code, those of `sdp_encode` as a number, or a
read through `NULL`. -/
inductive Fault
  | err (e : Errno)
  | code (c : UInt32)
  | nullDeref
  deriving DecidableEq, Repr

def Fault.ofDecode : Sdp.Fault → Fault
  | .err e => .err e
  | .nullDeref => .nullDeref

abbrev PcM := EStateM Fault PeerConnection

def peerconnectionNew (sdp : Sdp.Session) : PeerConnection := ⟨sdp, .SS_STABLE, false, false, false⟩

/-- `sdp_decode(pc->sdp, sd->sdp, offer)` -/
def decodeSdp (net : Sdp.Net) (offer : Bool) (text : Bytes) : PcM Unit := fun pc =>
  match Sdp.sdpDecode net offer text pc.sdp with
  | .ok _ sdp => .ok () { pc with sdp }
  | .error e sdp => .error (.ofDecode e) { pc with sdp }

/-- `sdp_encode(mb, pc->sdp, offer)` -/
def encodeSdp (net : Sdp.Net) (offer : Bool) : PcM Bytes := fun pc =>
  match Sdp.sdpEncode net offer pc.sdp with
  | .ok mb sdp => .ok mb { pc with sdp }
  | .error c sdp => .error (.code c) { pc with sdp }

def setRemoteDescr (net : Sdp.Net) (sd : SessionDescription) : PcM Unit := do
  if (← get).signalingState = .SS_HAVE_REMOTE_OFFER then throw (.err .EPROTO)
  let offer := sd.type = .SDP_OFFER
  modify fun pc => { pc with
    signalingState := if offer then .SS_HAVE_REMOTE_OFFER else .SS_STABLE }
  decodeSdp net offer sd.sdp
  modify fun pc => { pc with sdpDecOk := true }

/-- A description of our own, in state `old`; the state is then `new`. -/
def createDescr (net : Sdp.Net) (offer : Bool) (old new : SignalingSt) : PcM Bytes := do
  if (← get).signalingState ≠ old then throw (.err .EPROTO)
  let mb ← encodeSdp net offer
  modify fun pc => { pc with signalingState := new, sdpEncOk := true }
  return mb

def createOffer (net : Sdp.Net) : PcM Bytes := createDescr net true .SS_STABLE .SS_HAVE_LOCAL_OFFER

def createAnswer (net : Sdp.Net) : PcM Bytes := createDescr net false .SS_HAVE_REMOTE_OFFER .SS_STABLE

inductive Call
  | setRemoteDescr (sd : SessionDescription)
  | createOffer
  | createAnswer
  deriving DecidableEq, Repr

def Call.run (net : Sdp.Net) : Call → PcM Unit
  | .setRemoteDescr sd => Peer.setRemoteDescr net sd
  | .createOffer => do let _ ← Peer.createOffer net
  | .createAnswer => do let _ ← Peer.createAnswer net

end BareRTC.Peer
