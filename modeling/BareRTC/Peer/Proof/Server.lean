import BareRTC.Peer.Proof.Signaling
import BareRTC.Peer.Server

/-!
# Which connection gets a description

`step_descr` says which descriptions an event sends, and where: those of the session whose gathering
completes with it, on the pending connection. That is the connection of the last `POST /sdp` that
was accepted, of whatever session (`Posting.Inv`), so descriptions reach a connection of their own
session in the runs in which that connection has posted for the session as well, `repliesOwn_iff`.
-/

namespace BareRTC.Peer

open List

open EStateM (Result)

/-! ## What the handlers leave alone -/

structure Emitted (w w' : Server) (rs : List Reply) : Prop where
  connPending : w'.connPending = w.connPending
  closed : w'.closed = w.closed
  crashed : w'.crashed = w.crashed
  replies : w'.replies = w.replies ++ rs

def Emits {α : Type} (x : SrvM α) (w : Server) (rs : List Reply) : Prop := Emitted w (Result.state (x w)) rs

variable {pc : PeerConnection}

section
variable {α β : Type} {net : Sdp.Net} {w w' w'' : Server} {rs rs' : List Reply} {ptr : Nat}

theorem Emitted.refl : Emitted w w [] := ⟨rfl, rfl, rfl, (append_nil _).symm⟩

theorem Emitted.trans (h : Emitted w w' rs) (h' : Emitted w' w'' rs') : Emitted w w'' (rs ++ rs') where
  connPending := h'.connPending.trans h.connPending
  closed := h'.closed.trans h.closed
  crashed := h'.crashed.trans h.crashed
  replies := by rw [h'.replies, h.replies, append_assoc]

theorem emitted_setPc {pc : Option PeerConnection} : Emitted w (w.setPc ptr pc) [] :=
  ⟨rfl, rfl, rfl, (append_nil _).symm⟩

theorem emitted_reply {r : Reply} : Emitted w (w.reply r) [r] := ⟨rfl, rfl, rfl, rfl⟩

theorem emits_onPc {x : PcM α} : Emits (onPc ptr x) w [] := by
  unfold Emits onPc
  cases w.pc ptr with
  | none => exact .refl
  | some pc =>
    dsimp only
    cases x pc <;> exact emitted_setPc

theorem emits_orFail {e : Option Errno} : Emits (orFail e) w [] := by
  cases e <;> exact .refl

theorem Emits.bind {x : SrvM α} {f : α → SrvM β} (h : Emits x w rs)
    (hf : ∀ a w', x w = .ok a w' → Emits (f a) w' []) : Emits (x >>= f) w rs := by
  unfold Emits at *
  cases hx : x w with
  | ok a w' =>
    rw [bind_of_ok hx]
    rw [hx] at h
    have htrans := h.trans (hf a w' hx)
    rwa [append_nil] at htrans
  | error e w' =>
    rw [bind_of_error hx]
    rw [hx] at h
    exact h

/-! ## The sessions -/

theorem find_setPc (pc : Option PeerConnection) :
    (w.setPc ptr pc).find ptr = (w.find ptr).map fun s => { s with pc } := by
  unfold Server.find Server.setPc
  dsimp only
  induction w.sessl with
  | nil => rfl
  | cons s l ih =>
    rw [map_cons]
    by_cases h : (s.ptr == ptr)
    · simp [h]
    · simpa [h] using ih

theorem pc_setPc (h : (w.find ptr).isSome) {pc : Option PeerConnection} : (w.setPc ptr pc).pc ptr = pc := by
  obtain ⟨s, hs⟩ := Option.isSome_iff_exists.1 h
  rw [Server.pc, find_setPc, hs]
  rfl

theorem find_of_pc (h : w.pc ptr = some pc) : (w.find ptr).isSome := by
  rw [Server.pc, Option.bind_eq_some_iff] at h
  obtain ⟨s, hs, -⟩ := h
  rw [hs]
  rfl

theorem sessionLookup_find {val : Bytes} {sess : Session} (h : sessionLookup w val = some sess) :
    (w.find sess.ptr).isSome := by
  rw [Server.find, find?_isSome]
  exact ⟨sess, mem_of_find?_eq_some h, beq_self_eq_true _⟩

theorem onPc_ok {x : PcM α} {a : α} (h : onPc ptr x w = .ok a w') : ∃ pc, w'.pc ptr = some pc := by
  unfold onPc at h
  split at h
  · cases h
  · next pc hp =>
    split at h <;> cases h
    exact ⟨_, pc_setPc (find_of_pc hp)⟩

end

/-! ## The description of a session -/

def gatherReplies (net : Sdp.Net) (conn : Option Conn) (sess : Session) (pc : PeerConnection) : List Reply :=
  match createType net (gatherType pc.signalingState) pc with
  | .ok mb _ => [.descr conn sess.id (gatherType pc.signalingState) mb]
  | .error _ _ => []

def gathersIn (w : Server) (sess : Session) (env : MediaEnv) : Body → Option PeerConnection
  | .descr sd =>
    if sd.type = .SDP_OFFER ∧ (w.pc sess.ptr).isNone ∧ env.newErr = none then
      env.gathered.map (peerconnectionNew env.sdp).gathered
    else none
  | _ => none

def Event.gathers (w : Server) : Event → Option (Session × PeerConnection)
  | .request _ (.sdp (some val) body env) =>
    (sessionLookup w val).bind fun sess => (gathersIn w sess env body).map (sess, ·)
  | .gathered ptr ice => (w.find ptr).bind fun sess => (w.pc sess.ptr).map (sess, ·.gathered ice)
  | _ => none

def repliesOf (net : Sdp.Net) (conn : Option Conn) : Option (Session × PeerConnection) → List Reply
  | some (sess, pc) => gatherReplies net conn sess pc
  | none => []

section
variable {net : Sdp.Net} {w w' : Server} {sess : Session} {env : MediaEnv}

theorem emitted_gather (h : w.pc sess.ptr = some pc) :
    Emitted w (peerconnectionGatherHandler net sess w) (gatherReplies net w.pending sess pc) := by
  unfold peerconnectionGatherHandler gatherReplies onPc
  rw [h]
  dsimp only [peerconnectionSignaling]
  cases createType net (gatherType pc.signalingState) pc with
  | ok mb pc' => exact (emitted_setPc).trans (emitted_reply)
  | error e pc' => exact emitted_setPc

theorem emitted_mnatEstab (net : Sdp.Net) (w : Server) (sess : Session) (ice : Ice) :
    Emitted w (mnatEstabHandler net sess ice w)
      (repliesOf net w.pending ((w.pc sess.ptr).map (sess, ·.gathered ice))) := by
  unfold mnatEstabHandler
  cases hp : w.pc sess.ptr with
  | none => exact .refl
  | some pc =>
    exact (emitted_setPc).trans (emitted_gather (pc_setPc (find_of_pc hp)))

theorem emits_createPc (h : (w.find sess.ptr).isSome) (hn : env.newErr = none) :
    Emits (createPc net env sess) w (repliesOf net w.pending
      ((env.gathered.map (peerconnectionNew env.sdp).gathered).map (sess, ·))) := by
  have hok : orFail env.newErr w = .ok () w := by rw [hn]; rfl
  unfold Emits createPc
  rw [bind_of_ok hok, bind_of_ok (modify_apply)]
  refine Emitted.trans (emitted_setPc) (Emits.bind ?_ fun _ _ _ => emits_orFail)
  unfold Emits
  rw [modify_apply]
  cases env.gathered with
  | none => exact .refl
  | some ice =>
    have hg := emitted_mnatEstab net (w.setPc sess.ptr (some (peerconnectionNew env.sdp))) sess ice
    rw [pc_setPc h] at hg
    exact hg

theorem emits_createPc_error {e : Errno} (hn : env.newErr = some e) : Emits (createPc net env sess) w [] := by
  have he : orFail env.newErr w = .error (.err e) w := by rw [hn]; rfl
  unfold Emits createPc
  rw [bind_of_error he]
  exact .refl

theorem emits_ensurePc_some (h : w.pc sess.ptr = some pc) : Emits (ensurePc net env sess) w [] := by
  unfold Emits ensurePc
  rw [h]
  exact .refl

theorem emits_handlePostSdp (net : Sdp.Net) (env : MediaEnv) (h : (w.find sess.ptr).isSome) (body : Body) :
    Emits (handlePostSdp net env sess body) w
      (repliesOf net w.pending ((gathersIn w sess env body).map (sess, ·))) := by
  cases body with
  | none | unknownType | refused => exact .refl
  | descr sd =>
    obtain ⟨type, text⟩ := sd
    cases type with
    | SDP_ANSWER =>
      -- there is a peer connection once an answer was accepted
      simp only [gathersIn, reduceCtorEq, false_and, if_false, Option.map_none]
      refine Emits.bind (emits_onPc) fun _ w1 h1 => ?_
      refine Emits.bind (emits_orFail) fun _ w2 h2 => ?_
      obtain ⟨pc, hpc⟩ := onPc_ok h1
      cases hi : env.iceErr <;> rw [hi] at h2 <;> cases h2
      exact emits_ensurePc_some hpc
    | SDP_OFFER =>
      refine Emits.bind ?_ fun _ _ _ => emits_onPc
      cases hp : w.pc sess.ptr with
      | some pc =>
        simp only [gathersIn, hp, Option.isNone_some, Bool.false_eq_true, false_and, and_false, if_false]
        exact emits_ensurePc_some hp
      | none =>
        have hensure : ensurePc net env sess w = createPc net env sess w := by
          unfold ensurePc
          rw [hp]
        unfold Emits
        rw [hensure]
        cases hn : env.newErr with
        | none =>
          simp only [gathersIn, hp, hn, Option.isNone_none, and_self, if_true]
          exact emits_createPc h hn
        | some e =>
          simp only [gathersIn, hn, reduceCtorEq, and_false, if_false]
          exact emits_createPc_error hn

end

/-! ## One event -/

def Reply.isStatus : Reply → Bool
  | .status _ _ => true
  | _ => false

theorem repliesOf_isStatus (net : Sdp.Net) (c : Option Conn) (g : Option (Session × PeerConnection)) :
    (repliesOf net c g).any Reply.isStatus = false := by
  cases g with
  | none => rfl
  | some g =>
    unfold repliesOf gatherReplies
    dsimp only
    split <;> rfl

theorem postSdp_cases (net : Sdp.Net) (conn : Conn) (body : Body) (env : MediaEnv) {w : Server}
    {sess : Session} (h : (w.find sess.ptr).isSome) (hr : w.replies = [])
    (hc : w.crashed = false) :
    let w' := postSdp net conn body env sess w
    let rs := repliesOf net w.pending ((gathersIn w sess env body).map (sess, ·))
    (w'.replies = rs ∧ w'.connPending = some conn ∧ w'.crashed = false) ∨
      (w'.replies = rs ++ [.status conn 500] ∧ w'.connPending = w.connPending) ∨
      (w'.replies = rs ∧ w'.crashed) := by
  have he : Emitted _ _ _ := emits_handlePostSdp net env h body
  unfold postSdp
  cases hx : handlePostSdp net env sess body w with
  | ok a w1 =>
    rw [hx] at he
    have hreplies := he.replies
    rw [hr] at hreplies
    exact .inl ⟨hreplies, rfl, he.crashed.trans hc⟩
  | error e w1 =>
    rw [hx] at he
    have hreplies := he.replies
    rw [hr] at hreplies
    have hstatus := congrArg (· ++ [Reply.status conn 500]) hreplies
    cases e with
    | nullDeref => exact .inr (.inr ⟨hreplies, rfl⟩)
    | err | code => exact .inr (.inl ⟨hstatus, he.connPending⟩)

def Event.pendingAfter (old : Option Conn) (failed : Bool) : Event → Option Conn
  | .request conn (.sdp _ _ _) => if failed then old else some conn
  | _ => old

structure Event.Handled (net : Sdp.Net) (w w' : Server) (ev : Event) : Prop where
  descr : ∀ c id type sdp, .descr c id type sdp ∈ w'.replies ↔
    .descr c id type sdp ∈ repliesOf net w.pending (ev.gathers w)
  pending : w'.crashed = false →
    w'.connPending = ev.pendingAfter w.connPending (w'.replies.any Reply.isStatus)

section
variable {net : Sdp.Net} {w : Server} {w' : Server} (conn : Conn)

theorem handled_reply {ev : Event} {r : Reply} (hr : w'.replies = [])
    (hd : ∀ c id type sdp, .descr c id type sdp ≠ r) (hg : ev.gathers w = none)
    (hp : w'.connPending = ev.pendingAfter w.connPending r.isStatus) : ev.Handled net w (w'.reply r) where
  descr c id type sdp := by simp [Server.reply, hr, hg, hd, repliesOf]
  pending _ := by simp [Server.reply, hr, hp]

variable {sessid : Option Bytes}

theorem handled_postSdp {body : Body} {env : MediaEnv}
    (hr : w.replies = []) (hc : w.crashed = false) :
    (Event.request conn (.sdp sessid body env)).Handled net w
      (withSession conn sessid (postSdp net conn body env) w) := by
  unfold withSession
  cases sessid with
  | none => exact handled_reply hr (by simp) rfl rfl
  | some val =>
    dsimp only
    cases hl : sessionLookup w val with
    | none => exact handled_reply hr (by simp) (by simp [Event.gathers, hl]) rfl
    | some sess =>
      have hg : (Event.request conn (.sdp (some val) body env)).gathers w =
          (gathersIn w sess env body).map (sess, ·) := by
        simp [Event.gathers, hl]
      have hstatus := repliesOf_isStatus net w.pending ((gathersIn w sess env body).map (sess, ·))
      dsimp only
      rcases postSdp_cases net conn body env (sessionLookup_find hl) hr hc with
        ⟨hrs, hp, hc'⟩ | ⟨hrs, hp⟩ | ⟨hrs, hc'⟩
      · refine ⟨fun c id type sdp => by rw [hrs, hg], fun _ => ?_⟩
        rw [hp, hrs, hstatus]
        rfl
      · refine ⟨fun c id type sdp => ?_, fun _ => ?_⟩
        · rw [hrs, hg, mem_append, mem_singleton]
          exact or_iff_left nofun
        · rw [hp, hrs, any_append, hstatus]
          rfl
      · refine ⟨fun c id type sdp => by rw [hrs, hg], fun h => ?_⟩
        rw [hc'] at h
        cases h

theorem handled_disconnect (hr : w.replies = []) :
    (Event.request conn (.disconnect sessid)).Handled net w (withSession conn sessid (disconnect conn) w) := by
  unfold withSession
  cases sessid with
  | none => exact handled_reply hr (by simp) rfl rfl
  | some val =>
    dsimp only
    cases hl : sessionLookup w val <;> exact handled_reply hr (by simp) rfl rfl

theorem handled_quiet {ev : Event} {g : Option (Session × PeerConnection)}
    (h : Emitted w w' (repliesOf net w.pending g)) (hr : w.replies = []) (hg : ev.gathers w = g)
    (hp : ∀ b, ev.pendingAfter w.connPending b = w.connPending) : ev.Handled net w w' where
  descr c id type sdp := by rw [h.replies, hr, hg, nil_append]
  pending _ := by rw [hp, h.connPending]

theorem Event.handled (ev : Event) (hr : w.replies = []) (hc : w.crashed = false) :
    ev.Handled net w (ev.handle net w) := by
  cases ev with
  | request conn req =>
    cases req with
    | connect => exact handled_reply hr (by simp) rfl rfl
    | sdp sessid body env => exact handled_postSdp conn hr hc
    | disconnect sessid => exact handled_disconnect conn hr
  | gathered ptr ice =>
    simp only [Event.handle, onSession]
    cases hf : w.find ptr with
    | none =>
      have hg : (Event.gathered ptr ice).gathers w = none := by simp [Event.gathers, hf]
      exact handled_quiet .refl hr hg fun _ => rfl
    | some sess =>
      have hg : (Event.gathered ptr ice).gathers w = (w.pc sess.ptr).map (sess, ·.gathered ice) := by
        simp [Event.gathers, hf]
      exact handled_quiet (emitted_mnatEstab net w sess ice) hr hg fun _ => rfl
  | pcClosed ptr =>
    simp only [Event.handle, onSession]
    cases hf : w.find ptr with
    | none => exact handled_quiet (g := none) .refl hr rfl fun _ => rfl
    | some sess => exact handled_quiet (g := none) (emitted_setPc) hr rfl fun _ => rfl
  | connClosed conn =>
    refine ⟨fun c id type sdp => ?_, fun _ => rfl⟩
    show _ ∈ w.replies ↔ _
    rw [hr]
    rfl

end

/-! ## The run -/

structure Posting where
  srv : Server
  posted : List (Conn × Bytes)
  accepted : List Conn

def Posting.init : Posting := ⟨.init, [], []⟩

def Event.post : Event → List (Conn × Bytes)
  | .request conn (.sdp (some val) _ _) => [(conn, val)]
  | _ => []

def Event.accepted (rs : List Reply) : Event → List Conn
  | .request conn (.sdp _ _ _) => if rs.any Reply.isStatus then [] else [conn]
  | _ => []

def Posting.step (net : Sdp.Net) (w : Posting) (ev : Event) : Posting × List Reply :=
  let (srv, rs) := w.srv.step net ev
  (⟨srv, w.posted ++ ev.post, w.accepted ++ ev.accepted rs⟩, rs)

def PostedFor (posted : List (Conn × Bytes)) (c : Conn) (id : Bytes) : Prop :=
  ∃ val, (c, val) ∈ posted ∧ strCaseEq val id

def RepliesOwn (net : Sdp.Net) (w : Posting) (ev : Event) : Prop :=
  ∀ conn id type sdp, .descr conn id type sdp ∈ (w.step net ev).2 →
    ∃ c, conn = some c ∧ PostedFor (w.posted ++ ev.post) c id

def Describes (net : Sdp.Net) (pc : PeerConnection) : Prop :=
  pc.signalingState ≠ .SS_HAVE_LOCAL_OFFER ∧
    ∃ mb sdp, Sdp.sdpEncode net (pc.signalingState == .SS_STABLE) pc.sdp = .ok mb sdp

def OwnTurn (net : Sdp.Net) (w : Posting) (ev : Event) : Prop :=
  w.srv.crashed = false → ∀ sess pc, ev.gathers w.srv = some (sess, pc) → Describes net pc →
    ∃ c, w.accepted.getLast? = some c ∧ c ∉ w.srv.closed ∧ PostedFor (w.posted ++ ev.post) c sess.id

def Posting.Inv (w : Posting) : Prop := w.srv.crashed = false → w.srv.connPending = w.accepted.getLast?

section
variable {net : Sdp.Net} {w : Posting} {ev : Event}

theorem createDescr_isOk {offer : Bool} {old new : SignalingSt} :
    (∃ mb pc', createDescr net offer old new pc = .ok mb pc') ↔
      pc.signalingState = old ∧ ∃ mb sdp, Sdp.sdpEncode net offer pc.sdp = .ok mb sdp := by
  constructor
  · rintro ⟨mb, pc', h⟩
    have hs := (createDescr_ok h).1
    rw [createDescr_eq hs] at h
    cases he : Sdp.sdpEncode net offer pc.sdp with
    | ok mb' sdp => exact ⟨hs, mb', sdp, rfl⟩
    | error c sdp =>
      rw [he] at h
      cases h
  · rintro ⟨hs, mb, sdp, he⟩
    rw [createDescr_eq hs, he]
    exact ⟨mb, _, rfl⟩

theorem describes_iff : Describes net pc ↔ ∃ mb pc', createType net (gatherType pc.signalingState) pc = .ok mb pc' := by
  unfold Describes
  cases hs : pc.signalingState with
  | SS_STABLE | SS_HAVE_REMOTE_OFFER | SS_HAVE_LOCAL_OFFER => exact Iff.trans (by simp [hs] <;> rfl) createDescr_isOk.symm

theorem mem_gatherReplies {conn c : Option Conn} {sess : Session} {id sdp : Bytes} {type : SdpType} :
    Reply.descr c id type sdp ∈ gatherReplies net conn sess pc ↔
      c = conn ∧ id = sess.id ∧ type = gatherType pc.signalingState ∧
        ∃ pc', createType net (gatherType pc.signalingState) pc = .ok sdp pc' := by
  unfold gatherReplies
  cases createType net (gatherType pc.signalingState) pc with
  | ok mb pc' =>
    rw [mem_singleton, Reply.descr.injEq]
    refine and_congr_right fun _ => and_congr_right fun _ => and_congr_right fun _ => ?_
    exact ⟨fun h => ⟨pc', by rw [h]⟩, fun h => by obtain ⟨_, h⟩ := h; cases h; rfl⟩
  | error e pc' =>
    refine ⟨nofun, fun h => ?_⟩
    obtain ⟨-, -, -, _, h⟩ := h
    cases h

theorem pending_eq_some {w : Server} {c : Conn} : w.pending = some c ↔ w.connPending = some c ∧ c ∉ w.closed := by
  rw [Server.pending, Option.filter_eq_some_iff]
  simp

theorem step_of_crashed (h : w.srv.crashed) : (w.step net ev).2 = [] ∧ (w.step net ev).1.srv = w.srv := by
  rw [Posting.step, Server.step, if_pos h]
  exact ⟨rfl, rfl⟩

theorem step_handled (h : w.srv.crashed = false) :
    ev.Handled net { w.srv with replies := [] } (w.step net ev).1.srv ∧
      (w.step net ev).2 = (w.step net ev).1.srv.replies := by
  have hnot : ¬ w.srv.crashed := by rw [h]; exact Bool.false_ne_true
  rw [Posting.step, Server.step, if_neg hnot]
  exact ⟨ev.handled rfl h, rfl⟩

theorem step_keeps (h : w.Inv) : (w.step net ev).1.Inv := by
  intro hc'
  have hc : w.srv.crashed = false := by
    by_contra hc
    rw [Bool.not_eq_false] at hc
    rw [(step_of_crashed hc).2, hc] at hc'
    cases hc'
  obtain ⟨hh, hrs⟩ := step_handled hc
  have hp := hh.pending hc'
  rw [← hrs] at hp
  rw [hp, h hc]
  show _ = (w.accepted ++ ev.accepted (w.step net ev).2).getLast?
  unfold Event.pendingAfter Event.accepted
  split
  · split <;> simp
  · simp

theorem repliesOwn_iff_ownTurn (h : w.Inv) : RepliesOwn net w ev ↔ OwnTurn net w ev := by
  unfold RepliesOwn OwnTurn
  by_cases hc : w.srv.crashed
  · rw [(step_of_crashed hc).1, hc]
    exact ⟨fun _ => nofun, fun _ _ _ _ _ => nofun⟩
  rw [Bool.not_eq_true] at hc
  obtain ⟨hh, hrs⟩ := step_handled hc
  constructor
  · intro hown _ sess pc hg hd
    obtain ⟨mb, pc', hmb⟩ := describes_iff.1 hd
    have hmem : Reply.descr w.srv.pending sess.id (gatherType pc.signalingState) mb ∈ (w.step net ev).2 := by
      rw [hrs, hh.descr]
      show _ ∈ repliesOf net w.srv.pending (ev.gathers w.srv)
      rw [hg]
      exact mem_gatherReplies.2 ⟨rfl, rfl, rfl, pc', hmb⟩
    obtain ⟨c, hpend, hpost⟩ := hown _ _ _ _ hmem
    obtain ⟨hcp, hopen⟩ := pending_eq_some.1 hpend
    exact ⟨c, (h hc).symm.trans hcp, hopen, hpost⟩
  intro hturn conn id type sdp hmem
  rw [hrs, hh.descr] at hmem
  change _ ∈ repliesOf net w.srv.pending (ev.gathers w.srv) at hmem
  cases hg : ev.gathers w.srv with
  | none =>
    rw [hg] at hmem
    cases hmem
  | some g =>
    obtain ⟨sess, pc⟩ := g
    rw [hg] at hmem
    obtain ⟨rfl, rfl, rfl, pc', hmb⟩ := mem_gatherReplies.1 hmem
    obtain ⟨c, hlast, hopen, hpost⟩ := hturn hc sess pc hg (describes_iff.2 ⟨sdp, pc', hmb⟩)
    exact ⟨c, pending_eq_some.2 ⟨(h hc).trans hlast, hopen⟩, hpost⟩

end

/-- **Descriptions reach their own session** in exactly the runs in which, whenever a session has
gathered, the connection of the last accepted `POST /sdp` is one of that session. -/
theorem repliesOwn_iff (net : Sdp.Net) (evs : List Event) :
    Along (Posting.step net) (RepliesOwn net) .init evs ↔ Along (Posting.step net) (OwnTurn net) .init evs :=
  along_iff_of_ok (fun _ _ h _ => step_keeps h) (fun _ _ h => repliesOwn_iff_ownTurn h) evs Posting.init fun _ => rfl

def audioOffer (sessid : String) : Request :=
  .sdp (some (ascii sessid)) (.descr ⟨.SDP_OFFER, ascii "v=0\r\nm=audio 9 RTP/AVP 0\r\n"⟩)
    ⟨none, Sdp.audioSession, none, none, none⟩

/-- Two browsers post their offers; the description of the first goes to the second. -/
theorem reply_to_other :
    (outs (Posting.step Sdp.noNet) .init [.request 10 .connect, .request 20 .connect, .request 11 (audioOffer "1"),
        .request 21 (audioOffer "2"), .gathered 0 id]).map
      (List.map fun
        | .descr c id type _ => (c, id, some type)
        | .connected c id => (some c, id, none)
        | .status c _ => (some c, [], none)) =
      [[(some 10, ascii "1", none)], [(some 20, ascii "2", none)], [], [],
        [(some 21, ascii "1", some .SDP_ANSWER)]] := by
  decide +kernel

end BareRTC.Peer
