import BareRTC.Restund.Proof.Alloc
import BareRTC.Restund.Proof.Tcp
import BareRTC.Restund.Server

/-!
# What a step of the server can do

`step_spec` says what a step does to the allocations, and which requests get as far as the module
that changes them. It also says of everything that a step sends which allocation it is for, and the
permission and the channel that were found for it.
-/

namespace BareRTC.Restund

open List

open Sdp (Sa)
open Stun (Attrib AttrVal Msg Proto stunMsgClass stunMsgMethod stunMsgChkMi)

/-! ## Requests that reach the turn module -/

def Event.request : Event → Option (Env × Via × Msg)
  | .recv env via mb =>
    match decodeMsg env mb with
    | some (msg, _) => if stunMsgClass msg = 0 then some (env, via, msg) else none
    | none => none
  | _ => none

structure Authenticated (au : Auth) (env : Env) (via : Via) (msg : Msg) (user nonce : Bytes) : Prop where
  hasUser : msgAttr msg .username valStr = some user
  hasNonce : msgAttr msg .nonce valStr = some nonce
  valid : nonceValidate au nonce env.now via.src
  integrity : ∃ ha1, env.ha1 (cstr user) = some ha1 ∧ (stunMsgChkMi au.hash ha1 msg).1 = none

def AuthFirst (mods : List Module) : Prop := ∀ pre post, mods = pre ++ .turn :: post → .auth ∈ pre

def Passed (cfg : Config) (env : Env) (via : Via) (msg : Msg) (ctx : Msgctx) : Prop :=
  AuthFirst cfg.mods → ctx.key.isSome ∧ ∃ user nonce, Authenticated cfg.auth env via msg user nonce

variable {s : Server} {outs : List Out} {handler : Server → Bool × Server × List Out} {mods : List Module}

variable {ctx : Msgctx}

section
variable (cfg : Config) (env : Env) (via : Via) (al : Allocation)

/-- The auth handler lets a request pass that has a key already, or gives it one after all
checks. -/
theorem authRequestHandler_spec {au : Auth} {msg : Msg} :
    (∃ outs, authRequestHandler au env ctx via msg = (true, ctx, outs) ∧ Replies au env via outs) ∨
      ∃ ctx', authRequestHandler au env ctx via msg = (false, ctx', []) ∧ ctx'.key.isSome ∧
        (ctx' = ctx ∨ ∃ user nonce, Authenticated au env via msg user nonce) := by
  have hchallenge : ∀ (code : UInt16) (reason : String),
      Replies au env via [authEreply au env ctx via msg code reason (challenge au env via)] :=
    fun _ _ => .single (by simp [challenge])
  unfold authRequestHandler
  split
  · exact .inr ⟨ctx, rfl, ‹_›, .inl rfl⟩
  split
  · exact .inl ⟨_, rfl, hchallenge _ _⟩
  split
  · rename_i user _ nonce huser _ hnonce
    split
    · exact .inl ⟨_, rfl, hchallenge _ _⟩
    rename_i hvalid
    split
    · exact .inl ⟨_, rfl, .single (by simp)⟩
    split
    · exact .inl ⟨_, rfl, hchallenge _ _⟩
    rename_i ha1 hha1
    split
    · exact .inl ⟨_, rfl, hchallenge _ _⟩
    rename_i hmi
    exact .inr ⟨_, rfl, rfl, .inr ⟨user, nonce, huser, hnonce, by simpa using hvalid, ha1, hha1, by simpa using hmi⟩⟩
  · exact .inl ⟨_, rfl, .single (by simp)⟩

def RequestGains (msg : Msg) (s : Server) (outs : List Out) (al : Allocation) : Prop :=
  ∃ ctx, Passed cfg env via msg ctx ∧ Gained cfg.turnd env ctx via msg s outs al

/-- The loop over the request handlers, from one on. A key is only in the context if the checks of
the auth handler were passed, and it is there if this handler is one of those before. -/
theorem requestLoop_answers {s : Server} (hs : s.Ok) (msg : Msg) : ∀ (mods pre : List Module) (ctx : Msgctx),
    cfg.mods = pre ++ mods →
    (ctx.key.isSome → ∃ user nonce, Authenticated cfg.auth env via msg user nonce) →
    (Module.auth ∈ pre → ctx.key.isSome) →
    Answers env via cfg.auth s (RequestGains cfg env via msg s (requestLoop cfg env via msg mods ctx s).2)
      (requestLoop cfg env via msg mods ctx s)
  | [], _, _, _, _, _ => ⟨.refl hs, .nil⟩
  | .auth :: mods, pre, ctx, hmods, hkey, hpre => by
    unfold requestLoop
    obtain ⟨outs, heq, hreplies⟩ | ⟨ctx', heq, hsome, hcases⟩ := authRequestHandler_spec env via
    · rw [heq]
      exact ⟨.refl hs, hreplies⟩
    rw [heq]
    refine requestLoop_answers hs msg mods (pre ++ [.auth]) ctx' (by simp [hmods]) (fun _ => ?_) (fun _ => hsome)
    rcases hcases with rfl | hauthd
    · exact hkey hsome
    · exact hauthd
  | .turn :: mods, pre, ctx, hmods, hkey, hpre => by
    have hturn := turnRequestHandler_answers cfg.turnd env ctx via msg cfg.auth hs
    unfold requestLoop
    split
    · rename_i s' outs hreq
      rw [hreq] at hturn
      refine ⟨hturn.moves.mono fun al hal => ⟨ctx, fun hfirst => ?_, hal⟩, hturn.replies⟩
      have hsome := hpre (hfirst pre mods hmods)
      exact ⟨hsome, hkey hsome⟩
    rename_i s' outs hreq
    obtain ⟨rfl, rfl⟩ := turnRequestHandler_false cfg.turnd env ctx via msg hreq
    refine requestLoop_answers hs msg mods (pre ++ [.turn]) ctx (by simp [hmods]) hkey fun hmem => hpre ?_
    simpa using hmem
  | .other n :: mods, pre, ctx, hmods, hkey, hpre => by
    unfold requestLoop
    split
    · exact ⟨.refl hs, .nil⟩
    · refine requestLoop_answers hs msg mods (pre ++ [.other n]) ctx (by simp [hmods]) hkey fun hmem => hpre ?_
      simpa using hmem

end

/-! ## What a step sends -/

inductive ClientSends (al : Allocation) (dst : Sa) (d : Bytes) : Event → Prop
  | send {env : Env} {via : Via} {mb : { mb : Mbuf // mb.Ok }} {msg : Msg} {ua : List UInt16} :
      decodeMsg env mb = some (msg, ua) → stunMsgClass msg = 1 → stunMsgMethod msg = methodSend →
      al.cmp via → msgAttr msg .xorPeerAddr valXorAddr = some dst → msgAttr msg .data valData = some d →
      ClientSends al dst d (.recv env via mb)
  | chanData {env : Env} {via : Via} {mb : { mb : Mbuf // mb.Ok }} {chan : Chan} {rest : Bytes} :
      decodeMsg env mb = none → al.cmp via →
      mb.1.left = beBytes 2 chan.numb.toNat ++ beBytes 2 d.length ++ d ++ rest →
      chan ∈ al.chans → chan.peer = dst → ClientSends al dst d (.recv env via mb)

def Allocation.Permits (al : Allocation) (peer : Sa) (now : Nat) : Prop :=
  ∃ perm ∈ al.perms, perm.peer.addr = peer.addr ∧ now ≤ perm.expires

inductive Sends (au : Auth) (s : Server) (ev : Event) : Out → Prop
  | reply {env : Env} {via : Via} {mb : { mb : Mbuf // mb.Ok }} {req : Stun.Hdr} {rep : Reply} {err : Option Errno} :
      ev = .recv env via mb → (∀ n, (Attrib.nonce, AttrVal.str n) ∈ rep.attrs → n = mknonce au env.now via.src) →
      Sends au s ev (.reply via req rep err)
  | relay {al : Allocation} {us : Nat} {dst : Sa} {d : Bytes} : al ∈ s.allocs → al.relUs = some us →
      al.Permits dst ev.env.now → restundAddrIsBlocked dst = false → ClientSends al dst d ev →
      Sends au s ev (.relay us dst d)
  | chanData {al : Allocation} {env : Env} {us : Nat} {src : Sa} {d : Bytes} {chan : Chan} : al ∈ s.allocs →
      ev = .peer env us src d → al.relUs = some us → al.Permits src env.now → chan ∈ al.chans → chan.peer = src →
      env.now ≤ chan.expires →
      Sends au s ev (.chanData al.proto al.cliSock al.cliAddr (chanMessage al.proto chan.numb d))
  | dataInd {al : Allocation} {env : Env} {us : Nat} {src : Sa} {d : Bytes} : al ∈ s.allocs →
      ev = .peer env us src d → al.relUs = some us → al.Permits src env.now →
      Sends au s ev (.dataInd al.proto al.cliSock al.cliAddr src d)

theorem Replies.sends {au : Auth} {env : Env} {via : Via} {mb : { mb : Mbuf // mb.Ok }} (h : Replies au env via outs) :
    ∀ o ∈ outs, Sends au s (.recv env via mb) o := by
  intro o ho
  obtain ⟨req, rep, err, rfl, hnonce⟩ := h o ho
  exact .reply rfl hnonce

theorem offer_eq (handler : Server → Bool × Server × List Out) (s : Server) : ∀ mods : List Module, mods.Nodup →
    offer handler mods s = if Module.turn ∈ mods then (handler s).2 else (s, [])
  | [], _ => by simp [offer]
  | .auth :: mods, h | .other _ :: mods, h => by
    rw [offer, offer_eq handler s mods h.of_cons] <;> simp
  | .turn :: mods, h => by
    have hnot : Module.turn ∉ mods := (nodup_cons.1 h).1
    have hrest := fun s => offer_eq handler s mods h.of_cons
    simp only [if_neg hnot] at hrest
    rw [offer, if_pos mem_cons_self]
    split
    · rename_i heq
      rw [heq]
    rename_i s' outs heq
    rw [heq, hrest s']
    simp

structure Relays (au : Auth) (s : Server) (ev : Event) (r : Server × List Out) : Prop where
  moves {New Gone : Allocation → Prop} : Moves ev.env.now s r.1 New Gone
  sends : ∀ o ∈ r.2, Sends au s ev o

section
variable {au : Auth} {ev : Event}

theorem Relays.refl (hs : s.Ok) : Relays au s ev (s, []) := ⟨.refl hs, forall_mem_nil _⟩

theorem Relays.offer (hs : s.Ok) (hmods : mods.Nodup) (h : Relays au s ev (handler s).2) :
    Relays au s ev (offer handler mods s) := by
  rw [offer_eq handler s mods hmods]
  split
  · exact h
  · exact .refl hs

end

section
variable (au : Auth) (env : Env) (via : Via) {al : Allocation} {mb : { mb : Mbuf // mb.Ok }}

/-! ### Data of clients -/

theorem relaySend_looked {peer : Sa} (d : Bytes) : Looked env.now al (relaySend env al peer d).1 := by
  have hsub := permFind_sublist env.now peer al.perms
  unfold relaySend
  split <;> rename_i perms hfind <;> rw [hfind] at hsub <;>
    exact ⟨rfl, hsub, .refl, fun _ h _ => h⟩

theorem relaySend_sends {ev : Event} {al : Allocation} {peer : Sa} {d : Bytes} (hal : al ∈ s.allocs)
    (hnow : ev.env.now = env.now) (hdata : ClientSends al peer d ev) :
    ∀ o ∈ (relaySend env al peer d).2, Sends au s ev o := by
  intro o ho
  unfold relaySend at ho
  split at ho
  · cases ho
  rename_i perm perms hfind
  obtain ⟨hfound, hlive, -⟩ := permFind_some hfind
  have hpermits : al.Permits peer ev.env.now := ⟨perm, mem_of_find?_eq_some hfound, addr_of_find hfound, hnow ▸ hlive⟩
  simp only at ho
  split at ho
  · cases ho
  rename_i hblocked
  obtain ⟨us, hus, rfl⟩ : ∃ us, al.relUs = some us ∧ Out.relay us peer d = o := by
    simpa [Option.map_eq_some_iff] using ho
  exact .relay hal hus hpermits (by simpa using hblocked) hdata

theorem turnIndicationHandler_relays (hs : s.Ok) {msg : Msg} {ua : List UInt16}
    (hmsg : decodeMsg env mb = some (msg, ua)) (hclass : stunMsgClass msg = 1) :
    Relays au s (.recv env via mb) (turnIndicationHandler env ctx via msg s).2 := by
  unfold turnIndicationHandler
  split
  · exact .refl hs
  rename_i hmet
  split
  · exact .refl hs
  split
  · exact .refl hs
  rename_i al hfind
  obtain ⟨hal, hcmp⟩ := mem_of_allocationFind hfind
  split
  · rename_i peer d hpeer hd
    exact ⟨.put_looked hs hal (relaySend_looked env _),
      relaySend_sends au env hal rfl (.send hmsg hclass (by simpa using hmet) hcmp hpeer hd)⟩
  · exact .refl hs

/-- The bytes of channel data: the number, the length, and as many bytes as it says -/
theorem left_eq_chanData {w : Bytes} (h4 : 4 ≤ w.length) (hlen : (headOf w).2.toNat ≤ w.length - 4) :
    w = beBytes 2 (headOf w).1.toNat ++ beBytes 2 ((w.drop 4).take (headOf w).2.toNat).length ++
      (w.drop 4).take (headOf w).2.toNat ++ (w.drop 4).drop (headOf w).2.toNat := by
  have hnum : ∀ i, i + 2 ≤ w.length → beBytes 2 (UInt16.ofNat (numAt w i 2)).toNat = slice w i 2 := by
    intro i hi
    have hl : (slice w i 2).length = 2 := length_slice hi
    have hlt := beNat_lt (slice w i 2)
    have hback := beBytes_beNat (slice w i 2)
    rw [hl] at hlt hback
    rw [numAt, UInt16.toNat_ofNat', Nat.mod_eq_of_lt (by simpa using hlt), hback]
  have hlength : ((w.drop 4).take (headOf w).2.toNat).length = (headOf w).2.toNat := by
    rw [length_take, length_drop]
    omega
  have hhead : beBytes 2 (headOf w).1.toNat ++ beBytes 2 (headOf w).2.toNat = w.take 4 := by
    rw [headOf, hnum 0 (by omega), hnum 2 (by omega), slice_append_slice rfl]
    rfl
  rw [hlength, hhead, append_assoc, take_append_drop, take_append_drop]

theorem turnRawHandler_relays (hs : s.Ok) (hmsg : decodeMsg env mb = none) :
    Relays au s (.recv env via mb) (turnRawHandler env via mb s).2 := by
  unfold turnRawHandler
  split
  · exact .refl hs
  rename_i al hfind
  obtain ⟨hal, hcmp⟩ := mem_of_allocationFind hfind
  have hrest : mb.1.Rest mb.1.left := ⟨mb.2, rfl⟩
  split
  · exact .refl hs
  rename_i h4
  rw [hrest.getLeft, Nat.not_lt] at h4
  rw [readHead_ok hrest h4]
  have hdrop := hrest.drop h4
  simp only
  split
  · exact .refl hs
  rename_i hlen
  rw [hdrop.getLeft, Nat.not_lt] at hlen
  split
  · rename_i chans hchan
    exact ⟨.put_looked hs hal (.of_found (List.Sublist.refl _) hchan), forall_mem_nil _⟩
  rename_i chan chans hchan
  obtain ⟨hfound, -, rfl⟩ := Chanlist.found_some hchan
  have hnumb : chan.numb = (headOf mb.1.left).1 := by simpa using find?_some hfound
  rw [(hdrop.setEnd hlen).left]
  have hleft := left_eq_chanData h4 (by simpa using hlen)
  rw [← hnumb] at hleft
  exact ⟨.put_looked hs hal (relaySend_looked env _),
    relaySend_sends au env hal rfl
      (.chanData hmsg hcmp hleft (.inl (mem_of_find?_eq_some hfound)) rfl)⟩

/-! ### Data of peers -/

variable {d : Bytes}

theorem turnUdpRecv_spec {us : Nat} (hal : al ∈ s.allocs) (hus : al.relUs = some us) (src : Sa) :
    Looked env.now al (turnUdpRecv env al src d).1 ∧
      ∀ o ∈ (turnUdpRecv env al src d).2, Sends au s (.peer env us src d) o := by
  have hperms := permFind_sublist env.now src al.perms
  unfold turnUdpRecv
  split
  · exact ⟨⟨rfl, List.Sublist.refl _, .refl, fun _ h _ => h⟩, forall_mem_nil _⟩
  split <;> rename_i hperm <;> rw [hperm] at hperms
  · exact ⟨⟨rfl, hperms, .refl, fun _ h _ => h⟩, forall_mem_nil _⟩
  rename_i perm perms
  obtain ⟨hfound, hlive, -⟩ := permFind_some hperm
  have hpermits : al.Permits src env.now := ⟨perm, mem_of_find?_eq_some hfound, addr_of_find hfound, hlive⟩
  obtain ⟨o, cl, hchan⟩ : ∃ o cl, chanPeerFind env.now src al.chans = (o, cl) := ⟨_, _, rfl⟩
  have hlooked := Looked.of_found hperms hchan
  simp only [hchan]
  cases o with
  | some chan =>
    dsimp only
    split
    · exact ⟨hlooked, forall_mem_nil _⟩
    obtain ⟨hfound', hlive', -⟩ := Chanlist.found_some hchan
    exact ⟨hlooked, forall_mem_singleton.2 (.chanData hal rfl hus hpermits
      (.inr (mem_of_find?_eq_some hfound')) (by simpa using find?_some hfound') hlive')⟩
  | none => exact ⟨hlooked, forall_mem_singleton.2 (.dataInd hal rfl hus hpermits)⟩

theorem relayRecv_relays (hs : s.Ok) {us : Nat} {src : Sa} :
    Relays au s (.peer env us src d) (relayRecv env us src d s) := by
  unfold relayRecv
  split
  · rename_i id hsock
    have hmem : (us, some id) ∈ s.socks := by
      obtain ⟨l1, l2, heq, -⟩ := lookup_eq_some_iff.1 hsock
      simp [heq]
    obtain ⟨al', hal', hid', hrel'⟩ := hs.args hmem
    split
    · have := find?_eq_none.1 ‹_› al' hal'
      simp [hid'] at this
    rename_i al hfind
    have hal := mem_of_find?_eq_some hfind
    have hid : al.id = id := by simpa using find?_some hfind
    obtain rfl := hs.eq_of_id hal hal' (hid.trans hid'.symm)
    obtain ⟨hlooked, hsends⟩ := turnUdpRecv_spec au env hal hrel' src
    exact ⟨.put_looked hs hal hlooked, hsends⟩
  · exact .refl hs

end

/-! ## A step -/

def EventGains (cfg : Config) (s : Server) (ev : Event) (al : Allocation) : Prop :=
  ∃ env via msg, ev.request = some (env, via, msg) ∧ RequestGains cfg env via msg s (step cfg s ev).2 al

def Expires (ev : Event) (al : Allocation) : Prop := ∃ env, ev = .timer env al.id ∧ al.tmr ≤ env.jiffies

theorem turnTimeout_moves (hs : s.Ok) {env : Env} {id : Nat} {New : Allocation → Prop} :
    Moves env.now s (turnTimeout env id s).1 New (Expires (.timer env id)) := by
  unfold turnTimeout
  split
  · exact .refl hs
  rename_i al hfind
  have hal := mem_of_find?_eq_some hfind
  have htmr : al.id = id ∧ al.tmr ≤ env.jiffies := by simpa using find?_some hfind
  refine ⟨hs.destroy hal, le_refl _, fun b hb => .inl ⟨b, (mem_filter.1 hb).1, .refl b⟩, fun b hb => ?_⟩
  by_cases hid : b.id = al.id
  · obtain rfl := hs.eq_of_id hb hal hid
    exact .inr ⟨env, by rw [htmr.1], htmr.2⟩
  · exact .inl ⟨b, mem_filter.2 ⟨hb, by simpa using hid⟩, rfl⟩

theorem step_spec (cfg : Config) (hs : s.Ok) (ev : Event) :
    Moves ev.env.now s (step cfg s ev).1 (EventGains cfg s ev) (Expires ev) ∧
      ∀ o ∈ (step cfg s ev).2, Sends cfg.auth s ev o := by
  have hdata : ∀ {r}, Relays cfg.auth s ev r →
      Moves ev.env.now s r.1 (EventGains cfg s ev) (Expires ev) ∧ ∀ o ∈ r.2, Sends cfg.auth s ev o :=
    fun h => ⟨h.moves, h.sends⟩
  cases ev with
  | peer env us src d => exact hdata (relayRecv_relays cfg.auth env hs)
  | timer env id =>
    refine ⟨turnTimeout_moves hs, ?_⟩
    show ∀ o ∈ (turnTimeout env id s).2, _
    unfold turnTimeout
    split <;> exact forall_mem_nil _
  | recv env via mb =>
    have hstep : step cfg s (.recv env via mb) = restundProcessMsg cfg env via mb s := rfl
    rw [hstep, restundProcessMsg]
    split
    · exact hdata (.offer hs cfg.nodup (turnRawHandler_relays cfg.auth env via hs ‹_›))
    rename_i msg ua hmsg
    split
    · rename_i hreq
      have hloop := requestLoop_answers cfg env via hs msg cfg.mods [] { ua } rfl nofun nofun
      refine ⟨⟨hloop.moves.ok, hloop.moves.next, fun al hal => (hloop.moves.from_ al hal).imp_right fun hgain =>
        ⟨env, via, msg, ?_, ?_⟩, fun al hal => (hloop.moves.stays al hal).imp_right False.elim⟩, hloop.replies.sends⟩
      · simp [Event.request, hmsg, hreq]
      · simpa [step, restundProcessMsg, hmsg, hreq] using hgain
    split
    · exact hdata (.offer hs cfg.nodup (turnIndicationHandler_relays cfg.auth env via hs hmsg ‹_›))
    · exact hdata (.refl hs)

theorem exec_ok (cfg : Config) (evs : List Event) : (exec (step cfg) {} evs).Ok :=
  exec_inv_all Server.Ok (fun _ ev hs => (step_spec cfg hs ev).1.ok) evs {} .init

end BareRTC.Restund
